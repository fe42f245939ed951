import Sprawling.Kernel.Address
import Sprawling.Kernel.RunId
import Sprawling.Storage.Split

/-! Attribution reports: where the money went, in five cuts of one billed total. -/

namespace Sprawling

/-- The kinds that carry money, its basis or a renewal; the rest of the vocabulary is silent. -/
inductive BillKind where
  | cacheRenewed
  | promptAssembled
  | runFrozen
  | toolResult
  | modelReturned
  | silent
deriving DecidableEq

/-- A ledger line, as far as the bill reads it. -/
structure BillRecord where
  kind : BillKind
  run : RunId
  who : List Char
  addr : Option Address
  data : Json
deriving DecidableEq

/-- A count a provider may leave out. -/
inductive CacheCount where
  | unreported
  | reported (tokens : Nat)

/-- What a `cache_renewed` line reads as; of an answer's usage only the cache writes are asked. -/
inductive CacheRenewed where
  | refused
  | answered (cacheWrites : Option CacheCount) (billedUsdMicros : Option Nat)

inductive RenewalOutcome where
  | read
  | late
  | unreported
  | refused

/-- What a renewal shows about the cache it was sent to keep. -/
def CacheRenewed.outcome : CacheRenewed → RenewalOutcome
  | .refused => .refused
  | .answered none _ | .answered (some .unreported) _ => .unreported
  | .answered (some (.reported written)) _ => if written = 0 then .read else .late

/-- The model calls that came back with no authoritative amount. -/
structure Unpriced where
  calls : Nat
  tokens : Nat

/-- The tokens of one call's usage: input and output. -/
def usageTokens (data : Json) : Nat :=
  (["input_tokens", "output_tokens"].filterMap fun field =>
    ((data.get "usage").bind (·.get field)).bind Json.asU64).foldl saturatingAdd 0

def Unpriced.count (unpriced : Unpriced) (data : Json) : Unpriced :=
  { calls := saturatingAdd unpriced.calls 1
    tokens := saturatingAdd unpriced.tokens (usageTokens data) }

/-- The keep-warm renewals the ledger holds. -/
structure Renewals where
  billed : Nat
  read : Nat
  late : Nat
  unreported : Nat
  refused : Nat

def Renewals.count (renewals : Renewals) : RenewalOutcome → Renewals
  | .read => { renewals with read := saturatingAdd renewals.read 1 }
  | .late => { renewals with late := saturatingAdd renewals.late 1 }
  | .unreported => { renewals with unreported := saturatingAdd renewals.unreported 1 }
  | .refused => { renewals with refused := saturatingAdd renewals.refused 1 }

/-- The money of an attribution: its cuts, and what a report shows beside them. -/
structure Bill where
  byRun : Buckets
  byActor : Buckets
  bySegment : Buckets
  byTool : Buckets
  bySkill : Buckets
  total : Nat
  unpriced : Unpriced
  renewals : Renewals

/-- The bill, and the basis on which the next call is split. -/
structure Attribution where
  bill : Bill
  segmentWeights : OrdMap RunId (List (List Char × Nat))
  toolWeights : Buckets
  skillWeights : Buckets

/-- What a report lists. -/
structure AttributionReport where
  total : Nat
  byRun : List (List Char × Nat)
  byActor : List (List Char × Nat)
  bySegment : List (List Char × Nat)
  byTool : List (List Char × Nat)
  bySkill : List (List Char × Nat)
  unpriced : Unpriced
  renewals : Renewals

namespace Bill

def empty : Bill :=
  { byRun := ∅, byActor := ∅, bySegment := ∅, byTool := ∅, bySkill := ∅, total := 0
    unpriced := ⟨0, 0⟩, renewals := ⟨0, 0, 0, 0, 0⟩ }

/-- A call that came back with an amount, split on the basis it finds. -/
def priced (bill : Bill) (record : BillRecord) (billed : Nat)
    (segments tools skills : List (List Char × Nat)) : Bill :=
  { bill with
    total := saturatingAdd bill.total billed
    byRun := bill.byRun.add record.run.display billed
    byActor := bill.byActor.add record.who billed
    bySegment := bill.bySegment.addAll (Split.split billed segments noSegment)
    byTool := bill.byTool.addAll (Split.split billed tools noTool)
    bySkill := bill.bySkill.addAll (Split.split billed skills noSkill) }

/-- A renewal that came back with an amount: its room, and one bucket in the other cuts. -/
def renewedFor (bill : Bill) (record : BillRecord) (micros : Nat) : Bill :=
  { bill with
    total := saturatingAdd bill.total micros
    renewals := { bill.renewals with billed := saturatingAdd bill.renewals.billed micros }
    byActor := bill.byActor.add ((record.addr.map (·.text)).getD record.who) micros
    byRun := bill.byRun.add keepWarm micros
    bySegment := bill.bySegment.add keepWarm micros
    byTool := bill.byTool.add keepWarm micros
    bySkill := bill.bySkill.add keepWarm micros }

/-- One `cache_renewed` line: counted by what it showed, and its bill added. -/
def renewed (bill : Bill) (record : BillRecord) (line : Option CacheRenewed) : Bill :=
  match line with
  | none => { bill with renewals := bill.renewals.count .unreported }
  | some line =>
    let counted := { bill with renewals := bill.renewals.count line.outcome }
    match line with
    | .refused => counted
    | .answered _ none => { counted with unpriced := counted.unpriced.count record.data }
    | .answered _ (some micros) => counted.renewedFor record micros

end Bill

namespace Attribution

def new : Attribution :=
  { bill := .empty, segmentWeights := ∅, toolWeights := ∅, skillWeights := ∅ }

/-- The amount a provider reported for a call. -/
def billedOf (record : BillRecord) : Option Nat :=
  (record.data.get "billed_usd_micros").bind Json.asU64

/-- The tool a result came from. -/
def toolName (record : BillRecord) : List Char :=
  ((record.data.get "name").bind Json.asStr).getD "unnamed".toList

def toolBytes (record : BillRecord) : Nat :=
  ((record.data.get "bytes").bind Json.asU64).getD 1

/-- The skill a call was made under, when one was. -/
def toolSkill (record : BillRecord) : List Char :=
  ((record.data.get "skill").bind Json.asStr).getD noSkill

variable (read : Json → Option CacheRenewed)

/-- Folds one record in. `read` is how a `cache_renewed` payload is read. -/
def apply (attribution : Attribution) (record : BillRecord) : Attribution :=
  match record.kind with
  | .cacheRenewed =>
    { attribution with bill := attribution.bill.renewed record (read record.data) }
  | .promptAssembled =>
    { attribution with
      segmentWeights :=
        attribution.segmentWeights.insert record.run (Split.segmentWeights record.data) }
  | .runFrozen =>
    { attribution with segmentWeights := attribution.segmentWeights.erase record.run }
  | .toolResult =>
    { attribution with
      toolWeights := attribution.toolWeights.add (toolName record) (toolBytes record)
      skillWeights := attribution.skillWeights.add (toolSkill record) (toolBytes record) }
  | .modelReturned =>
    match billedOf record with
    | none =>
      { attribution with
        bill :=
          { attribution.bill with
            unpriced := attribution.bill.unpriced.count record.data }
        toolWeights := ∅
        skillWeights := ∅ }
    | some billed =>
      { attribution with
        bill := attribution.bill.priced record billed
          ((attribution.segmentWeights[record.run]?).getD [])
          attribution.toolWeights.toList attribution.skillWeights.toList
        toolWeights := ∅
        skillWeights := ∅ }
  | .silent => attribution

def fold (records : List BillRecord) : Attribution := records.foldl (apply read) new

def report (attribution : Attribution) : AttributionReport :=
  { total := attribution.bill.total
    byRun := attribution.bill.byRun.toList
    byActor := attribution.bill.byActor.toList
    bySegment := attribution.bill.bySegment.toList
    byTool := attribution.bill.byTool.toList
    bySkill := attribution.bill.bySkill.toList
    unpriced := attribution.bill.unpriced
    renewals := attribution.bill.renewals }

end Attribution

end Sprawling
