import Sprawling.Base.Interleaving
import Sprawling.Base.Machine
import Sprawling.Base.Trace
import Sprawling.Storage.Attribution

/-! What the bill of a whole ledger adds up to, and when it does not depend on the order in which
the lines of different runs fall. -/

namespace Sprawling

open List Buckets Interleaving Trace Split

namespace Attribution

variable {read : Json → Option CacheRenewed}

/-- The amount a line bills. -/
def billedIn (read : Json → Option CacheRenewed) (record : BillRecord) : Nat :=
  match record.kind with
  | .modelReturned => (billedOf record).getD 0
  | .cacheRenewed =>
    match read record.data with
    | some (.answered _ (some micros)) => micros
    | _ => 0
  | .promptAssembled | .runFrozen | .toolResult | .silent => 0

/-- A priced call finds weights that fit 64 bits, in each of the three bases it is split on. -/
def Fits (attribution : Attribution) (record : BillRecord) : Prop :=
  record.kind = .modelReturned ∧ (billedOf record).isSome →
    (((attribution.segmentWeights[record.run]?).getD []).map Prod.snd).sum ≤ u64Max ∧
      attribution.toolWeights.total ≤ u64Max ∧ attribution.skillWeights.total ≤ u64Max

instance (attribution : Attribution) (record : BillRecord) :
    Decidable (attribution.Fits record) := inferInstanceAs (Decidable (_ → _))

/-- Every cut sums to the total, and the total is what was billed. -/
structure Balanced (bill : Bill) (billed : Nat) : Prop where
  total : bill.total = billed
  byRun : bill.byRun.total = billed
  byActor : bill.byActor.total = billed
  bySegment : bill.bySegment.total = billed
  byTool : bill.byTool.total = billed
  bySkill : bill.bySkill.total = billed

variable {held amount : Nat} {map : Buckets}

theorem total_add_of_fits (sum : map.total = held)
    (fits : held + amount ≤ u64Max) (key : List Char) :
    (map.add key amount).total = held + amount := by
  have part := OrdMap.get_le_total map key
  rw [total_add (by omega), sum]

theorem total_split {weights : List (List Char × Nat)}
    (sum : map.total = held) (fits : held + amount ≤ u64Max)
    (basis : (weights.map Prod.snd).sum ≤ u64Max) (fallback : List Char) :
    (map.addAll (Split.split amount weights fallback)).total = held + amount := by
  have shares := (split_exact (by omega) basis fallback : Split.Exact amount weights _).sums
  rw [total_addAll (by omega), sum, shares]

variable {bill : Bill}

theorem Balanced.priced {held billed : Nat} (balanced : Balanced bill held)
    (fits : held + billed ≤ u64Max) (record : BillRecord)
    {segments tools skills : List (List Char × Nat)}
    (segment : (segments.map Prod.snd).sum ≤ u64Max) (tool : (tools.map Prod.snd).sum ≤ u64Max)
    (skill : (skills.map Prod.snd).sum ≤ u64Max) :
    Balanced (bill.priced record billed segments tools skills) (held + billed) where
  total := by
    simp only [Bill.priced, balanced.total, saturatingAdd]
    omega
  byRun := total_add_of_fits balanced.byRun fits _
  byActor := total_add_of_fits balanced.byActor fits _
  bySegment := total_split balanced.bySegment fits segment _
  byTool := total_split balanced.byTool fits tool _
  bySkill := total_split balanced.bySkill fits skill _

theorem Balanced.renewedFor {held micros : Nat} (balanced : Balanced bill held)
    (fits : held + micros ≤ u64Max) (record : BillRecord) :
    Balanced (bill.renewedFor record micros) (held + micros) where
  total := by
    simp only [Bill.renewedFor, balanced.total, saturatingAdd]
    omega
  byRun := total_add_of_fits balanced.byRun fits _
  byActor := total_add_of_fits balanced.byActor fits _
  bySegment := total_add_of_fits balanced.bySegment fits _
  byTool := total_add_of_fits balanced.byTool fits _
  bySkill := total_add_of_fits balanced.bySkill fits _

variable {held : Nat}

theorem Balanced.beside (balanced : Balanced bill held)
    (unpriced : Unpriced) (renewals : Renewals) : Balanced { bill with unpriced, renewals } held :=
  ⟨balanced.total, balanced.byRun, balanced.byActor, balanced.bySegment, balanced.byTool,
    balanced.bySkill⟩

variable {attribution : Attribution}

theorem balanced_apply (balanced : Balanced attribution.bill held) (record : BillRecord)
    (fits : held + billedIn read record ≤ u64Max) (basis : attribution.Fits record) :
    Balanced (attribution.apply read record).bill (held + billedIn read record) := by
  unfold apply
  unfold billedIn at fits ⊢
  cases kind : record.kind with
  | cacheRenewed =>
    simp only [kind, Bill.renewed] at fits ⊢
    cases found : read record.data with
    | none => exact balanced.beside _ _
    | some line =>
      rw [found] at fits
      cases line with
      | refused => exact balanced.beside _ _
      | answered usage billed =>
        cases billed with
        | none => exact balanced.beside _ _
        | some micros => exact (balanced.beside _ _).renewedFor fits record
  | promptAssembled => exact balanced
  | runFrozen => exact balanced
  | toolResult => exact balanced
  | modelReturned =>
    simp only [kind] at fits ⊢
    cases billed : billedOf record with
    | none => exact balanced.beside _ _
    | some micros =>
      rw [billed] at fits
      obtain ⟨segment, tool, skill⟩ := basis ⟨kind, by rw [billed]; rfl⟩
      exact balanced.priced fits record segment tool skill
  | silent => exact balanced

theorem balanced_fold {records : List BillRecord}
    (balanced : Balanced attribution.bill held)
    (fits : held + (records.map (billedIn read)).sum ≤ u64Max)
    (meets : Machine.Meets (apply read) Fits attribution records) :
    Balanced (records.foldl (apply read) attribution).bill
      (held + (records.map (billedIn read)).sum) := by
  induction records generalizing attribution held with
  | nil => exact balanced
  | cons record records ih =>
    rw [map_cons, sum_cons, ← Nat.add_assoc] at fits ⊢
    exact ih (balanced_apply balanced record (by omega) meets.1) fits meets.2

theorem balanced_new : Balanced new.bill 0 := by
  constructor <;> simp [new, Bill.empty]

end Attribution

open Attribution in
/-- Every cut sums to what was billed while each priced call finds weights that fit 64 bits, and
weights split every bill exactly, under whatever names, just when their sum fits 64 bits. -/
theorem cuts_sum_to_bill (read : Json → Option CacheRenewed) (records : List BillRecord)
    (values : List Nat) :
    ((records.map (billedIn read)).sum < 2 ^ 64 →
      Machine.Meets (apply read) Fits new records →
      Balanced (fold read records).bill (records.map (billedIn read)).sum) ∧
    ((∀ value ∈ values, value < 2 ^ 64) →
      ((∀ (total : Nat) (weights : List (List Char × Nat)) (fallback : List Char), total < 2 ^ 64 →
          weights.map Prod.snd = values →
          Split.Exact total weights (Split.split total weights fallback)) ↔
        values.sum < 2 ^ 64)) := by
  have small : ∀ number : Nat, number < 2 ^ 64 ↔ number ≤ u64Max := by
    intro number
    rw [u64Max]
    omega
  simp only [small]
  constructor
  · intro fits meets
    have balanced := balanced_fold balanced_new (by omega) meets
    rwa [Nat.zero_add] at balanced
  · intro each
    constructor
    · intro exact_
      by_contra past
      have sums := (exact_ u64Max (Split.named values) [] (Nat.le_refl _)
        (map_snd_named values)).sums
      rw [sum_split_of_overflow each (by omega)] at sums
      omega
    · intro fits total weights fallback bounded same
      rw [← same] at fits
      exact split_exact bounded fits fallback

namespace Attribution

def someRun : RunId := ⟨⟨List.replicate 16 1, RunId.ones_sized⟩⟩

def lineOf (kind : BillKind) (run : RunId) (entries : List (String × Json)) : BillRecord :=
  { kind, run, who := "a".toList, addr := none, data := .obj entries }

/-- A prompt of two segments. -/
def promptOf (first second : Nat) : BillRecord :=
  lineOf .promptAssembled someRun
    [("segments", .arr [.obj [("slot", .str "x".toList), ("len", .num first)],
      .obj [("slot", .str "y".toList), ("len", .num second)]])]

/-- A call billed with an amount. -/
def callOf (run : RunId) (billed : Nat) : BillRecord :=
  lineOf .modelReturned run [("billed_usd_micros", .num billed)]

/-- A result of a tool. -/
def resultOf (run : RunId) (name : String) : BillRecord :=
  lineOf .toolResult run [("name", .str name.toList), ("bytes", .num 3)]

end Attribution

open Attribution in
/-- Two segments of 64-bit length have the bill of a call counted twice. -/
theorem overflow_splits_twice :
    ([promptOf (2 ^ 64 - 1) (2 ^ 64 - 1), callOf someRun 10].map
      (billedIn fun _ => none)).sum < 2 ^ 64 ∧
    (fold (fun _ => none) [promptOf (2 ^ 64 - 1) (2 ^ 64 - 1), callOf someRun 10]).bill.total = 10 ∧
    (fold (fun _ => none) [promptOf (2 ^ 64 - 1) (2 ^ 64 - 1),
      callOf someRun 10]).bill.bySegment.total = 20 := by
  decide +kernel

open Attribution in
theorem cuts_sum_to_bill_two_segments :
    Balanced (fold (fun _ => none)
      [promptOf 1 2, resultOf someRun "grep", callOf someRun 10, callOf someRun 5]).bill 15 ∧
    Split.Exact 10 [("x".toList, 1), ("y".toList, 2)]
      (Split.split 10 [("x".toList, 1), ("y".toList, 2)] noSegment) := by
  constructor
  · exact (cuts_sum_to_bill (fun _ => none)
      [promptOf 1 2, resultOf someRun "grep", callOf someRun 10, callOf someRun 5] []).1
      (by decide +kernel) (by decide +kernel)
  · exact ((cuts_sum_to_bill (fun _ => none) [] [1, 2]).2 (by decide)).mpr
      (by decide) 10 _ noSegment (by decide) rfl

/-- One thing a line writes into the bill. -/
inductive BillEntry where
  | run (bucket : List Char) (amount : Nat)
  | actor (bucket : List Char) (amount : Nat)
  | segment (bucket : List Char) (amount : Nat)
  | tool (bucket : List Char) (amount : Nat)
  | skill (bucket : List Char) (amount : Nat)
  | total (amount : Nat)
  | unpriced (data : Json)
  | renewal (outcome : RenewalOutcome)
  | renewed (amount : Nat)

theorem Buckets.add_right_comm (map : Buckets) (key other : List Char) (amount more : Nat) :
    (map.add key amount).add other more = (map.add other more).add key amount := by
  apply Std.ExtTreeMap.ext_getElem?
  intro asked
  simp only [get_add]
  by_cases first : key = asked
  · by_cases second : other = asked
    · simp only [first, second, if_true, Option.getD_some, saturatingAdd]
      congr 1
      omega
    · simp only [first, second, if_true, if_false]
  · by_cases second : other = asked
    · simp only [first, second, if_true, if_false]
    · simp only [first, second, if_false]

theorem saturatingAdd_right_comm (first second third : Nat) :
    saturatingAdd (saturatingAdd first second) third =
      saturatingAdd (saturatingAdd first third) second := by
  simp only [saturatingAdd]
  omega

theorem Unpriced.count_right_comm (unpriced : Unpriced) (first second : Json) :
    (unpriced.count first).count second = (unpriced.count second).count first := by
  simp only [Unpriced.count, saturatingAdd_right_comm]

theorem Renewals.count_right_comm (renewals : Renewals) (first second : RenewalOutcome) :
    (renewals.count first).count second = (renewals.count second).count first := by
  cases first <;> cases second <;> rfl

namespace Bill

def enter (bill : Bill) : BillEntry → Bill
  | .run bucket amount => { bill with byRun := bill.byRun.add bucket amount }
  | .actor bucket amount => { bill with byActor := bill.byActor.add bucket amount }
  | .segment bucket amount => { bill with bySegment := bill.bySegment.add bucket amount }
  | .tool bucket amount => { bill with byTool := bill.byTool.add bucket amount }
  | .skill bucket amount => { bill with bySkill := bill.bySkill.add bucket amount }
  | .total amount => { bill with total := saturatingAdd bill.total amount }
  | .unpriced data => { bill with unpriced := bill.unpriced.count data }
  | .renewal outcome => { bill with renewals := bill.renewals.count outcome }
  | .renewed amount =>
    { bill with
      renewals := { bill.renewals with billed := saturatingAdd bill.renewals.billed amount } }

def enterAll (bill : Bill) (entries : List BillEntry) : Bill := entries.foldl enter bill

variable (bill : Bill)

theorem enter_right_comm (first second : BillEntry) :
    (bill.enter first).enter second = (bill.enter second).enter first := by
  cases first <;> cases second <;> try rfl
  case run.run => rw [enter, enter, enter, enter, Buckets.add_right_comm]
  case actor.actor => rw [enter, enter, enter, enter, Buckets.add_right_comm]
  case segment.segment => rw [enter, enter, enter, enter, Buckets.add_right_comm]
  case tool.tool => rw [enter, enter, enter, enter, Buckets.add_right_comm]
  case skill.skill => rw [enter, enter, enter, enter, Buckets.add_right_comm]
  case total.total => rw [enter, enter, enter, enter, saturatingAdd_right_comm]
  case unpriced.unpriced => rw [enter, enter, enter, enter, Unpriced.count_right_comm]
  case renewal.renewal => rw [enter, enter, enter, enter, Renewals.count_right_comm]
  case renewal.renewed outcome amount => cases outcome <;> rfl
  case renewed.renewal amount outcome => cases outcome <;> rfl
  case renewed.renewed => rw [enter, enter, enter, enter, saturatingAdd_right_comm]

instance : RightCommutative enter := ⟨enter_right_comm⟩

theorem enterAll_perm {first second : List BillEntry} (perm : first.Perm second) (bill : Bill) :
    bill.enterAll first = bill.enterAll second := perm.foldl_eq bill

theorem enterAll_append (first second : List BillEntry) :
    bill.enterAll (first ++ second) = (bill.enterAll first).enterAll second :=
  foldl_append

variable (amounts : List (List Char × Nat))

theorem enterAll_segment :
    bill.enterAll (amounts.map fun entry => .segment entry.1 entry.2) =
      { bill with bySegment := bill.bySegment.addAll amounts } := by
  induction amounts generalizing bill with
  | nil => rfl
  | cons entry amounts ih => exact ih _

theorem enterAll_tool :
    bill.enterAll (amounts.map fun entry => .tool entry.1 entry.2) =
      { bill with byTool := bill.byTool.addAll amounts } := by
  induction amounts generalizing bill with
  | nil => rfl
  | cons entry amounts ih => exact ih _

theorem enterAll_skill :
    bill.enterAll (amounts.map fun entry => .skill entry.1 entry.2) =
      { bill with bySkill := bill.bySkill.addAll amounts } := by
  induction amounts generalizing bill with
  | nil => rfl
  | cons entry amounts ih => exact ih _

end Bill

namespace Attribution

variable {read : Json → Option CacheRenewed}

/-- The results of tools since the last call of a model. -/
def openWave (records : List BillRecord) : List BillRecord :=
  records.foldl (fun wave record =>
    match record.kind with
    | .modelReturned => []
    | .toolResult => wave ++ [record]
    | _ => wave) []

/-- The prompt shape of a run, from its own lines. -/
def shapeOf (own : List BillRecord) : List (List Char × Nat) :=
  own.foldl (fun shape record =>
    match record.kind with
    | .promptAssembled => Split.segmentWeights record.data
    | .runFrozen => []
    | _ => shape) []

def toolBasis (wave : List BillRecord) : Buckets :=
  addAll ∅ (wave.map fun record => (toolName record, toolBytes record))

def skillBasis (wave : List BillRecord) : Buckets :=
  addAll ∅ (wave.map fun record => (toolSkill record, toolBytes record))

/-- The lines before a line that are of its own run. -/
def ownBefore (before : List BillRecord) (run : RunId) : List BillRecord :=
  Interleaving.part BillRecord.run before run

/-- A model's call finds the tool results of its own run since that run's last call, and no
others. -/
def OwnWave (before : List BillRecord) (record : BillRecord) : Prop :=
  record.kind = .modelReturned → openWave before = openWave (ownBefore before record.run)

instance (before : List BillRecord) (record : BillRecord) : Decidable (OwnWave before record) :=
  inferInstanceAs (Decidable (_ → _))

/-- What a line enters into the bill, given its own run's lines before it. -/
def entriesOf (read : Json → Option CacheRenewed) (own : List BillRecord) (record : BillRecord) :
    List BillEntry :=
  match record.kind with
  | .cacheRenewed =>
    match read record.data with
    | none => [.renewal .unreported]
    | some line =>
      .renewal line.outcome ::
        match line with
        | .refused => []
        | .answered _ none => [.unpriced record.data]
        | .answered _ (some micros) =>
          [.total micros, .renewed micros,
            .actor ((record.addr.map (·.text)).getD record.who) micros,
            .run keepWarm micros, .segment keepWarm micros, .tool keepWarm micros,
            .skill keepWarm micros]
  | .modelReturned =>
    match billedOf record with
    | none => [.unpriced record.data]
    | some billed =>
      [.total billed, .run record.run.display billed, .actor record.who billed]
        ++ (Split.split billed (shapeOf own) noSegment).map (fun entry =>
          .segment entry.1 entry.2)
        ++ (Split.split billed (toolBasis (openWave own)).toList noTool).map (fun entry =>
          .tool entry.1 entry.2)
        ++ (Split.split billed (skillBasis (openWave own)).toList noSkill).map fun entry =>
          .skill entry.1 entry.2
  | .promptAssembled | .runFrozen | .toolResult | .silent => []

/-- The state of the fold, read off the lines: the wave of the whole ledger, and each run's shape. -/
structure Tracks (records : List BillRecord) (attribution : Attribution) : Prop where
  tools : attribution.toolWeights = toolBasis (openWave records)
  skills : attribution.skillWeights = skillBasis (openWave records)
  shapes : ∀ run, (attribution.segmentWeights[run]?).getD [] = shapeOf (ownBefore records run)

theorem tracks_new : Tracks [] new where
  tools := rfl
  skills := rfl
  shapes run := by
    rw [show new.segmentWeights = ∅ from rfl, Std.ExtTreeMap.getElem?_empty]
    rfl

theorem openWave_concat (records : List BillRecord) (record : BillRecord) :
    openWave (records ++ [record]) =
      match record.kind with
      | .modelReturned => []
      | .toolResult => openWave records ++ [record]
      | _ => openWave records := by
  rw [openWave, foldl_append]
  rfl

theorem shapeOf_concat (own : List BillRecord) (record : BillRecord) :
    shapeOf (own ++ [record]) =
      match record.kind with
      | .promptAssembled => Split.segmentWeights record.data
      | .runFrozen => []
      | _ => shapeOf own := by
  rw [shapeOf, foldl_append]
  rfl

theorem toolBasis_concat (wave : List BillRecord) (record : BillRecord) :
    toolBasis (wave ++ [record]) = (toolBasis wave).add (toolName record) (toolBytes record) := by
  simp [toolBasis, addAll]

theorem skillBasis_concat (wave : List BillRecord) (record : BillRecord) :
    skillBasis (wave ++ [record]) = (skillBasis wave).add (toolSkill record) (toolBytes record) := by
  simp [skillBasis, addAll]

theorem ownBefore_concat (before : List BillRecord) (record : BillRecord) (run : RunId) :
    ownBefore (before ++ [record]) run =
      if record.run = run then ownBefore before run ++ [record] else ownBefore before run := by
  rw [ownBefore, part_append]
  split
  · next same => simp [Interleaving.part, same, ownBefore]
  · next other => simp [Interleaving.part, other, ownBefore]

variable {record : BillRecord}

theorem shape_still {before : List BillRecord}
    (prompt : record.kind ≠ .promptAssembled) (frozen : record.kind ≠ .runFrozen) (run : RunId) :
    shapeOf (ownBefore (before ++ [record]) run) = shapeOf (ownBefore before run) := by
  rw [ownBefore_concat]
  split
  · rw [shapeOf_concat]
    split
    · contradiction
    · contradiction
    · rfl
  · rfl

variable {records : List BillRecord} {attribution : Attribution}

theorem tracks_apply (tracks : Tracks records attribution) (record : BillRecord) :
    Tracks (records ++ [record]) (attribution.apply read record) := by
  have wave := openWave_concat records record
  unfold apply
  cases kind : record.kind with
  | cacheRenewed =>
    rw [kind] at wave
    refine ⟨wave ▸ tracks.tools, wave ▸ tracks.skills, fun run => ?_⟩
    rw [shape_still (by simp [kind]) (by simp [kind])]
    exact tracks.shapes run
  | promptAssembled =>
    rw [kind] at wave
    refine ⟨wave ▸ tracks.tools, wave ▸ tracks.skills, fun run => ?_⟩
    simp only [OrdMap.get_insert, ownBefore_concat]
    by_cases same : record.run = run
    · rw [if_pos same, if_pos same, shapeOf_concat, kind]
      rfl
    · rw [if_neg same, if_neg same]
      exact tracks.shapes run
  | runFrozen =>
    rw [kind] at wave
    refine ⟨wave ▸ tracks.tools, wave ▸ tracks.skills, fun run => ?_⟩
    simp only [OrdMap.get_erase, ownBefore_concat]
    by_cases same : record.run = run
    · rw [if_pos same, if_pos same, shapeOf_concat, kind]
      rfl
    · rw [if_neg same, if_neg same]
      exact tracks.shapes run
  | toolResult =>
    rw [kind] at wave
    refine ⟨?_, ?_, fun run => ?_⟩
    · rw [wave, toolBasis_concat, ← tracks.tools]
    · rw [wave, skillBasis_concat, ← tracks.skills]
    · rw [shape_still (by simp [kind]) (by simp [kind])]
      exact tracks.shapes run
  | modelReturned =>
    rw [kind] at wave
    simp only
    split
    · refine ⟨wave ▸ rfl, wave ▸ rfl, fun run => ?_⟩
      rw [shape_still (by simp [kind]) (by simp [kind])]
      exact tracks.shapes run
    · refine ⟨wave ▸ rfl, wave ▸ rfl, fun run => ?_⟩
      rw [shape_still (by simp [kind]) (by simp [kind])]
      exact tracks.shapes run
  | silent =>
    rw [kind] at wave
    refine ⟨wave ▸ tracks.tools, wave ▸ tracks.skills, fun run => ?_⟩
    rw [shape_still (by simp [kind]) (by simp [kind])]
    exact tracks.shapes run

theorem bill_apply (tracks : Tracks records attribution) (own : OwnWave records record) :
    (attribution.apply read record).bill =
      attribution.bill.enterAll (entriesOf read (ownBefore records record.run) record) := by
  unfold apply entriesOf
  cases kind : record.kind with
  | cacheRenewed =>
    simp only [Bill.renewed]
    cases read record.data with
    | none => rfl
    | some line =>
      cases line with
      | refused => rfl
      | answered usage billed =>
        cases billed with
        | none => rfl
        | some micros => rfl
  | promptAssembled => rfl
  | runFrozen => rfl
  | toolResult => rfl
  | modelReturned =>
    have wave := own kind
    simp only
    cases billedOf record with
    | none => rfl
    | some billed =>
      simp only
      rw [Bill.enterAll_append, Bill.enterAll_append, Bill.enterAll_append,
        Bill.enterAll_segment, Bill.enterAll_tool, Bill.enterAll_skill, ← wave,
        ← tracks.tools, ← tracks.skills, ← tracks.shapes]
      rfl
  | silent => rfl

theorem bill_fold {before records : List BillRecord} {attribution : Attribution}
    (tracks : Tracks before attribution)
    (own : ∀ first record rest, records = first ++ record :: rest →
      OwnWave (before ++ first) record) :
    (records.foldl (apply read) attribution).bill = attribution.bill.enterAll
      ((annotate BillRecord.run before records).flatMap fun entry =>
        entriesOf read entry.1 entry.2) := by
  induction records generalizing before attribution with
  | nil => rfl
  | cons record records ih =>
    have here : OwnWave before record := by
      have first := own [] record records rfl
      rwa [append_nil] at first
    rw [foldl_cons, ih (tracks_apply tracks record), bill_apply tracks here,
      annotate, flatMap_cons, Bill.enterAll_append]
    · rfl
    · intro first other rest split
      rw [append_assoc]
      exact own (record :: first) other rest (by rw [split]; rfl)

end Attribution

open Attribution in
/-- Two interleavings of the same runs' lines are reported alike while every call of a model finds
its own run's open tool wave. -/
theorem report_ignores_neighbours (read : Json → Option CacheRenewed)
    (first second : List BillRecord)
    (parts : Interleaving.SameParts BillRecord.run first second)
    (ownFirst : Trace.Always OwnWave first) (ownSecond : Trace.Always OwnWave second) :
    (fold read first).report = (fold read second).report := by
  have one := @bill_fold read [] first new tracks_new ownFirst
  have other := @bill_fold read [] second new tracks_new ownSecond
  have perm := (annotate_perm parts).flatMap_right
    fun entry => entriesOf read entry.1 entry.2
  have same : (fold read first).bill = (fold read second).bill :=
    one.trans ((Bill.enterAll_perm perm _).trans other.symm)
  rw [report, report, same]

namespace Attribution

def otherRun : RunId := ⟨⟨List.replicate 16 2, rfl⟩⟩

def inTurn : List BillRecord := [resultOf someRun "grep", callOf someRun 10, callOf otherRun 20]

/-- The same lines, with the other run's call between the first run's tool and call. -/
def between : List BillRecord := [resultOf someRun "grep", callOf otherRun 20, callOf someRun 10]

def ahead : List BillRecord := [callOf otherRun 20, resultOf someRun "grep", callOf someRun 10]

theorem always_three {due : List BillRecord → BillRecord → Prop} {one two three : BillRecord}
    (first : due [] one) (second : due [one] two) (third : due [one, two] three) :
    Trace.Always due [one, two, three] := by
  have start : Trace.Always due ([] ++ [one]) := always_concat.mpr ⟨always_nil, first⟩
  have next : Trace.Always due ([one] ++ [two]) := always_concat.mpr ⟨start, second⟩
  exact always_concat.mpr ⟨next, third⟩

theorem sameParts_of_runs {first second : List BillRecord}
    (one : ownBefore first someRun = ownBefore second someRun)
    (other : ownBefore first otherRun = ownBefore second otherRun)
    (only : ∀ record ∈ first ++ second, record.run = someRun ∨ record.run = otherRun) :
    Interleaving.SameParts BillRecord.run first second := by
  intro run
  by_cases isOne : run = someRun
  · rw [isOne]
    exact one
  · by_cases isOther : run = otherRun
    · rw [isOther]
      exact other
    · have none_ : ∀ records : List BillRecord, (∀ record ∈ records, record ∈ first ++ second) →
          Interleaving.part BillRecord.run records run = [] := by
        intro records inside
        rw [Interleaving.part, filter_eq_nil_iff]
        intro record member found
        have same : record.run = run := by simpa using found
        rcases only record (inside record member) with named | named
        · exact isOne (same ▸ named)
        · exact isOther (same ▸ named)
      rw [none_ first fun _ member => mem_append_left _ member,
        none_ second fun _ member => mem_append_right _ member]

end Attribution

open Attribution in
example : (fold (fun _ => none) [resultOf someRun "grep", callOf someRun 10]).report.byTool =
    [("grep".toList, 10)] := by
  decide +kernel

open Attribution in
/-- Another run's call takes the bill of a tool that is not its own. -/
theorem neighbour_takes_tool_bill :
    Interleaving.SameParts BillRecord.run inTurn between ∧
    (fold (fun _ => none) inTurn).report.byTool = [("grep".toList, 10), ("no_tool".toList, 20)] ∧
    (fold (fun _ => none) between).report.byTool = [("grep".toList, 20), ("no_tool".toList, 10)] := by
  refine ⟨sameParts_of_runs ?_ ?_ ?_, ?_, ?_⟩
  all_goals decide +kernel

open Attribution in
theorem report_ignores_neighbours_ahead :
    (fold (fun _ => none) inTurn).report = (fold (fun _ => none) ahead).report := by
  apply report_ignores_neighbours
  · exact sameParts_of_runs (by decide +kernel) (by decide +kernel) (by decide +kernel)
  · exact always_three (by decide +kernel) (by decide +kernel) (by decide +kernel)
  · exact always_three (by decide +kernel) (by decide +kernel) (by decide +kernel)

end Sprawling
