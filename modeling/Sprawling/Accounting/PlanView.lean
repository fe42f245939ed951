import Sprawling.Kernel.EventKind
import Sprawling.Kernel.Plan.Blockage
import Sprawling.Kernel.Plan.Progress
import Sprawling.Kernel.Spine.Rewrite

/-! Every building's plan, parsed once and re-parsed when a record could have moved it. The disk is
what `city::roadmap` answers for each building: the text, or the refusal to open it. -/

namespace Sprawling

namespace StopCause

/-- The text of the one field of a variant written as an object or as a list. -/
def field (name : String) : Json → Option Json
  | .obj entries => entries.lookup name
  | .arr [value] => some value
  | _ => none

def u32 (value : Json) : Option UInt32 :=
  value.asU64.bind fun n => if n < u32Bound then some (UInt32.ofNat n) else none

/-- A cause as serde writes it: a word, or an object of one variant. -/
def fromValue : Json → Option StopCause
  | .str word => if word = "froze_without_evidence".toList then some .frozeWithoutEvidence else none
  | .obj [(variant, body)] =>
    match variant with
    | "blocked" =>
      ((field "note" body).bind Json.asStr).map fun note => .blocked (String.ofList note)
    | "handed_back" =>
      ((field "note" body).bind Json.asStr).map fun note => .handedBack (String.ofList note)
    | "froze_without_evidence" => if body = .null then some .frozeWithoutEvidence else none
    | "stalled" => ((field "repeats" body).bind u32).map .stalled
    | "gate_overdue" =>
      ((field "waited_ms" body).bind Json.asU64).map fun ms => .gateOverdue (UInt64.ofNat ms)
    | _ => none
  | _ => none

end StopCause

namespace PlanView

/-- How far one record reaches into what the view holds. -/
inductive PlanReach where
  | untouched
  | stale
  | nodeFreed
  | nodeStopped
deriving DecidableEq

/-- Which records can move a plan. -/
def mayMovePlan : EventKind → PlanReach
  | .roadmapFinished | .roadmapReleased => .nodeFreed
  | .roadmapBlocked => .nodeStopped
  | .cityInitialized | .buildingCreated | .checkpointCommitted | .runFrozen | .roadmapClaimed
  | .roadmapSplit | .spineDocumentWritten => .stale
  | _ => .untouched

/-- The building an address belongs to: its first segment. -/
def buildingOf (addr : Address) : Option Address :=
  ((addr.text.splitOn '/').head?).bind fun head => (Address.parse head).toOption

def nodeOf (line : LedgerLine) : Option NodeId :=
  ((line.data.lookup "node").bind Json.asStr).bind fun text => (NodeId.parse text).toOption

def causeOf (line : LedgerLine) : Option StopCause := (line.data.lookup "why").bind
  StopCause.fromValue

/-- What one building's plan came to when it was last read. -/
inductive Reading where
  | tree (tree : PlanTree)
  | unreadable (problems : List String)

/-- Where the fold stood on one building's plan when a reader asked for it. -/
structure Generation where
  all : UInt64
  one : UInt64
deriving DecidableEq

/-- A plan read off the disk with the cache released, waiting to be put back. -/
structure FreshPlan where
  addr : Address
  askedAt : Generation
  reading : Reading

abbrev Causes := OrdMap NodeId StopCause

structure UnplannedProgress where
  steps : UInt32
  usd : UInt64
  tokens : UInt64

inductive Progress where
  | planned (progress : PlannedProgress)
  | unplanned (progress : UnplannedProgress)

/-- One node of a building's plan, flattened for a renderer. -/
structure PlanRow where
  node : NodeId
  item : List Char
  status : RoadmapStatus
  sharePpb : Nat
  needs : List NodeId
  ready : Bool
  leaf : Bool
  evidence : Option (List Char)

structure BlockedLine where
  source : NodeId
  line : String
  waiting : UInt32

/-- What a page is told about one building's plan. -/
structure PlanReading where
  progress : Progress
  problems : List String
  rows : List PlanRow
  blocked : List BlockedLine
  ready : List NodeId

/-- One building's plan file, parsed. -/
def readPlan : Except AxError (List Char) → Reading
  | .error err => .unreadable [err.display]
  | .ok text =>
    match Spine.checkRoadmapShape text with
    | .wellFormed rows =>
      match PlanTree.build rows with
      | .ok tree => .tree tree
      | .error refusal => .unreadable [refusal.display]
    | .malformed problems => .unreadable problems

/-- The red nodes of one building, and how far each one reaches. A node the table calls blocked
with no record behind it is red too, and the sentence is then the status word. -/
def blockages (tree : PlanTree) (known : Option Causes) : List Blockage :=
  let red := ((tree.nodes.toList.map Prod.snd).filter fun node =>
      node.row.status == .blocked || node.row.status == .awaitingApproval).map fun node =>
    { node := node.row.id
      why := (known.bind fun held => held[node.row.id]?).getD
        (.blocked s!"the plan says `{String.ofList node.row.status.spelling}`") : RedNode }
  Blockage.spread tree red

def describeTree (tree : PlanTree) (causes : Option Causes) : PlanReading :=
  let ready := tree.ready
  { progress := .planned tree.progress
    problems := []
    rows := (tree.nodes.toList.map Prod.snd).map fun node =>
      { node := node.row.id
        item := node.row.item
        status := node.row.status
        sharePpb := node.share.ppb
        needs := node.row.needs
        ready := ready.contains node.row.id
        leaf := node.isLeaf
        evidence := match node.row.evidence with
          | .present locator => some locator.display
          | .empty | .invalid _ => none }
    blocked := (blockages tree causes).map fun blockage =>
      { source := blockage.source
        line := blockage.line
        waiting := UInt32.ofNat (min blockage.reaches.length (u32Bound - 1)) }
    ready }

/-- What a page is told about one reading, given why its red nodes are red. -/
def describe (reading : Reading) (causes : Option Causes) : PlanReading :=
  match reading with
  | .tree tree => describeTree tree causes
  | .unreadable problems =>
    { progress := .unplanned { steps := 0, usd := 0, tokens := 0 }
      problems
      rows := []
      blocked := []
      ready := [] }

end PlanView

/-- The plans of a city. -/
structure PlanView where
  read : OrdMap Address PlanView.Reading
  /-- Why each red node is red, folded from the records that said so. -/
  causes : OrdMap Address PlanView.Causes
  /-- How many records may have moved each building's plan. -/
  moved : OrdMap Address UInt64
  /-- How many records with no address may have moved every plan. -/
  movedAll : UInt64

namespace PlanView

def generationsHeld : Nat := 1024

def new : PlanView := { read := ∅, causes := ∅, moved := ∅, movedAll := 0 }

/-- Folds every building's generation into the city-wide one. -/
def forgetGenerations (view : PlanView) : PlanView :=
  { view with moved := ∅, movedAll := view.movedAll + 1 }

def generation (view : PlanView) (addr : Address) : Generation :=
  { all := view.movedAll, one := (view.moved[addr]?).getD 0 }

/-- Counts one record that may have moved a building's plan. The counts wrap. -/
def countMove (view : PlanView) (building : Address) : PlanView :=
  let view :=
    if view.moved.size ≥ generationsHeld ∧ building ∉ view.moved then view.forgetGenerations
    else view
  { view with moved := view.moved.insert building ((view.moved[building]?).getD 0 + 1) }

/-- Drops the parsed copy of one building's plan. -/
def drop (view : PlanView) (building : Address) : PlanView :=
  { view with read := view.read.erase building }

/-- Rewrites why one building's red nodes are red. -/
def setCauses (view : PlanView) (building : Address) (change : Causes → Causes) : PlanView :=
  { view with
    causes := view.causes.insert building (change ((view.causes[building]?).getD ∅)) }

/-- Folds one record. -/
def apply (view : PlanView) (line : LedgerLine) : PlanView :=
  let reach := mayMovePlan line.kind
  match line.addr.bind buildingOf with
  | none =>
    -- A record with no address could belong to any building.
    if reach ≠ .untouched then { view with read := ∅, movedAll := view.movedAll + 1 } else view
  | some building =>
    match reach with
    | .untouched => view
    | .stale => (view.countMove building).drop building
    | .nodeFreed =>
      let view := (view.countMove building).drop building
      match nodeOf line with
      | some node => view.setCauses building fun held => held.erase node
      | none => view
    | .nodeStopped =>
      let view := (view.countMove building).drop building
      match nodeOf line, causeOf line with
      | some node, some why => view.setCauses building fun held => held.insert node why
      | _, _ => view

/-- One building's plan as `ask` left it for after the lock. -/
inductive PlanAsk where
  | held (reading : PlanReading)
  | unread (causes : Causes) (askedAt : Generation)

/-- What the cache holds of one building's plan, without reading the disk. -/
def ask (view : PlanView) (addr : Address) : PlanAsk :=
  match view.read[addr]? with
  | some reading => .held (describe reading view.causes[addr]?)
  | none => .unread ((view.causes[addr]?).getD ∅) (view.generation addr)

/-- Puts back a plan read with the cache released, unless a record folded since it was asked for
may have moved it. -/
def remember (view : PlanView) (fresh : FreshPlan) : PlanView :=
  if view.generation fresh.addr = fresh.askedAt then
    { view with read := view.read.insert fresh.addr fresh.reading }
  else view

/-- What `city::roadmap` answers for each building. -/
abbrev Disk := Address → Except AxError (List Char)

/-- The plan, reading the file when the cache did not hold it, and what was read. -/
def PlanAsk.read (ask : PlanAsk) (disk : Disk) (addr : Address) :
    PlanReading × Option FreshPlan :=
  match ask with
  | .held reading => (reading, none)
  | .unread causes askedAt =>
    let reading := readPlan (disk addr)
    (describe reading (some causes), some { addr, askedAt, reading })

/-- Every named building's plan: asked for under the lock, read with it released, and put back
under it again. -/
def plansOf (view : PlanView) (disk : Disk) (addrs : List Address) :
    List (Address × PlanReading) × PlanView :=
  let reads := addrs.map fun addr => (addr, (view.ask addr).read disk addr)
  (reads.map fun entry => (entry.1, entry.2.1),
    (reads.filterMap fun entry => entry.2.2).foldl remember view)

theorem describe_empty (reading : Reading) : describe reading (some ∅) = describe reading none := by
  cases reading with
  | unreadable problems => rfl
  | tree tree =>
    have same : blockages tree (some ∅) = blockages tree none := by simp [blockages]
    show describeTree tree (some ∅) = describeTree tree none
    rw [describeTree, describeTree, same]

theorem read_ask (view : PlanView) (disk : Disk) (addr : Address) :
    ((view.ask addr).read disk addr).1 =
      describe ((view.read[addr]?).getD (readPlan (disk addr))) view.causes[addr]? := by
  unfold ask
  cases cached : view.read[addr]? with
  | some reading => rfl
  | none =>
    cases known : view.causes[addr]? with
    | some causes => rfl
    | none => exact describe_empty (readPlan (disk addr))

variable {view : PlanView} {addr : Address}

theorem ask_eq_unread {causes : Causes} {askedAt : Generation}
    (asked : view.ask addr = .unread causes askedAt) : askedAt = view.generation addr := by
  unfold ask at asked
  split at asked
  · cases asked
  · cases asked
    rfl

theorem counts_remember (view : PlanView) (fresh : List FreshPlan) :
    (fresh.foldl remember view).moved = view.moved ∧
      (fresh.foldl remember view).movedAll = view.movedAll := by
  induction fresh generalizing view with
  | nil => exact ⟨rfl, rfl⟩
  | cons first rest ih =>
    obtain ⟨moved, movedAll⟩ := ih (view.remember first)
    rw [List.foldl_cons, moved, movedAll]
    unfold remember
    split <;> exact ⟨rfl, rfl⟩

theorem generation_remember (view : PlanView) (fresh : List FreshPlan) (addr : Address) :
    (fresh.foldl remember view).generation addr = view.generation addr := by
  obtain ⟨moved, movedAll⟩ := counts_remember view fresh
  rw [generation, generation, moved, movedAll]

/-- A copy the view holds after readings are put back was there before, or is one of them. -/
theorem read_remember {fresh : List FreshPlan} {reading : Reading}
    (held : (fresh.foldl remember view).read[addr]? = some reading) :
    view.read[addr]? = some reading ∨
      ∃ one ∈ fresh, one.addr = addr ∧ one.askedAt = view.generation addr ∧
        one.reading = reading := by
  induction fresh generalizing view with
  | nil => exact .inl held
  | cons first rest ih =>
    rw [List.foldl_cons] at held
    rcases ih held with before | ⟨one, member, named, asked, same⟩
    · unfold remember at before
      split at before
      · next current =>
          rw [OrdMap.get_insert] at before
          by_cases here : first.addr = addr
          · rw [if_pos here] at before
            refine .inr ⟨first, List.mem_cons_self, here, ?_, Option.some.inj before⟩
            rw [← here]
            exact current.symm
          · rw [if_neg here] at before
            exact .inl before
      · exact .inl before
    · have asked : one.askedAt = view.generation addr :=
        asked.trans (generation_remember view [first] addr)
      exact .inr ⟨one, List.mem_cons_of_mem _ member, named, asked, same⟩

theorem fresh_ask {ask : PlanAsk} {disk : Disk} {fresh : FreshPlan}
    (read : (ask.read disk addr).2 = some fresh) :
    fresh.addr = addr ∧ fresh.reading = readPlan (disk addr) ∧
      ∃ causes, ask = .unread causes fresh.askedAt := by
  cases ask with
  | held reading => cases read
  | unread causes askedAt =>
    cases read
    exact ⟨rfl, rfl, causes, rfl⟩

/-- A record makes the parsed copy of a building's plan suspect. -/
def Reaches (line : LedgerLine) (building : Address) : Prop :=
  mayMovePlan line.kind ≠ .untouched ∧
    (line.addr.bind buildingOf = none ∨ line.addr.bind buildingOf = some building)

instance (line : LedgerLine) (building : Address) : Decidable (Reaches line building) :=
  inferInstanceAs (Decidable (_ ∧ _))

theorem Reaches.eq_of_named {line : LedgerLine} {building other : Address}
    (reached : Reaches line building) (named : line.addr.bind buildingOf = some other) :
    other = building := by
  rcases reached.2 with unnamed | found
  · rw [named] at unnamed
    cases unnamed
  · rw [named] at found
    exact Option.some.inj found

theorem apply_cases (view : PlanView) (line : LedgerLine) :
    (mayMovePlan line.kind = .untouched ∧ view.apply line = view) ∨
    (mayMovePlan line.kind ≠ .untouched ∧ line.addr.bind buildingOf = none ∧
      view.apply line = { view with read := ∅, movedAll := view.movedAll + 1 }) ∨
    ∃ building, mayMovePlan line.kind ≠ .untouched ∧ line.addr.bind buildingOf = some building ∧
      (view.apply line).read = view.read.erase building ∧
      (view.apply line).moved = (view.countMove building).moved ∧
      (view.apply line).movedAll = (view.countMove building).movedAll := by
  have read_countMove (building : Address) : (view.countMove building).read = view.read := by
    unfold countMove forgetGenerations
    split <;> rfl
  unfold apply
  cases named : line.addr.bind buildingOf with
  | none =>
    by_cases still : mayMovePlan line.kind = .untouched
    · exact .inl ⟨still, by simp [still]⟩
    · exact .inr (.inl ⟨still, rfl, by simp [still]⟩)
  | some building =>
    cases reach : mayMovePlan line.kind with
    | untouched => exact .inl ⟨rfl, rfl⟩
    | stale =>
      refine .inr (.inr ⟨building, by simp, rfl, ?_, rfl, rfl⟩)
      exact congrArg (fun held => held.erase building) (read_countMove building)
    | nodeFreed =>
      refine .inr (.inr ⟨building, by simp, rfl, ?_, ?_, ?_⟩)
      · cases nodeOf line <;>
          exact congrArg (fun held => held.erase building) (read_countMove building)
      · cases nodeOf line <;> rfl
      · cases nodeOf line <;> rfl
    | nodeStopped =>
      refine .inr (.inr ⟨building, by simp, rfl, ?_, ?_, ?_⟩)
      · cases nodeOf line <;> cases causeOf line <;>
          exact congrArg (fun held => held.erase building) (read_countMove building)
      · cases nodeOf line <;> cases causeOf line <;> rfl
      · cases nodeOf line <;> cases causeOf line <;> rfl

theorem read_apply (view : PlanView) (line : LedgerLine) (building : Address) :
    (view.apply line).read[building]? =
      if Reaches line building then none else view.read[building]? := by
  rcases apply_cases view line with ⟨still, same⟩ | ⟨moves, unnamed, same⟩
      | ⟨other, moves, named, same, -, -⟩
  · rw [same, if_neg fun reached => reached.1 still]
  · rw [same, if_pos ⟨moves, .inl unnamed⟩]
    simp
  · rw [same, OrdMap.get_erase]
    by_cases here : other = building
    · rw [if_pos here, if_pos ⟨moves, .inr (here ▸ named)⟩]
    · rw [if_neg here, if_neg fun reached => here (reached.eq_of_named named)]

namespace Generation

/-- The later of two counts of one building's plan, the city-wide count first. -/
def Before (first second : Generation) : Prop :=
  first.all.toNat < second.all.toNat ∨
    first.all = second.all ∧ first.one.toNat < second.one.toNat

theorem Before.ne {first second : Generation} (before : first.Before second) : first ≠ second := by
  intro same
  rw [same] at before
  unfold Before at before
  omega

theorem Before.trans {first second third : Generation} (one : first.Before second)
    (two : second.Before third) : first.Before third := by
  unfold Before at one two ⊢
  rcases one with less | ⟨same, less⟩ <;> rcases two with more | ⟨equal, more⟩
  · omega
  · rw [← equal]
    omega
  · rw [same]
    omega
  · exact .inr ⟨same.trans equal, by omega⟩

end Generation

/-- No count of the view is above `bound`. -/
structure Within (bound : Nat) (view : PlanView) : Prop where
  all : view.movedAll.toNat ≤ bound
  one : ∀ (building : Address) (count : UInt64), view.moved[building]? = some count →
    count.toNat ≤ bound

variable {bound : Nat}

theorem toNat_succ {count : UInt64} (small : count.toNat ≤ bound) (room : bound + 1 < 2 ^ 64) :
    (count + 1).toNat = count.toNat + 1 := by
  have one : (1 : UInt64).toNat = 1 := rfl
  rw [UInt64.toNat_add, one]
  omega

theorem Within.getD (within : Within bound view) (building : Address) :
    ((view.moved[building]?).getD 0).toNat ≤ bound := by
  cases held : view.moved[building]? with
  | none => exact Nat.zero_le _
  | some count => exact within.one building count held

theorem countMove_cases (view : PlanView) (building : Address) :
    ((view.countMove building).movedAll = view.movedAll ∧
      ∀ other : Address, (view.countMove building).moved[other]? =
        if building = other then some ((view.moved[building]?).getD 0 + 1)
        else view.moved[other]?) ∨
    ((view.countMove building).movedAll = view.movedAll + 1 ∧
      ∀ other : Address, (view.countMove building).moved[other]? =
        if building = other then some 1 else none) := by
  unfold countMove
  split
  · refine .inr ⟨rfl, ?_⟩
    intro other
    simp [forgetGenerations]
  · refine .inl ⟨rfl, ?_⟩
    intro other
    simp

/-- Folding one record raises no count by more than one. -/
theorem Within.apply (within : Within bound view) (room : bound + 1 < 2 ^ 64) (line : LedgerLine) :
    Within (bound + 1) (view.apply line) := by
  have more : (view.movedAll + 1).toNat ≤ bound + 1 := by
    have small := within.all
    have step := toNat_succ small room
    omega
  rcases apply_cases view line with ⟨-, same⟩ | ⟨-, -, same⟩
      | ⟨building, -, -, -, moved, movedAll⟩
  · rw [same]
    exact ⟨Nat.le_succ_of_le within.all,
      fun other count held => Nat.le_succ_of_le (within.one other count held)⟩
  · rw [same]
    exact ⟨more, fun other count held => Nat.le_succ_of_le (within.one other count held)⟩
  · rcases countMove_cases view building with ⟨all, counts⟩ | ⟨all, counts⟩
    · refine ⟨by rw [movedAll, all]; exact Nat.le_succ_of_le within.all, ?_⟩
      intro other count held
      rw [moved, counts] at held
      by_cases here : building = other
      · rw [if_pos here] at held
        cases held
        have small := within.getD building
        have step := toNat_succ small room
        omega
      · rw [if_neg here] at held
        exact Nat.le_succ_of_le (within.one other count held)
    · refine ⟨by rw [movedAll, all]; exact more, ?_⟩
      intro other count held
      rw [moved, counts] at held
      by_cases here : building = other
      · rw [if_pos here] at held
        cases held
        show (1 : UInt64).toNat ≤ bound + 1
        have one : (1 : UInt64).toNat = 1 := rfl
        omega
      · rw [if_neg here] at held
        cases held

/-- The counts only go up, and a record that reaches a building raises its own. -/
theorem generation_apply (within : Within bound view) (room : bound + 1 < 2 ^ 64)
    (line : LedgerLine) (building : Address) :
    (view.generation building).Before ((view.apply line).generation building) ∨
      ¬ Reaches line building ∧
        (view.apply line).generation building = view.generation building := by
  have more := toNat_succ within.all room
  rcases apply_cases view line with ⟨still, same⟩ | ⟨-, -, same⟩
      | ⟨other, -, named, -, moved, movedAll⟩
  · exact .inr ⟨fun reached => reached.1 still, by rw [same]⟩
  · refine .inl (.inl ?_)
    show view.movedAll.toNat < (view.apply line).movedAll.toNat
    rw [same]
    show view.movedAll.toNat < (view.movedAll + 1).toNat
    omega
  · rcases countMove_cases view other with ⟨all, counts⟩ | ⟨all, counts⟩
    · by_cases here : other = building
      · refine .inl (.inr ⟨by rw [generation, generation, movedAll, all], ?_⟩)
        show ((view.moved[building]?).getD 0).toNat <
          (((view.apply line).moved[building]?).getD 0).toNat
        rw [moved, counts, if_pos here, here, Option.getD_some]
        have step := toNat_succ (within.getD building) room
        omega
      · refine .inr ⟨fun reached => here (reached.eq_of_named named), ?_⟩
        rw [generation, generation, movedAll, all, moved, counts, if_neg here]
    · refine .inl (.inl ?_)
      show view.movedAll.toNat < (view.apply line).movedAll.toNat
      rw [movedAll, all]
      omega

end PlanView

end Sprawling
