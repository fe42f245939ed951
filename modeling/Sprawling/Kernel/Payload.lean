import Sprawling.Base.JsonTextRound
import Sprawling.Kernel.Error

/-! Ledger payloads: JSON objects without floats, nested no deeper than a reader of the line goes. -/

namespace Sprawling

open JsonText List Number

namespace EventLine

/-- The deepest nesting a payload may carry, its own object counted as the first level. -/
def payloadDepthMax : Nat := 126

/-- The level a container sits at when `above` containers hold it. -/
def opened (above : Nat) : Except AxError Nat :=
  if above + 1 ≤ payloadDepthMax then .ok (above + 1)
  else
    .error (.failure .invalidArgs "build payload" s!"nesting deeper than {payloadDepthMax} levels"
      ("store the body in CAS and carry its locator in the payload; the ledger reader cannot "
        ++ "parse this depth back"))

def floatRefused (number : Number) : AxError :=
  .failure .invalidArgs "build payload" (String.ofList number.write)
    "ledger payloads never carry floats; scale to integers"

/-- What a container holds, in the order it is taken up: from its end. -/
def beneath (values : List Value) (level : Nat) : List (Value × Nat) :=
  (values.map fun value => (value, level)).reverse

def unwalked (pending : List (Value × Nat)) : Nat := (pending.map fun entry => entry.1.nodes).sum

theorem unwalked_cons (entry : Value × Nat) (pending : List (Value × Nat)) :
    unwalked (entry :: pending) = entry.1.nodes + unwalked pending := rfl

theorem unwalked_beneath (values : List Value) (level : Nat) (pending : List (Value × Nat)) :
    unwalked (beneath values level ++ pending) = (values.map Value.nodes).sum + unwalked pending := by
  simp only [unwalked, beneath, map_append, sum_append, map_reverse, sum_reverse,
    map_map, Function.comp_def]

/-- The walk over the values that are pending, each with how many containers hold it. A container is
judged before anything in it. -/
def walk : List (Value × Nat) → Except AxError Unit
  | [] => .ok ()
  | (.number number, _) :: pending =>
    if !number.isI64 && !number.isU64 then .error (floatRefused number) else walk pending
  | (.array items, above) :: pending => do
      let level ← opened above
      walk (beneath items level ++ pending)
  | (.object inner, above) :: pending => do
      let level ← opened above
      walk (beneath (valuesOf inner) level ++ pending)
  | (.null, _) :: pending => walk pending
  | (.bool _, _) :: pending => walk pending
  | (.string _, _) :: pending => walk pending
termination_by pending => unwalked pending
decreasing_by
  · exact Nat.lt_add_of_pos_left (Value.nodes_pos _)
  · rw [unwalked_beneath, unwalked_cons, Value.nodes, nodesItems_eq]
    omega
  · rw [unwalked_beneath, unwalked_cons, Value.nodes, nodesEntries_eq]
    omega
  all_goals exact Nat.lt_add_of_pos_left (Value.nodes_pos _)

/-- Refuses a float anywhere in an object, and containers nested past the deepest. -/
def rejectFloatsAndDepth (map : List (List Char × Value)) : Except AxError Unit :=
  walk (beneath (valuesOf map) 1)

/-- A ledger payload: a JSON object, its keys in order, that was accepted. -/
structure Payload where
  entries : List (List Char × Value)
  ordered : (Value.object entries).Ordered
  accepted : rejectFloatsAndDepth entries = .ok ()

namespace Payload

theorem ext_entries {first second : Payload} (same : first.entries = second.entries) :
    first = second := by
  cases first
  cases second
  cases same
  rfl

/-- Sole constructor. -/
def new (entries : List (List Char × Value)) (ordered : (Value.object entries).Ordered) :
    Except AxError Payload :=
  match judged : rejectFloatsAndDepth entries with
  | .ok () => .ok ⟨entries, ordered, judged⟩
  | .error refused => .error refused

end Payload

section Walk

theorem whole_number (number : Number) :
    (Value.number number).whole = !(!number.isI64 && !number.isU64) := by
  cases number with
  | posInt value fits => simp [Value.whole, isFloat, isU64]
  | negInt magnitude fits => simp [Value.whole, isFloat, isI64]
  | float literal => rfl

/-- What the walk asks of a pending value: no float, and room for what it nests. -/
def Accepts (entry : Value × Nat) : Prop :=
  entry.1.whole = true ∧ entry.2 + entry.1.depth ≤ payloadDepthMax

variable {above : Nat}

theorem accepts_array {items : List Value} :
    Accepts (.array items, above) ↔
      above + 1 ≤ payloadDepthMax ∧ ∀ item ∈ items, Accepts (item, above + 1) := by
  have depth : above + (depthItems items + 1) ≤ payloadDepthMax ↔ above + 1 ≤ payloadDepthMax ∧
      ∀ item ∈ items, item.depth ≤ payloadDepthMax - (above + 1) := by
    rw [← depthItems_le]
    omega
  simp only [Accepts, Value.whole, Value.depth, wholeItems_iff, depth]
  constructor
  · rintro ⟨whole, room, deep⟩
    exact ⟨room, fun item member => ⟨whole item member, by have := deep item member; omega⟩⟩
  · rintro ⟨room, each⟩
    exact ⟨fun item member => (each item member).1, room, fun item member => by
      have := (each item member).2
      omega⟩

/-- An object is accepted as the array of its values is. -/
theorem accepts_object {entries : List (List Char × Value)} :
    Accepts (.object entries, above) ↔ Accepts (.array (valuesOf entries), above) := by
  have whole : wholeEntries entries = wholeItems (valuesOf entries) := by
    induction entries with
    | nil => rfl
    | cons entry entries ih => exact congrArg (entry.2.whole && ·) ih
  have deep : depthEntries entries = depthItems (valuesOf entries) := by
    clear whole
    induction entries with
    | nil => rfl
    | cons entry entries ih => exact congrArg (max entry.2.depth) ih
  simp only [Accepts, Value.whole, Value.depth, deep, whole]

theorem accepts_scalar {value : Value} (flat : value.depth = 0) (whole : value.whole = true)
    (low : above ≤ payloadDepthMax) : Accepts (value, above) :=
  ⟨whole, by rw [flat]; exact low⟩

theorem forall_beneath {values : List Value} {level : Nat} :
    (∀ entry ∈ beneath values level, Accepts entry) ↔ ∀ value ∈ values, Accepts (value, level) := by
  simp [beneath]

theorem walk_ok (pending : List (Value × Nat)) : (∀ entry ∈ pending, entry.2 ≤ payloadDepthMax) →
    (walk pending = .ok () ↔ ∀ entry ∈ pending, Accepts entry) := by
  have beneath_le : ∀ {values : List Value} {level : Nat}, level ≤ payloadDepthMax →
      ∀ entry ∈ beneath values level, entry.2 ≤ payloadDepthMax := by
    intro values level low entry member
    obtain ⟨value, -, rfl⟩ := mem_map.mp (mem_reverse.mp member)
    exact low
  have scalar : ∀ {value : Value} {above : Nat} {rest : List (Value × Nat)},
      value.depth = 0 → value.whole = true →
      (∀ entry ∈ (value, above) :: rest, entry.2 ≤ payloadDepthMax) →
      ((∀ entry ∈ rest, Accepts entry) ↔ ∀ entry ∈ (value, above) :: rest, Accepts entry) := by
    intro value above rest flat whole low
    rw [forall_mem_cons]
    exact (and_iff_right (accepts_scalar flat whole (low _ mem_cons_self))).symm
  have container : ∀ {values : List Value} {above : Nat} {pending : List (Value × Nat)}
      {head : Value × Nat},
      (∀ level, (∀ entry ∈ beneath values level ++ pending, entry.2 ≤ payloadDepthMax) →
        (walk (beneath values level ++ pending) = .ok () ↔
          ∀ entry ∈ beneath values level ++ pending, Accepts entry)) →
      (∀ entry ∈ head :: pending, entry.2 ≤ payloadDepthMax) →
      ((opened above >>= fun level => walk (beneath values level ++ pending)) = .ok () ↔
        Accepts (.array values, above) ∧ ∀ entry ∈ pending, Accepts entry) := by
    intro values above pending head ih low
    rw [accepts_array]
    by_cases room : above + 1 ≤ payloadDepthMax
    · have level : opened above = .ok (above + 1) := if_pos room
      have within := ih (above + 1) fun entry member =>
        (mem_append.mp member).elim (beneath_le room entry)
          fun later => low entry (mem_cons_of_mem _ later)
      rw [level]
      refine within.trans ?_
      rw [forall_mem_append, forall_beneath]
      exact ⟨fun both => ⟨⟨room, both.1⟩, both.2⟩, fun both => ⟨both.1.2, both.2⟩⟩
    · obtain ⟨refusal, level⟩ : ∃ refusal, opened above = .error refusal := ⟨_, if_neg room⟩
      rw [level]
      exact ⟨(fun impossible => by cases impossible), fun both => absurd both.1.1 room⟩
  induction pending using walk.induct with
  | case1 => simp [walk]
  | case2 number above pending float =>
    intro low
    rw [walk, if_pos float, forall_mem_cons, Accepts, whole_number, float]
    simp
  | case3 number above pending whole ih =>
    intro low
    rw [walk, if_neg whole, ih fun entry member => low entry (mem_cons_of_mem _ member)]
    exact scalar rfl (by rw [whole_number, eq_false_of_ne_true whole]; rfl) low
  | case4 items above pending ih =>
    intro low
    rw [walk, forall_mem_cons]
    exact container ih low
  | case5 inner above pending ih =>
    intro low
    rw [walk, forall_mem_cons, accepts_object]
    exact container ih low
  | case6 above pending ih =>
    intro low
    rw [walk, ih fun entry member => low entry (mem_cons_of_mem _ member)]
    exact scalar rfl rfl low
  | case7 flag above pending ih =>
    intro low
    rw [walk, ih fun entry member => low entry (mem_cons_of_mem _ member)]
    exact scalar rfl rfl low
  | case8 text above pending ih =>
    intro low
    rw [walk, ih fun entry member => low entry (mem_cons_of_mem _ member)]
    exact scalar rfl rfl low

/-- An object is accepted exactly when it is nested no deeper than the limit and has no float. -/
theorem reject_ok (entries : List (List Char × Value)) :
    rejectFloatsAndDepth entries = .ok () ↔
      (Value.object entries).depth ≤ payloadDepthMax ∧ (Value.object entries).whole = true := by
  have low : ∀ entry ∈ beneath (valuesOf entries) 1, entry.2 ≤ payloadDepthMax := by
    intro entry member
    obtain ⟨value, -, rfl⟩ := mem_map.mp (mem_reverse.mp member)
    exact (by decide : 1 ≤ payloadDepthMax)
  have whole := (@accepts_object 0 entries).trans accepts_array
  rw [rejectFloatsAndDepth, walk_ok _ low, forall_beneath]
  rw [Accepts, Nat.zero_add, Nat.zero_add] at whole
  constructor
  · intro each
    have both := whole.mpr ⟨by decide, each⟩
    exact ⟨both.2, both.1⟩
  · exact fun both => (whole.mp ⟨both.2, both.1⟩).2

end Walk

namespace Payload

theorem depth_le (payload : Payload) : (Value.object payload.entries).depth ≤ payloadDepthMax :=
  ((reject_ok payload.entries).mp payload.accepted).1

theorem whole (payload : Payload) : (Value.object payload.entries).whole = true :=
  ((reject_ok payload.entries).mp payload.accepted).2

end Payload

end EventLine

end Sprawling
