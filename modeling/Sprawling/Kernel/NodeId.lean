import Sprawling.Base.OrdMap
import Sprawling.Base.Text
import Sprawling.Kernel.Error

namespace Sprawling

open List Text

def nodeDepthMax : Nat := 10

def u32Bound : Nat := 2 ^ 32

namespace NodeId

/-- The clause one segment of an index breaks, in the order they are asked. -/
def refuseSegment (segment : List Char) : Option String :=
  if segment.isEmpty || !segment.all Char.isDigit then
    some s!"`{String.ofList segment}` is not a number"
  else if segment.head? = some '0' then
    some s!"`{String.ofList segment}` has a leading zero"
  else if (parseUnsigned u32Bound segment).isNone then
    some s!"`{String.ofList segment}` does not fit a plan index"
  else none

/-- The clause an index text breaks. -/
def refuseIndex (text : List Char) : Option String :=
  if text.isEmpty then some "the cell is empty"
  else
    let segments := text.splitOn '.'
    if segments.length > nodeDepthMax then
      some s!"{segments.length} levels deep, the plan holds {nodeDepthMax}"
    else segments.findSome? refuseSegment

end NodeId

/-- A node's place in the plan as the first column spells it. Every text here passed `parse`. -/
structure NodeId where
  text : List Char
  indexed : NodeId.refuseIndex text = none
deriving DecidableEq

namespace NodeId

theorem one_indexed : refuseIndex ['1'] = none := by decide

theorem two_indexed : refuseIndex ['2'] = none := by decide

theorem three_indexed : refuseIndex ['3'] = none := by decide

theorem four_indexed : refuseIndex ['4'] = none := by decide

theorem child_indexed : refuseIndex ['1', '.', '1'] = none := by decide

@[ext] theorem ext_text {first second : NodeId} (same : first.text = second.text) :
    first = second := by
  cases first
  cases second
  simp_all

instance : ToString NodeId := ⟨fun id => String.ofList id.text⟩

instance : Ord NodeId := ⟨fun first second => compare first.text second.text⟩

theorem compare_def (first second : NodeId) :
    compare first second = compare first.text second.text := rfl

instance : Std.TransOrd NodeId := OrdMap.transOrd_of_key compare_def

instance : Std.LawfulEqOrd NodeId := OrdMap.lawfulEqOrd_of_key compare_def fun _ _ => ext_text

/-- Reads an index cell. Joining the segments back gives the trimmed text itself. -/
def parse (raw : List Char) : Except AxError NodeId :=
  match broken : refuseIndex (trim raw) with
  | none => .ok ⟨trim raw, broken⟩
  | some why => .error (.failure .invalidArgs "read a plan index" why
      "write the index as dotted numbers from one, such as `2.3.1`")

variable {id : NodeId}

theorem parse_eq_ok {raw : List Char} : parse raw = .ok id ↔ trim raw = id.text := by
  constructor
  · intro success
    unfold parse at success
    split at success
    · cases success
      rfl
    · cases success
  · intro same
    have passes : refuseIndex (trim raw) = none := same ▸ id.indexed
    unfold parse
    split
    · exact congrArg Except.ok (ext_text same)
    · rename_i why broken
      rw [passes] at broken
      cases broken

theorem refuseIndex_eq_none {text : List Char} :
    refuseIndex text = none ↔ text ≠ [] ∧ (text.splitOn '.').length ≤ nodeDepthMax ∧
      ∀ segment ∈ text.splitOn '.', refuseSegment segment = none := by
  simp only [refuseIndex]
  split
  · simp_all
  · split
    · simp only [reduceCtorEq, false_iff]
      omega
    · simp_all

theorem text_ne_nil (id : NodeId) : id.text ≠ [] := (refuseIndex_eq_none.mp id.indexed).1

theorem digits_of_segment {segment : List Char} (passes : refuseSegment segment = none) :
    ∀ c ∈ segment, c.isDigit = true := by
  unfold refuseSegment at passes
  split at passes
  · cases passes
  · rename_i digits
    simp only [Bool.or_eq_true, List.isEmpty_iff, Bool.not_eq_true', not_or] at digits
    simpa using digits.2

theorem text_chars (id : NodeId) {c : Char} (member : c ∈ id.text) : c.isDigit = true ∨ c = '.' := by
  by_cases dot : c = '.'
  · exact Or.inr dot
  · obtain ⟨segment, listed, inside⟩ := exists_part_of_mem member dot
    have passes := (refuseIndex_eq_none.mp id.indexed).2.2 segment listed
    exact Or.inl (digits_of_segment passes c inside)

theorem text_avoids (id : NodeId) {c : Char} (noDigit : c.isDigit = false) (noDot : c ≠ '.') :
    c ∉ id.text := by
  intro member
  rcases id.text_chars member with digit | dot
  · rw [noDigit] at digit
    cases digit
  · exact noDot dot

theorem trimmed_text (id : NodeId) : Text.Trimmed id.text := by
  apply trimmed_of_plain
  intro c member
  rcases id.text_chars member with digit | rfl
  · exact isWhitespace_of_isDigit digit
  · decide

theorem refuseIndex_head {head tail : List Char}
    (indexed : refuseIndex (head ++ '.' :: tail) = none) : refuseIndex head = none := by
  obtain ⟨-, shallow, segments⟩ := (refuseIndex_eq_none).mp indexed
  rw [splitOn_append_cons_self] at shallow segments
  refine (refuseIndex_eq_none).mpr ⟨?_, ?_, fun segment member => segments segment ?_⟩
  · rintro rfl
    have empty := segments [] (by simp)
    simp [refuseSegment] at empty
  · rw [length_append] at shallow
    omega
  · exact mem_append_left _ member

/-- The node this one hangs under. -/
def parent (id : NodeId) : Option NodeId :=
  match cut : rsplitOnce '.' id.text with
  | none => none
  | some (head, _) =>
    some ⟨head, refuseIndex_head
      ((rsplitOnce_eq_some.mp cut).1 ▸ id.indexed)⟩

variable {above : NodeId}

theorem parent_eq_some :
    id.parent = some above ↔ ∃ tail, id.text = above.text ++ '.' :: tail ∧ '.' ∉ tail := by
  unfold parent
  split
  · rename_i cut
    rw [rsplitOnce_eq_none] at cut
    constructor
    · simp
    · rintro ⟨tail, shape, -⟩
      exact absurd (shape ▸ mem_append_right _ mem_cons_self) cut
  · rename_i head tail cut
    obtain ⟨shape, plain⟩ := rsplitOnce_eq_some.mp cut
    constructor
    · intro found
      cases found
      exact ⟨tail, shape, plain⟩
    · rintro ⟨other, again, free⟩
      have both : rsplitOnce '.' id.text = some (above.text, other) :=
        rsplitOnce_eq_some.mpr ⟨again, free⟩
      rw [cut] at both
      simp only [Option.some.injEq, Prod.mk.injEq] at both
      exact congrArg some (ext_text both.1)

theorem parent_eq_none : id.parent = none ↔ '.' ∉ id.text := by
  unfold parent
  split
  · rename_i cut
    simpa using rsplitOnce_eq_none.mp cut
  · rename_i head tail cut
    obtain ⟨shape, -⟩ := rsplitOnce_eq_some.mp cut
    simp [shape]

theorem length_parent (hangs : id.parent = some above) : above.text.length < id.text.length := by
  obtain ⟨tail, shape, -⟩ := (parent_eq_some).mp hangs
  rw [shape]
  simp

/-- Which child of its parent this is. -/
def ordinal (id : NodeId) : Nat :=
  (parseUnsigned u32Bound
    (((rsplitOnce '.' id.text).map Prod.snd).getD id.text)).getD 0

def depth (id : NodeId) : Nat := (id.text.splitOn '.').length

theorem depth_le (id : NodeId) : id.depth ≤ nodeDepthMax :=
  (refuseIndex_eq_none.mp id.indexed).2.1

theorem depth_parent (hangs : id.parent = some above) : id.depth = above.depth + 1 := by
  obtain ⟨tail, shape, plain⟩ := (parent_eq_some).mp hangs
  simp [depth, shape, splitOn_append_cons_self, splitOn_eq_singleton plain]

theorem depth_root (top : id.parent = none) : id.depth = 1 := by
  rw [depth, splitOn_eq_singleton (parent_eq_none.mp top), length_singleton]

/-- Whether `other` hangs below this node, at any depth. -/
def isAncestorOf (id other : NodeId) : Bool :=
  decide (other.text.length > id.text.length) && id.text.isPrefixOf other.text
    && other.text[id.text.length]? == some '.'

/-- The walk towards the root, nearest node first. -/
def walkUp : Nat → Option NodeId → List NodeId
  | 0, _ => []
  | _ + 1, none => []
  | steps + 1, some held => held :: walkUp steps held.parent

/-- Every node between the root and this one, closest last. -/
def ancestors (id : NodeId) : List NodeId :=
  (walkUp id.text.length id.parent).reverse

/-- This node's `ordinal`-th child. -/
def child (id : NodeId) (ordinal : Nat) : Except AxError NodeId :=
  parse (id.text ++ '.' :: decimal ordinal)

theorem walkUp_parent {steps : Nat} (enough : id.text.length ≤ steps) :
    walkUp steps id.parent = walkUp id.text.length id.parent := by
  induction steps using Nat.strong_induction_on generalizing id with
  | _ steps ih =>
    cases hangs : id.parent with
    | none => cases steps <;> cases id.text.length <;> rfl
    | some above =>
      have shorter := length_parent hangs
      obtain ⟨more, rfl⟩ : ∃ more, steps = more + 1 := ⟨steps - 1, by omega⟩
      obtain ⟨size, same⟩ : ∃ size, id.text.length = size + 1 :=
        ⟨id.text.length - 1, by omega⟩
      rw [same]
      simp only [walkUp, List.cons.injEq, true_and]
      rw [ih more (by omega) (by omega), ih size (by omega) (by omega)]

theorem ancestors_of_parent (hangs : id.parent = some above) :
    id.ancestors = above.ancestors ++ [above] := by
  have shorter := length_parent hangs
  obtain ⟨size, same⟩ : ∃ size, id.text.length = size + 1 := ⟨id.text.length - 1, by omega⟩
  rw [ancestors, hangs, same]
  simp only [walkUp, reverse_cons]
  rw [walkUp_parent (by omega), ← ancestors]

theorem ancestors_of_root (top : id.parent = none) : id.ancestors = [] := by
  rw [ancestors, top]
  cases id.text.length <;> rfl

end NodeId

end Sprawling
