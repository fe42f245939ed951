import Mathlib.Data.List.TakeWhile

/-! A list searched by where each item stands around a target, and a list changed at the place a
search found. -/

namespace Sprawling

open List

section Edit

variable {α : Type} (front rest : List α)

theorem modify_length_append (change : α → α) (item : α) :
    (front ++ item :: rest).modify front.length change = front ++ change item :: rest := by
  induction front with
  | nil => rfl
  | cons first front ih =>
    simp only [cons_append, length_cons, modify_succ_cons, ih]

theorem insertIdx_length_append (item : α) :
    (front ++ rest).insertIdx front.length item = front ++ item :: rest := by
  induction front with
  | nil => rfl
  | cons first front ih =>
    simp only [cons_append, length_cons, insertIdx_succ_cons, ih]

theorem eraseIdx_length_append (item : α) :
    (front ++ item :: rest).eraseIdx front.length = front ++ rest := by
  rw [eraseIdx_append_of_length_le (Nat.le_refl _), Nat.sub_self, eraseIdx_cons_zero]

theorem getElem?_length_append : (front ++ rest)[front.length]? = rest.head? := by
  rw [getElem?_append_right (Nat.le_refl _), Nat.sub_self, head?_eq_getElem?]

end Edit

section Search

variable {α : Type} (place : α → Ordering)

/-- The index of the item that stands at the target, or the one an item put in would go to, in a
list whose items stand in order around it. -/
def binarySearchBy (items : List α) : Except Nat Nat :=
  let index := (items.takeWhile fun item => place item == .lt).length
  match items[index]? with
  | none => .error index
  | some item => if place item = .eq then .ok index else .error index

/-- The items stand in order around the target, one at most at it. -/
def InPlace (items : List α) : Prop :=
  items.Pairwise fun first second => place first ≠ .lt → place second = .gt

/-- What a search finds: the items below the target, the one at it if there is one, and the items
above it. -/
inductive Found : List α → Except Nat Nat → Prop
  | here {below above : List α} (item : α) (low : ∀ other ∈ below, place other = .lt)
      (hit : place item = .eq) (high : ∀ other ∈ above, place other = .gt) :
      Found (below ++ item :: above) (.ok below.length)
  | gap {below above : List α} (low : ∀ other ∈ below, place other = .lt)
      (high : ∀ other ∈ above, place other = .gt) : Found (below ++ above) (.error below.length)

variable {place}

theorem found_binarySearchBy {items : List α} (inPlace : InPlace place items) :
    Found place items (binarySearchBy place items) := by
  obtain ⟨below, takes⟩ : ∃ below, below = items.takeWhile fun item => place item == .lt := ⟨_, rfl⟩
  obtain ⟨rest, drops⟩ : ∃ rest, rest = items.dropWhile fun item => place item == .lt := ⟨_, rfl⟩
  have shape : items = below ++ rest := by
    rw [takes, drops, takeWhile_append_dropWhile]
  have low : ∀ other ∈ below, place other = .lt := by
    intro other member
    rw [takes] at member
    exact eq_of_beq (mem_takeWhile_imp (p := fun item => place item == .lt) member)
  have index := getElem?_length_append below rest
  have searched : binarySearchBy place items =
      match rest.head? with
      | none => .error below.length
      | some item => if place item = .eq then .ok below.length else .error below.length := by
    rw [← index, ← shape, takes]
    rfl
  rw [searched]
  cases rest with
  | nil =>
    rw [shape]
    exact .gap low fun _ absent => absurd absent not_mem_nil
  | cons item above =>
    have notLow : place item ≠ .lt := by
      intro lower
      have first := head?_dropWhile_not (fun item => place item == .lt) items
      rw [← drops] at first
      simp [lower] at first
    have inRest : InPlace place (item :: above) := by
      rw [shape] at inPlace
      exact (pairwise_append.mp inPlace).2.1
    have high : ∀ other ∈ above, place other = .gt := fun other member =>
      (pairwise_cons.mp inRest).1 other member notLow
    simp only [head?_cons]
    rw [shape]
    split
    · next hit => exact .here item low hit high
    · next miss =>
        refine .gap low fun other member => ?_
        rcases mem_cons.mp member with rfl | later
        · cases standing : place other with
          | lt => exact absurd standing notLow
          | eq => exact absurd standing miss
          | gt => rfl
        · exact high other later

end Search

end Sprawling
