import Mathlib.Data.List.Basic
import Mathlib.Data.List.Sublists

/-! Longest common subsequences of two lists, by their length. -/

namespace CommonSubsequence

open List

variable {α : Type}

/-- Some common subsequence has `length` members, and none has more. -/
structure IsLongest (first second : List α) (length : Nat) : Prop where
  reached : ∃ common, List.Sublist common first ∧ List.Sublist common second ∧
    common.length = length
  bounded : ∀ common, List.Sublist common first → List.Sublist common second →
    common.length ≤ length

variable {first second : List α} {length other : Nat}

theorem IsLongest.unique (one : IsLongest first second length)
    (two : IsLongest first second other) : length = other := by
  obtain ⟨common, inFirst, inSecond, sized⟩ := one.reached
  obtain ⟨common', inFirst', inSecond', sized'⟩ := two.reached
  have upper := two.bounded common inFirst inSecond
  have lower := one.bounded common' inFirst' inSecond'
  omega

theorem IsLongest.le_left (longest : IsLongest first second length) : length ≤ first.length := by
  obtain ⟨common, inFirst, -, sized⟩ := longest.reached
  have short := inFirst.length_le
  omega

theorem IsLongest.le_right (longest : IsLongest first second length) :
    length ≤ second.length := by
  obtain ⟨common, -, inSecond, sized⟩ := longest.reached
  have short := inSecond.length_le
  omega

theorem isLongest_nil_left (second : List α) : IsLongest [] second 0 where
  reached := ⟨[], List.Sublist.refl _, nil_sublist _, rfl⟩
  bounded _ inFirst _ := inFirst.length_le

theorem isLongest_nil_right (first : List α) : IsLongest first [] 0 where
  reached := ⟨[], nil_sublist _, List.Sublist.refl _, rfl⟩
  bounded _ _ inSecond := inSecond.length_le

theorem IsLongest.cons_same (head : α) (longest : IsLongest first second length) :
    IsLongest (head :: first) (head :: second) (length + 1) where
  reached := by
    obtain ⟨common, inFirst, inSecond, sized⟩ := longest.reached
    refine ⟨head :: common, inFirst.cons_cons head, inSecond.cons_cons head, ?_⟩
    rw [length_cons, sized]
  bounded common inFirst inSecond := by
    have tails := longest.bounded common.tail inFirst.tail inSecond.tail
    rw [length_tail] at tails
    omega

/-- Two different heads cannot both be taken, so one of them is left out. -/
theorem IsLongest.cons_ne {one two : α} (apart : one ≠ two) {short long : Nat}
    (dropFirst : IsLongest first (two :: second) short)
    (dropSecond : IsLongest (one :: first) second long) :
    IsLongest (one :: first) (two :: second) (max short long) where
  reached := by
    by_cases longer : long ≤ short
    · obtain ⟨common, inFirst, inSecond, sized⟩ := dropFirst.reached
      exact ⟨common, inFirst.cons one, inSecond, by omega⟩
    · obtain ⟨common, inFirst, inSecond, sized⟩ := dropSecond.reached
      exact ⟨common, inFirst, inSecond.cons two, by omega⟩
  bounded common inFirst inSecond := by
    cases inFirst with
    | cons _ inRest =>
      have upper := dropFirst.bounded common inRest inSecond
      omega
    | cons_cons _ inRest =>
      -- the common list begins with `one`, so it cannot use the second list's head
      cases inSecond with
      | cons _ inTail =>
        have upper := dropSecond.bounded _ (inRest.cons_cons one) inTail
        omega
      | cons_cons _ _ => exact absurd rfl apart

theorem IsLongest.append_left (shared : List α) (longest : IsLongest first second length) :
    IsLongest (shared ++ first) (shared ++ second) (shared.length + length) := by
  induction shared with
  | nil => simpa using longest
  | cons head shared ih =>
    have grown := ih.cons_same head
    rw [length_cons]
    have count : shared.length + 1 + length = shared.length + length + 1 := by omega
    rw [count]
    exact grown

theorem IsLongest.reverse (longest : IsLongest first second length) :
    IsLongest first.reverse second.reverse length where
  reached := by
    obtain ⟨common, inFirst, inSecond, sized⟩ := longest.reached
    exact ⟨common.reverse, inFirst.reverse, inSecond.reverse, by rw [length_reverse, sized]⟩
  bounded common inFirst inSecond := by
    have flipped := longest.bounded common.reverse
      (sublist_reverse_iff.mp inFirst) (sublist_reverse_iff.mp inSecond)
    rwa [length_reverse] at flipped

theorem IsLongest.append_right (shared : List α) (longest : IsLongest first second length) :
    IsLongest (first ++ shared) (second ++ shared) (length + shared.length) := by
  have turned := (longest.reverse.append_left shared.reverse).reverse
  simp only [reverse_append, reverse_reverse, length_reverse] at turned
  rwa [Nat.add_comm] at turned

/-- How many places two lists agree in from the front. -/
def agreed [DecidableEq α] (first second : List α) : Nat :=
  ((first.zip second).takeWhile fun pair => pair.1 = pair.2).length

theorem agreed_cons [DecidableEq α] (one two : α) (first second : List α) :
    agreed (one :: first) (two :: second) = if one = two then agreed first second + 1 else 0 := by
  by_cases same : one = two
  · rw [if_pos same]
    simp [agreed, same]
  · rw [if_neg same]
    simp [agreed, same]

theorem take_agreed [DecidableEq α] (first second : List α) :
    first.take (agreed first second) = second.take (agreed first second) := by
  induction first generalizing second with
  | nil => simp [agreed]
  | cons one first ih =>
    cases second with
    | nil => simp [agreed]
    | cons two second =>
      rw [agreed_cons]
      by_cases same : one = two
      · rw [if_pos same, take_succ_cons, take_succ_cons, ih, same]
      · rw [if_neg same, take_zero, take_zero]

end CommonSubsequence
