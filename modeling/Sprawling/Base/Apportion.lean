import Mathlib.Algebra.GroupWithZero.Nat
import Mathlib.Algebra.BigOperators.Group.List.Basic
import Mathlib.Data.List.Nodup

/-! Whole shares of a total by weight: the floors, and one unit more at some places. -/

namespace Apportion

open List

section HandOut

variable {α : Type} (bump : α → α)

/-- Hands one unit each to the first places of an order until none is left. -/
def handOut : Nat → List Nat → List α → List α
  | 0, _, shares => shares
  | _ + 1, [], shares => shares
  | left + 1, place :: order, shares =>
    if place < shares.length then handOut left order (shares.modify place bump)
    else handOut (left + 1) order shares

variable {bump}

@[simp] theorem handOut_zero (order : List Nat) (shares : List α) :
    handOut bump 0 order shares = shares := by
  unfold handOut
  rfl

variable {shares : List α} {order : List Nat}

/-- Exactly the first places of the order get a unit, one each. -/
theorem getElem?_handOut (distinct : order.Nodup)
    (inside : ∀ place ∈ order, place < shares.length) (left place : Nat) :
    (handOut bump left order shares)[place]? =
      if place ∈ order.take left then shares[place]?.map bump else shares[place]? := by
  induction order generalizing left shares with
  | nil => cases left <;> simp [handOut]
  | cons first order ih =>
    cases left with
    | zero => simp
    | succ left =>
      rw [nodup_cons] at distinct
      have here : first < shares.length := inside first mem_cons_self
      rw [handOut, if_pos here, ih distinct.2, take_succ_cons, getElem?_modify]
      · by_cases same : first = place
        · subst same
          have absent : first ∉ order.take left := fun member =>
            distinct.1 (mem_of_mem_take member)
          simp [absent]
        · have other : ¬place = first := fun reversed => same reversed.symm
          simp [same, other]
      · intro place member
        rw [length_modify]
        exact inside place (mem_cons_of_mem _ member)

theorem length_handOut (left : Nat) (order : List Nat) (shares : List α) :
    (handOut bump left order shares).length = shares.length := by
  induction order generalizing left shares with
  | nil => cases left <;> rfl
  | cons place order ih =>
    cases left with
    | zero => rw [handOut_zero]
    | succ left =>
      rw [handOut]
      split
      · rw [ih, length_modify]
      · exact ih _ _

variable {value : α → Nat}

theorem sum_map_modify {place : Nat} {share : α}
    (found : shares[place]? = some share) (one : value (bump share) = value share + 1) :
    ((shares.modify place bump).map value).sum = (shares.map value).sum + 1 := by
  induction shares generalizing place with
  | nil => cases found
  | cons first shares ih =>
    cases place with
    | zero =>
      cases found
      rw [modify_zero_cons, map_cons, map_cons, sum_cons, sum_cons, one]
      omega
    | succ place =>
      rw [modify_succ_cons, map_cons, map_cons, sum_cons, sum_cons, ih found]
      omega

/-- The units that are handed out are all that are left, while the order has places for them. -/
theorem sum_handOut (distinct : order.Nodup) (inside : ∀ place ∈ order, place < shares.length)
    (one : ∀ share ∈ shares, value (bump share) = value share + 1)
    {left : Nat} (room : left ≤ order.length) :
    ((handOut bump left order shares).map value).sum = (shares.map value).sum + left := by
  have places : ∀ place ∈ order, ∃ share, shares[place]? = some share ∧
      value (bump share) = value share + 1 := by
    intro place member
    exact ⟨_, getElem?_eq_getElem (inside place member), one _ (getElem_mem _)⟩
  clear inside one
  induction order generalizing left shares with
  | nil =>
    have none_ : left = 0 := Nat.le_zero.mp room
    simp [none_]
  | cons place order ih =>
    cases left with
    | zero => simp
    | succ left =>
      rw [nodup_cons] at distinct
      obtain ⟨share, found, one⟩ := places place mem_cons_self
      have here : place < shares.length := (List.getElem?_eq_some_iff.mp found).1
      rw [handOut, if_pos here, ih distinct.2, sum_map_modify found one]
      · omega
      · rw [length_cons] at room
        omega
      · intro other member
        -- The places that are left have not been given anything yet.
        have apart : place ≠ other := fun same => distinct.1 (same ▸ member)
        obtain ⟨share, found, one⟩ := places other (mem_cons_of_mem _ member)
        exact ⟨share, by simp [apart, found], one⟩

end HandOut

section Floors

variable {ι : Type} (total divisor : Nat) (weight : ι → Nat)

theorem sum_floor_add_sum_rem (items : List ι) :
    (items.map fun item => total * weight item / divisor).sum * divisor +
      (items.map fun item => total * weight item % divisor).sum =
        total * (items.map weight).sum := by
  induction items with
  | nil => simp
  | cons item items ih =>
    have whole := Nat.div_add_mod (total * weight item) divisor
    rw [Nat.mul_comm divisor] at whole
    simp only [map_cons, sum_cons, Nat.add_mul, Nat.mul_add]
    omega

end Floors

variable {numbers : List Nat}

theorem sum_le_length_mul {bound : Nat}
    (below : ∀ number ∈ numbers, number < bound) : numbers.sum ≤ numbers.length * bound := by
  induction numbers with
  | nil => simp
  | cons number numbers ih =>
    have first := below number mem_cons_self
    have rest := ih fun other member => below other (mem_cons_of_mem _ member)
    rw [sum_cons, length_cons, Nat.add_mul]
    omega

theorem count_le_length {bound count : Nat} (positive : 0 < bound)
    (below : ∀ number ∈ numbers, number < bound) (sum : numbers.sum = count * bound) :
    count ≤ numbers.length := by
  have upper := sum_le_length_mul below
  rw [sum] at upper
  exact Nat.le_of_mul_le_mul_right upper positive

/-- Of descending numbers below a bound whose sum is `count` bounds, the first `count` are not
zero. -/
theorem pos_of_mem_take {numbers : List Nat} {bound count number : Nat} (positive : 0 < bound)
    (descending : numbers.Pairwise (· ≥ ·)) (below : ∀ number ∈ numbers, number < bound)
    (sum : numbers.sum = count * bound) (taken : number ∈ numbers.take count) : 0 < number := by
  by_contra zero
  have zero : number = 0 := by omega
  subst zero
  obtain ⟨first, second, cut⟩ := append_of_mem taken
  have whole := take_append_drop count numbers
  -- Nothing after the zero is more than zero.
  have rest : (numbers.drop count).sum = 0 := by
    apply sum_eq_zero
    intro later member
    have split := descending
    rw [← whole, pairwise_append] at split
    exact Nat.le_zero.mp (split.2.2 0 taken later member)
  have short : first.length + second.length + 1 ≤ count := by
    have length := congrArg List.length cut
    rw [length_take, length_append, length_cons] at length
    omega
  have inside : ∀ other, other ∈ first ∨ other ∈ second → other < bound := by
    intro other member
    apply below
    apply mem_of_mem_take (i := count)
    rw [cut, mem_append, mem_cons]
    exact member.elim Or.inl fun later => Or.inr (Or.inr later)
  have left := sum_le_length_mul fun other member => inside other (Or.inl member)
  have right := sum_le_length_mul fun other member => inside other (Or.inr member)
  have total : numbers.sum = first.sum + second.sum := by
    rw [← whole, sum_append, rest, cut, sum_append, sum_cons]
    omega
  have bounded : numbers.sum ≤ (first.length + second.length) * bound := by
    rw [total, Nat.add_mul]
    omega
  have less : (first.length + second.length) * bound < count * bound :=
    Nat.mul_lt_mul_of_pos_right (by omega) positive
  omega

end Apportion
