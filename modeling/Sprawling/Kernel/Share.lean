import Sprawling.Kernel.Error
import Mathlib.Algebra.BigOperators.Group.List.Basic
import Mathlib.Algebra.BigOperators.Ring.List
import Mathlib.Algebra.Order.BigOperators.Group.List
import Mathlib.Tactic.Ring

namespace Sprawling

open List

def wholePpb : Nat := 1000000000

/-- Billionths of the whole plan. A share is the whole or a part of a share, so none is larger
than the whole and no `u64` sum of parts saturates. -/
structure Share where
  ppb : Nat
  within : ppb ≤ wholePpb

namespace Share

def whole : Share := ⟨wholePpb, Nat.le_refl _⟩

def none : Share := ⟨0, Nat.zero_le _⟩

def totalWeight (weights : List UInt32) : Nat := (weights.map UInt32.toNat).sum

/-- What each weight is worth before the remainder goes round. -/
def exactParts (pot total : Nat) (weights : List UInt32) : List Nat :=
  weights.map fun weight => pot * weight.toNat / total

/-- Gives one more to the earliest parts, one at a time, until the remainder is gone. -/
def handRemainder : Nat → List Nat → List Nat
  | _, [] => []
  | 0, part :: parts => part :: parts
  | remainder + 1, part :: parts => (part + 1) :: handRemainder remainder parts

/-- The parts in billionths. -/
def partsOf (pot : Nat) (weights : List UInt32) : List Nat :=
  let parts := exactParts pot (totalWeight weights) weights
  handRemainder (pot - parts.sum) parts

theorem exactParts_mul_le (pot total : Nat) (weights : List UInt32) :
    (exactParts pot total weights).sum * total ≤ pot * totalWeight weights := by
  induction weights with
  | nil => simp [exactParts, totalWeight]
  | cons weight rest ih =>
    simp only [exactParts, totalWeight, map_cons, sum_cons] at ih ⊢
    have one := Nat.div_mul_le_self (pot * weight.toNat) total
    rw [Nat.add_mul, Nat.mul_add]
    omega

theorem exactParts_sum_le (pot : Nat) (weights : List UInt32) :
    (exactParts pot (totalWeight weights) weights).sum ≤ pot := by
  have scaled := exactParts_mul_le pot (totalWeight weights) weights
  rcases Nat.eq_zero_or_pos (totalWeight weights) with zero | positive
  · have nothing : ∀ part ∈ exactParts pot (totalWeight weights) weights, part = 0 := by
      intro part member
      simp only [exactParts, zero, Nat.div_zero, map_const', mem_replicate] at member
      exact member.2
    rw [sum_eq_zero nothing]
    exact Nat.zero_le _
  · exact Nat.le_of_mul_le_mul_right scaled positive

theorem handRemainder_sum_le (remainder : Nat) (parts : List Nat) :
    (handRemainder remainder parts).sum ≤ parts.sum + remainder := by
  induction parts generalizing remainder with
  | nil => simp [handRemainder]
  | cons part parts ih =>
    cases remainder with
    | zero => simp [handRemainder]
    | succ remainder =>
      have rest := ih remainder
      simp only [handRemainder, sum_cons]
      omega

theorem handRemainder_length (remainder : Nat) (parts : List Nat) :
    (handRemainder remainder parts).length = parts.length := by
  induction parts generalizing remainder with
  | nil => simp [handRemainder]
  | cons part parts ih => cases remainder <;> simp [handRemainder, ih]

variable {parts : List Nat}

theorem handRemainder_sum {remainder : Nat} (few : remainder ≤ parts.length) :
    (handRemainder remainder parts).sum = parts.sum + remainder := by
  induction parts generalizing remainder with
  | nil =>
    have nothing : remainder = 0 := by simpa using few
    simp [handRemainder, nothing]
  | cons part parts ih =>
    cases remainder with
    | zero => simp [handRemainder]
    | succ remainder =>
      have rest : (handRemainder remainder parts).sum = parts.sum + remainder :=
        ih (by simpa using few)
      simp only [handRemainder, sum_cons]
      omega

theorem handRemainder_get {remainder place : Nat} (past : remainder ≤ place) :
    (handRemainder remainder parts)[place]? = parts[place]? := by
  induction parts generalizing remainder place with
  | nil => simp [handRemainder]
  | cons part parts ih =>
    cases remainder with
    | zero => rfl
    | succ remainder =>
      obtain ⟨before, rfl⟩ : ∃ before, place = before + 1 := ⟨place - 1, by omega⟩
      simp only [handRemainder, getElem?_cons_succ]
      exact ih (by omega)

theorem exactParts_mul_ge (pot total : Nat) (weights : List UInt32) (positive : 0 < total) :
    pot * totalWeight weights ≤
      (exactParts pot total weights).sum * total + weights.length * total := by
  induction weights with
  | nil => simp [exactParts, totalWeight]
  | cons weight rest ih =>
    simp only [exactParts, totalWeight, map_cons, sum_cons, length_cons] at ih ⊢
    have one := Nat.div_add_mod (pot * weight.toNat) total
    have less := Nat.mod_lt (pot * weight.toNat) positive
    rw [Nat.mul_comm] at one
    rw [Nat.add_mul, Nat.mul_add, Nat.add_mul, Nat.one_mul]
    omega

variable {weights : List UInt32}

theorem remainder_le (pot : Nat) (positive : 0 < totalWeight weights) :
    pot - (exactParts pot (totalWeight weights) weights).sum ≤ weights.length := by
  have scaled := exactParts_mul_ge pot (totalWeight weights) weights positive
  rw [← Nat.add_mul] at scaled
  have fits := Nat.le_of_mul_le_mul_right scaled positive
  omega

theorem partsOf_length (pot : Nat) (weights : List UInt32) :
    (partsOf pot weights).length = weights.length := by
  simp [partsOf, handRemainder_length, exactParts]

theorem partsOf_sum_le (pot : Nat) (weights : List UInt32) : (partsOf pot weights).sum ≤ pot := by
  have exact_le := exactParts_sum_le pot weights
  have handed := handRemainder_sum_le
    (pot - (exactParts pot (totalWeight weights) weights).sum)
    (exactParts pot (totalWeight weights) weights)
  simp only [partsOf]
  omega

theorem partsOf_sum (pot : Nat) (positive : 0 < totalWeight weights) :
    (partsOf pot weights).sum = pot := by
  have exact_le := exactParts_sum_le pot weights
  have few := remainder_le pot positive
  have length : (exactParts pot (totalWeight weights) weights).length = weights.length := by
    simp [exactParts]
  simp only [partsOf]
  rw [handRemainder_sum (by omega)]
  omega

/-- Billionths the weights leave over, one for each of the earliest parts. -/
def remainderOf (pot : Nat) (weights : List UInt32) : Nat :=
  pot - (exactParts pot (totalWeight weights) weights).sum

theorem partsOf_zero_weight {pot place : Nat} (nothing : weights[place]? = some 0)
    (past : remainderOf pot weights ≤ place) : (partsOf pot weights)[place]? = some 0 := by
  have same : (partsOf pot weights)[place]? =
      (exactParts pot (totalWeight weights) weights)[place]? := handRemainder_get past
  rw [same]
  simp [exactParts, nothing]

/-- Weights are ratios: scaling all of them divides the same way. -/
theorem partsOf_scale {pot factor : Nat} {scaled : List UInt32} (positive : 0 < factor)
    (ratio : scaled.map UInt32.toNat = weights.map fun weight => factor * weight.toNat) :
    partsOf pot scaled = partsOf pot weights := by
  have total : totalWeight scaled = factor * totalWeight weights := by
    rw [totalWeight, ratio, sum_map_mul_left, totalWeight]
  have worth : exactParts pot (totalWeight scaled) scaled =
      exactParts pot (totalWeight weights) weights := by
    calc exactParts pot (totalWeight scaled) scaled
        = (scaled.map UInt32.toNat).map fun weight => pot * weight / totalWeight scaled := by
          rw [exactParts, map_map]
          rfl
      _ = weights.map fun weight => factor * (pot * weight.toNat) / (factor * totalWeight weights) := by
          rw [ratio, total, map_map]
          apply map_congr_left
          intro weight _
          simp only [Function.comp_apply]
          rw [Nat.mul_left_comm]
      _ = exactParts pot (totalWeight weights) weights := by
          apply map_congr_left
          intro weight _
          exact Nat.mul_div_mul_left _ _ positive
  simp only [partsOf, worth]

theorem partsOf_le (pot : Share) (weights : List UInt32) :
    ∀ part ∈ partsOf pot.ppb weights, part ≤ wholePpb := by
  intro part member
  calc part ≤ (partsOf pot.ppb weights).sum := single_le_sum (by simp) part member
    _ ≤ pot.ppb := partsOf_sum_le _ _
    _ ≤ wholePpb := pot.within

/-- Divides a share among `weights`. -/
def split (pot : Share) (weights : List UInt32) : Except AxError (List Share) :=
  if weights.isEmpty || totalWeight weights == 0 then
    .error (.failure .invalidArgs "divide a share"
      s!"{weights.length} parts, {totalWeight weights} in weight"
      "give at least one part, and at least one weight above zero")
  else .ok ((partsOf pot.ppb weights).pmap Share.mk (partsOf_le pot weights))

/-- Adds shares that were divided out of one whole. -/
def gather (parts : List Share) : Share :=
  ⟨min (parts.foldl (fun held part => held + part.ppb) 0) wholePpb, Nat.min_le_right _ _⟩

theorem totalWeight_pos (some_weight : ∃ weight ∈ weights, weight ≠ 0) :
    0 < totalWeight weights := by
  obtain ⟨weight, member, nonzero⟩ := some_weight
  have positive : 0 < weight.toNat := by
    rcases Nat.eq_zero_or_pos weight.toNat with zero | positive
    · exact absurd (UInt32.toNat_inj.mp (by simpa using zero)) nonzero
    · exact positive
  have counted : weight.toNat ≤ totalWeight weights :=
    single_le_sum (by simp) _ (mem_map_of_mem member)
  omega

variable {pot : Share}

theorem split_ok (some_weight : ∃ weight ∈ weights, weight ≠ 0) :
    ∃ parts, pot.split weights = .ok parts := by
  have positive := totalWeight_pos some_weight
  obtain ⟨weight, member, -⟩ := some_weight
  have refused : ¬ (weights.isEmpty || totalWeight weights == 0) = true := by
    simp only [Bool.or_eq_true, List.isEmpty_iff, beq_iff_eq, not_or]
    exact ⟨ne_nil_of_mem member, by omega⟩
  exact ⟨_, if_neg refused⟩

theorem split_parts {parts : List Share} (success : pot.split weights = .ok parts) :
    parts.map Share.ppb = partsOf pot.ppb weights := by
  rw [split] at success
  split at success
  · cases success
  · cases success
    simp [map_pmap]

end Share

end Sprawling
