import Mathlib.Algebra.Order.BigOperators.Group.List
import Mathlib.Algebra.Order.Group.Nat
import Mathlib.Data.Char
import Mathlib.Data.List.Lex
import Mathlib.Data.List.Sort
import Mathlib.Order.Lex
import Sprawling.Base.Apportion
import Sprawling.Base.Json
import Sprawling.Base.OrdMap
import Sprawling.Base.Text
import Sprawling.Kernel.Event

/-! Attribution splits: dividing a bill by weight. -/

namespace Sprawling

open List Apportion OrdMap

/-- The bucket a call falls into when the ledger gives no basis for a finer split. -/
def noTool : List Char := "no_tool".toList

def noSkill : List Char := "no_skill".toList

def noSegment : List Char := "unattributed".toList

def windowSlot : List Char := "window".toList

/-- The bucket a keep-warm renewal's bill takes in every cut but by actor. -/
def keepWarm : List Char := "keep_warm".toList

/-- Amounts by the name of their bucket. -/
abbrev Buckets := OrdMap (List Char) Nat

namespace Buckets

/-- Adds to a bucket, up to the largest 64-bit count. -/
def add (map : Buckets) (key : List Char) (amount : Nat) : Buckets :=
  map.insert key (saturatingAdd ((map[key]?).getD 0) amount)

/-- Adds each amount to its bucket. -/
def addAll (map : Buckets) (amounts : List (List Char × Nat)) : Buckets :=
  amounts.foldl (fun map entry => map.add entry.1 entry.2) map

end Buckets

namespace Split

/-- The prefix shape as the ledger recorded it: the segments and the window, weighted by bytes. -/
def segmentWeights (data : Json) : List (List Char × Nat) :=
  let segments := (((data.get "segments").bind Json.asArray).getD []).map fun segment =>
    ((((segment.get "slot").bind Json.asStr).getD "unknown".toList),
      (((segment.get "len").bind Json.asU64).getD 0))
  match (data.get "window_bytes").bind Json.asU64 with
  | some window => segments ++ [(windowSlot, window)]
  | none => segments

/-- One entry's share: its bucket, what it is given, and the remainder of the division. -/
structure Share where
  bucket : List Char
  given : Nat
  remainder : Nat

def saturatingMul (first second : Nat) : Nat := min (first * second) (2 ^ 128 - 1)

def share (total sum : Nat) (entry : List Char × Nat) : Share :=
  let scaled := saturatingMul total entry.2
  { bucket := entry.1, given := min (scaled / sum) u64Max, remainder := scaled % sum }

/-- Larger remainders first, then by name. -/
def Before (first second : Share × Nat) : Prop :=
  second.1.remainder < first.1.remainder ∨
    second.1.remainder = first.1.remainder ∧ first.1.bucket ≤ second.1.bucket

instance : DecidableRel Before := fun _ _ => inferInstanceAs (Decidable (_ ∨ _))

/-- The places of the shares in the order in which leftover units land. -/
def order (shares : List Share) : List Nat :=
  (shares.zipIdx.insertionSort Before).map Prod.snd

def oneMore (share : Share) : Share := { share with given := saturatingAdd share.given 1 }

/-- The shares of a total, before buckets of one name merge. -/
def shares (total : Nat) (weights : List (List Char × Nat)) : List Share :=
  let sum := (weights.map Prod.snd).foldl saturatingAdd 0
  let floors := weights.map (share total sum)
  let assigned := (floors.map (·.given)).foldl saturatingAdd 0
  Apportion.handOut oneMore (total - assigned) (order floors) floors

/-- Largest remainder: floor every share, then hand the leftover units to the largest remainders,
ties broken by bucket name. -/
def split (total : Nat) (weights : List (List Char × Nat)) (fallback : List Char) :
    List (List Char × Nat) :=
  let sum := (weights.map Prod.snd).foldl saturatingAdd 0
  if weights.isEmpty || sum == 0 then [(fallback, total)]
  else
    (Buckets.addAll ∅ ((shares total weights).map fun share => (share.bucket, share.given))).toList

end Split

theorem foldl_saturatingAdd (numbers : List Nat) (start : Nat) (bounded : start ≤ u64Max) :
    numbers.foldl saturatingAdd start = min (start + numbers.sum) u64Max := by
  induction numbers generalizing start with
  | nil =>
    rw [foldl_nil, sum_nil]
    omega
  | cons number numbers ih =>
    have below : saturatingAdd start number ≤ u64Max := Nat.min_le_right _ _
    rw [foldl_cons, ih _ below, sum_cons, saturatingAdd]
    omega

namespace Buckets

/-- What is posted to a bucket. -/
def posted (amounts : List (List Char × Nat)) (key : List Char) : Nat :=
  ((amounts.filter (·.1 = key)).map Prod.snd).sum

theorem total_add {map : Buckets} {key : List Char} {amount : Nat}
    (fits : (map[key]?).getD 0 + amount ≤ u64Max) :
    (map.add key amount).total = map.total + amount := by
  have sum := total_insert map key (saturatingAdd ((map[key]?).getD 0) amount)
  rw [add]
  simp only [saturatingAdd] at sum ⊢
  omega

theorem get_add (map : Buckets) (key other : List Char) (amount : Nat) :
    (map.add key amount)[other]? =
      if key = other then some (saturatingAdd ((map[other]?).getD 0) amount) else map[other]? := by
  rw [add, OrdMap.get_insert]
  split
  · next same => rw [same]
  · rfl

theorem get_addAll {map : Buckets} {amounts : List (List Char × Nat)} {key : List Char}
    (bounded : (map[key]?).getD 0 ≤ u64Max) :
    (map.addAll amounts)[key]? =
      if key ∈ amounts.map Prod.fst then
        some (min ((map[key]?).getD 0 + posted amounts key) u64Max)
      else map[key]? := by
  induction amounts generalizing map with
  | nil => simp [addAll]
  | cons entry amounts ih =>
    have after := get_add map entry.1 key entry.2
    have step : map.addAll (entry :: amounts) = (map.add entry.1 entry.2).addAll amounts := rfl
    by_cases same : entry.1 = key
    · rw [if_pos same] at after
      rw [step, ih, after]
      · simp only [Option.getD_some, map_cons, mem_cons, same, true_or, if_true, posted,
          filter_cons_of_pos, decide_true, sum_cons, saturatingAdd]
        split
        · congr 1
          omega
        · next absent =>
            have none_ : amounts.filter (·.1 = key) = [] := by
              rw [filter_eq_nil_iff]
              intro other member found
              exact absent (mem_map.mpr ⟨other, member, by simpa using found⟩)
            rw [none_]
            simp
      · rw [after]
        exact Nat.min_le_right _ _
    · rw [if_neg same] at after
      have apart : ¬key = entry.1 := fun reversed => same reversed.symm
      have skip : posted (entry :: amounts) key = posted amounts key := by
        simp [posted, same]
      rw [step, ih (by rw [after]; exact bounded), after, skip]
      simp only [map_cons, mem_cons, apart, false_or]

theorem total_addAll {map : Buckets} {amounts : List (List Char × Nat)}
    (fits : map.total + (amounts.map Prod.snd).sum ≤ u64Max) :
    (map.addAll amounts).total = map.total + (amounts.map Prod.snd).sum := by
  induction amounts generalizing map with
  | nil => simp [addAll]
  | cons entry amounts ih =>
    have held := get_le_total map entry.1
    rw [map_cons, sum_cons] at fits ⊢
    have first : (map.add entry.1 entry.2).total = map.total + entry.2 := total_add (by omega)
    have step : map.addAll (entry :: amounts) = (map.add entry.1 entry.2).addAll amounts := rfl
    rw [step, ih (by omega), first]
    omega

theorem total_addAll_of_nodup {map : Buckets} {amounts : List (List Char × Nat)}
    (distinct : (amounts.map Prod.fst).Nodup) (each : ∀ entry ∈ amounts, entry.2 ≤ u64Max)
    (fresh : ∀ entry ∈ amounts, map[entry.1]? = none) :
    (map.addAll amounts).total = map.total + (amounts.map Prod.snd).sum := by
  induction amounts generalizing map with
  | nil => simp [addAll]
  | cons entry amounts ih =>
    rw [map_cons, nodup_cons] at distinct
    have none_ := fresh entry mem_cons_self
    have first : (map.add entry.1 entry.2).total = map.total + entry.2 := by
      apply total_add
      rw [none_, Option.getD_none, Nat.zero_add]
      exact each entry mem_cons_self
    have step : map.addAll (entry :: amounts) = (map.add entry.1 entry.2).addAll amounts := rfl
    rw [step, ih distinct.2, first, map_cons, sum_cons]
    · omega
    · intro other member
      exact each other (mem_cons_of_mem _ member)
    · intro other member
      have apart : ¬entry.1 = other.1 := fun same =>
        distinct.1 (same ▸ mem_map_of_mem member)
      rw [get_add, if_neg apart]
      exact fresh other (mem_cons_of_mem _ member)

end Buckets

namespace Split

theorem before_total (first second : Share × Nat) : Before first second ∨ Before second first := by
  rcases Nat.lt_trichotomy first.1.remainder second.1.remainder with less | same | more
  · exact Or.inr (Or.inl less)
  · rcases le_total first.1.bucket second.1.bucket with lower | upper
    · exact Or.inl (Or.inr ⟨same.symm, lower⟩)
    · exact Or.inr (Or.inr ⟨same, upper⟩)
  · exact Or.inl (Or.inl more)

theorem before_trans {first second third : Share × Nat} (one : Before first second)
    (two : Before second third) : Before first third := by
  rcases one with less | ⟨same, lower⟩
  · rcases two with more | ⟨again, -⟩
    · exact Or.inl (by omega)
    · exact Or.inl (by omega)
  · rcases two with more | ⟨again, upper⟩
    · exact Or.inl (by omega)
    · exact Or.inr ⟨by omega, le_trans lower upper⟩

instance : Std.Total Before := ⟨before_total⟩

instance : IsTrans (Share × Nat) Before := ⟨fun _ _ _ => before_trans⟩

theorem order_perm (floors : List Share) : (order floors).Perm (List.range floors.length) := by
  have perm := (perm_insertionSort Before floors.zipIdx).map Prod.snd
  rwa [zipIdx_map_snd, ← range_eq_range'] at perm

theorem nodup_order (floors : List Share) : (order floors).Nodup :=
  (order_perm floors).nodup_iff.mpr nodup_range

theorem order_inside (floors : List Share) : ∀ place ∈ order floors, place < floors.length := by
  intro place member
  exact mem_range.mp ((order_perm floors).mem_iff.mp member)

theorem length_order (floors : List Share) : (order floors).length = floors.length := by
  rw [(order_perm floors).length_eq, length_range]

theorem remainder_pos_of_order {floors : List Share} {divisor left place : Nat}
    (positive : 0 < divisor) (below : ∀ share ∈ floors, share.remainder < divisor)
    (sum : (floors.map (·.remainder)).sum = left * divisor)
    (picked : place ∈ (order floors).take left) {share : Share}
    (found : floors[place]? = some share) : 0 < share.remainder := by
  have sorted : (floors.zipIdx.insertionSort Before).Pairwise Before :=
    pairwise_insertionSort Before _
  have perm := perm_insertionSort Before floors.zipIdx
  have numbers : ((floors.zipIdx.insertionSort Before).map (·.1.remainder)).Perm
      (floors.map (·.remainder)) := by
    have mapped := perm.map (·.1.remainder)
    have plain : floors.zipIdx.map (·.1.remainder) = floors.map (·.remainder) := by
      rw [← zipIdx_map_fst 0 floors, map_map]
      rw [zipIdx_map_fst]
      rfl
    rwa [plain] at mapped
  rw [order, ← map_take, mem_map] at picked
  obtain ⟨entry, taken, rfl⟩ := picked
  have listed : entry ∈ floors.zipIdx := perm.mem_iff.mp (mem_of_mem_take taken)
  have same : entry.1 = share := by
    have held := mem_zipIdx' listed
    have again := getElem?_eq_getElem held.1
    rw [found] at again
    cases again
    exact held.2
  rw [← same]
  apply @Apportion.pos_of_mem_take
    ((floors.zipIdx.insertionSort Before).map (·.1.remainder)) divisor left _ positive
  · rw [pairwise_map]
    apply sorted.imp
    rintro first second (less | ⟨equal, -⟩)
    · exact Nat.le_of_lt less
    · exact Nat.le_of_eq equal
  · intro number member
    obtain ⟨share, inside, rfl⟩ := mem_map.mp (numbers.mem_iff.mp member)
    exact below share inside
  · rw [numbers.sum_eq, sum]
  · rw [← map_take]
    exact mem_map.mpr ⟨entry, taken, rfl⟩

/-- A share lies less than one unit from the exact part of the total. -/
def Near (total sum : Nat) (entry : List Char × Nat) (share : Share) : Prop :=
  share.bucket = entry.1 ∧ share.given * sum < total * entry.2 + sum ∧
    total * entry.2 < share.given * sum + sum

variable {total : Nat} {entry : List Char × Nat}

theorem near_floor {divisor : Nat} {share : Share}
    (positive : 0 < divisor) (bucket : share.bucket = entry.1)
    (given : share.given = total * entry.2 / divisor ∨ share.given = total * entry.2 / divisor + 1 ∧ 0 < total * entry.2 % divisor) :
    Near total divisor entry share := by
  have divided := Nat.div_add_mod (total * entry.2) divisor
  have less := Nat.mod_lt (total * entry.2) positive
  rw [Nat.mul_comm divisor] at divided
  refine ⟨bucket, ?_⟩
  rcases given with floor | ⟨more, remains⟩
  · rw [floor]
    omega
  · rw [more, Nat.add_mul, Nat.one_mul]
    omega

variable {sum : Nat}

theorem share_eq (small : total ≤ u64Max) (part : entry.2 ≤ u64Max)
    (fits : total * entry.2 / sum ≤ u64Max) :
    share total sum entry =
      { bucket := entry.1, given := total * entry.2 / sum, remainder := total * entry.2 % sum } := by
  have product : total * entry.2 ≤ u64Max * u64Max := Nat.mul_le_mul small part
  have wide : saturatingMul total entry.2 = total * entry.2 := by
    simp only [saturatingMul, u64Max] at product ⊢
    omega
  simp only [share, wide, Nat.min_eq_left fits]

variable {weights : List (List Char × Nat)}

theorem shares_eq (small : total ≤ u64Max) (positive : 0 < (weights.map Prod.snd).sum)
    (fits : (weights.map Prod.snd).sum ≤ u64Max) :
    ∃ floors left, shares total weights = Apportion.handOut oneMore left (order floors) floors ∧
      floors = weights.map (fun entry =>
        { bucket := entry.1
          given := total * entry.2 / (weights.map Prod.snd).sum
          remainder := total * entry.2 % (weights.map Prod.snd).sum }) ∧
      (floors.map (·.given)).sum + left = total ∧
      (floors.map (·.remainder)).sum = left * (weights.map Prod.snd).sum := by
  generalize sum : (weights.map Prod.snd).sum = divisor at positive fits ⊢
  have folded : (weights.map Prod.snd).foldl saturatingAdd 0 = divisor := by
    rw [foldl_saturatingAdd _ _ (Nat.zero_le _), sum]
    omega
  have each : ∀ entry ∈ weights, entry.2 ≤ divisor := by
    intro entry member
    rw [← sum]
    exact le_sum_of_mem (mem_map_of_mem member)
  have exact_ : weights.map (share total divisor) = weights.map (fun entry =>
      { bucket := entry.1
        given := total * entry.2 / divisor
        remainder := total * entry.2 % divisor }) := by
    apply map_congr_left
    intro entry member
    have part := each entry member
    have quotient : total * entry.2 / divisor ≤ total :=
      Nat.div_le_of_le_mul (by rw [Nat.mul_comm divisor]; exact Nat.mul_le_mul_left _ part)
    exact share_eq small (by omega) (by omega)
  have whole := sum_floor_add_sum_rem total divisor Prod.snd weights
  rw [sum] at whole
  have floors : (weights.map fun entry => total * entry.2 / divisor).sum ≤ total := by
    apply Nat.le_of_mul_le_mul_right _ positive
    omega
  refine ⟨_, total - (weights.map fun entry => total * entry.2 / divisor).sum, ?_, rfl, ?_, ?_⟩
  · rw [shares, folded, exact_, map_map]
    simp only [Function.comp_def]
    rw [foldl_saturatingAdd _ _ (Nat.zero_le _), Nat.zero_add, Nat.min_eq_left (by omega)]
  · rw [map_map]
    simp only [Function.comp_def]
    omega
  · rw [map_map]
    simp only [Function.comp_def]
    rw [Nat.sub_mul]
    omega

theorem near_shares (small : total ≤ u64Max) (positive : 0 < (weights.map Prod.snd).sum)
    (fits : (weights.map Prod.snd).sum ≤ u64Max) :
    List.Forall₂ (Near total (weights.map Prod.snd).sum) weights (shares total weights) ∧
      ((shares total weights).map (·.given)).sum = total := by
  obtain ⟨floors, left, worked, floors_eq, given, remainders⟩ := shares_eq small positive fits
  generalize (weights.map Prod.snd).sum = divisor at positive fits floors_eq remainders ⊢
  have below : ∀ share ∈ floors, share.remainder < divisor := by
    intro share member
    rw [floors_eq] at member
    obtain ⟨entry, -, rfl⟩ := mem_map.mp member
    exact Nat.mod_lt _ positive
  have room : left ≤ (order floors).length := by
    rw [length_order, ← length_map (·.remainder)]
    apply Apportion.count_le_length positive _ remainders
    intro number member
    obtain ⟨share, inside, rfl⟩ := mem_map.mp member
    exact below share inside
  have one : 0 < left → ∀ share ∈ floors, (oneMore share).given = share.given + 1 := by
    intro some_ share member
    have part : share.given ≤ (floors.map (·.given)).sum :=
      le_sum_of_mem (mem_map_of_mem member)
    simp only [oneMore, saturatingAdd]
    omega
  rw [worked]
  constructor
  · have length : weights.length = floors.length := by rw [floors_eq, length_map]
    apply forall₂_of_length_eq_of_get
    · rw [length_handOut, length]
    · intro place here there
      have floor : floors[place]? = some
          { bucket := weights[place].1
            given := total * weights[place].2 / divisor
            remainder := total * weights[place].2 % divisor } := by
        rw [floors_eq, getElem?_map, getElem?_eq_getElem here]
        rfl
      have held := @Apportion.getElem?_handOut _ oneMore _ _ (nodup_order floors)
        (order_inside floors) left place
      rw [getElem?_eq_getElem there, floor] at held
      show Near total divisor weights[place] (Apportion.handOut oneMore left (order floors) floors)[place]
      by_cases picked : place ∈ (order floors).take left
      · have more := remainder_pos_of_order positive below remainders picked floor
        have left_pos : 0 < left := by
          by_contra zero
          rw [show left = 0 by omega, take_zero] at picked
          cases picked
        have bumped := one left_pos _ (mem_of_getElem? floor)
        rw [if_pos picked, Option.map_some] at held
        rw [Option.some.inj held]
        exact near_floor positive rfl (Or.inr ⟨bumped, more⟩)
      · rw [if_neg picked] at held
        rw [Option.some.inj held]
        exact near_floor positive rfl (Or.inl rfl)
  · by_cases some_ : 0 < left
    · rw [sum_handOut (nodup_order floors) (order_inside floors) (one some_) room, given]
    · have zero : left = 0 := by omega
      rw [zero, handOut_zero]
      omega

/-- How many entries name a bucket. -/
def entries (weights : List (List Char × Nat)) (bucket : List Char) : Nat :=
  weights.countP (·.1 = bucket)

/-- A split is exact: distinct buckets that sum to the total, and each one less than a unit for each
of its entries from its exact part. -/
structure Exact (total : Nat) (weights result : List (List Char × Nat)) : Prop where
  distinct : (result.map Prod.fst).Nodup
  sums : (result.map Prod.snd).sum = total
  near : (weights.map Prod.snd).sum ≠ 0 → ∀ bucket given, (bucket, given) ∈ result →
    given * (weights.map Prod.snd).sum < total * Buckets.posted weights bucket +
        entries weights bucket * (weights.map Prod.snd).sum ∧
      total * Buckets.posted weights bucket < given * (weights.map Prod.snd).sum +
        entries weights bucket * (weights.map Prod.snd).sum

variable {given : List Share}

theorem near_bucket (near : List.Forall₂ (Near total sum) weights given)
    (bucket : List Char) :
    Buckets.posted (given.map fun share => (share.bucket, share.given)) bucket * sum +
        entries weights bucket ≤
      total * Buckets.posted weights bucket + entries weights bucket * sum ∧
    total * Buckets.posted weights bucket + entries weights bucket ≤
      Buckets.posted (given.map fun share => (share.bucket, share.given)) bucket * sum +
        entries weights bucket * sum := by
  induction near with
  | nil => simp [Buckets.posted, entries]
  | @cons entry share weights given close _ ih =>
    obtain ⟨named, upper, lower⟩ := close
    simp only [Buckets.posted, entries] at ih ⊢
    by_cases same : entry.1 = bucket
    · simp only [map_cons, named, same, decide_true, filter_cons_of_pos,
        sum_cons, countP_cons_of_pos, Nat.add_mul, Nat.mul_add, Nat.one_mul]
      omega
    · simp only [map_cons, named, same, decide_false, Bool.false_eq_true, not_false_eq_true,
        filter_cons_of_neg, countP_cons_of_neg]
      exact ih

theorem map_bucket (near : List.Forall₂ (Near total sum) weights given) :
    given.map (·.bucket) = weights.map Prod.fst := by
  induction near with
  | nil => rfl
  | cons close _ ih => rw [map_cons, map_cons, ih, close.1]

/-- A split is exact while its weights fit 64 bits. -/
theorem split_exact (small : total ≤ u64Max) (fits : (weights.map Prod.snd).sum ≤ u64Max)
    (fallback : List Char) : Exact total weights (split total weights fallback) := by
  have folded : (weights.map Prod.snd).foldl saturatingAdd 0 = (weights.map Prod.snd).sum := by
    rw [foldl_saturatingAdd _ _ (Nat.zero_le _)]
    omega
  by_cases zero : (weights.map Prod.snd).sum = 0
  · have alone : split total weights fallback = [(fallback, total)] := by
      rw [split, folded, zero]
      simp
    rw [alone]
    exact ⟨by simp, by simp, fun nonzero => absurd zero nonzero⟩
  · have positive : 0 < (weights.map Prod.snd).sum := Nat.pos_of_ne_zero zero
    have some_ : weights ≠ [] := by
      rintro rfl
      exact zero rfl
    have merged : split total weights fallback = (Buckets.addAll ∅
        ((shares total weights).map fun share => (share.bucket, share.given))).toList := by
      rw [split, folded]
      simp [some_, zero]
    obtain ⟨near, sums⟩ := near_shares small positive fits
    rw [merged]
    generalize shares total weights = given at near sums ⊢
    have whole : (given.map fun share => (share.bucket, share.given)).map Prod.snd =
        given.map (·.given) := by
      rw [map_map]
      rfl
    have names : (given.map fun share => (share.bucket, share.given)).map Prod.fst =
        weights.map Prod.fst := by
      rw [map_map, ← map_bucket near]
      rfl
    refine ⟨nodup_fst_toList _, ?_, ?_⟩
    · have total_ := @Buckets.total_addAll ∅
        (given.map fun share => (share.bucket, share.given)) (by rw [whole, sums]; simpa using small)
      rw [whole, sums, total_empty, Nat.zero_add] at total_
      exact total_
    · intro _ bucket amount member
      rw [Std.ExtTreeMap.mem_toList_iff_getElem?_eq_some,
        Buckets.get_addAll (by simp), names] at member
      by_cases named : bucket ∈ weights.map Prod.fst
      · rw [if_pos named] at member
        have below : Buckets.posted (given.map fun share => (share.bucket, share.given)) bucket ≤
            total := by
          rw [← sums, ← whole, Buckets.posted]
          exact (filter_sublist.map Prod.snd).sum_le_sum fun _ _ => Nat.zero_le _
        have held : amount =
            Buckets.posted (given.map fun share => (share.bucket, share.given)) bucket := by
          have value := Option.some.inj member
          simp only [Std.ExtTreeMap.getElem?_empty, Option.getD_none] at value
          omega
        have counted : 0 < entries weights bucket := by
          obtain ⟨entry, inside, rfl⟩ := mem_map.mp named
          exact countP_pos_iff.mpr ⟨entry, inside, by simp⟩
        have bounds := near_bucket near bucket
        rw [held]
        omega
      · rw [if_neg named] at member
        simp at member

/-- Weights under names that are all different. -/
def named (values : List Nat) : List (List Char × Nat) :=
  values.zipIdx.map fun entry => (List.replicate entry.2 'a', entry.1)

theorem map_snd_named (values : List Nat) : (named values).map Prod.snd = values := by
  rw [named, map_map]
  exact zipIdx_map_fst 0 values

theorem nodup_named (values : List Nat) : ((named values).map Prod.fst).Nodup := by
  have lengths : ((named values).map Prod.fst).map List.length = List.range values.length := by
    rw [named, map_map, map_map, range_eq_range', ← zipIdx_map_snd]
    apply map_congr_left
    intro entry _
    simp
  apply List.Nodup.of_map List.length
  rw [lengths]
  exact nodup_range

/-- Weights past 64 bits split the largest bill into more than it is. -/
theorem sum_split_of_overflow {values : List Nat} (each : ∀ value ∈ values, value ≤ u64Max)
    (past : u64Max < values.sum) (fallback : List Char) :
    ((split u64Max (named values) fallback).map Prod.snd).sum = values.sum := by
  have positive : 0 < u64Max := by decide
  have folded : ((named values).map Prod.snd).foldl saturatingAdd 0 = u64Max := by
    rw [map_snd_named, foldl_saturatingAdd _ _ (Nat.zero_le _)]
    omega
  have exact_ : (named values).map (share u64Max u64Max) =
      (named values).map fun entry => { bucket := entry.1, given := entry.2, remainder := 0 } := by
    apply map_congr_left
    intro entry member
    have small : entry.2 ≤ u64Max := by
      apply each
      rw [← map_snd_named values]
      exact mem_map_of_mem member
    have quotient : u64Max * entry.2 / u64Max = entry.2 := Nat.mul_div_cancel_left _ positive
    rw [share_eq (Nat.le_refl _) small (by omega), quotient, Nat.mul_mod_right]
  have floors : shares u64Max (named values) =
      (named values).map fun entry => { bucket := entry.1, given := entry.2, remainder := 0 } := by
    rw [shares, folded, exact_, map_map]
    have given : (named values).map ((·.given) ∘ fun entry =>
        ({ bucket := entry.1, given := entry.2, remainder := 0 } : Share)) = values :=
      map_snd_named values
    rw [given, foldl_saturatingAdd _ _ (Nat.zero_le _), Nat.zero_add, Nat.min_eq_right (by omega),
      Nat.sub_self, handOut_zero]
  have some_ : named values ≠ [] := by
    intro empty
    have none_ := map_snd_named values
    rw [empty, map_nil] at none_
    rw [← none_] at past
    exact absurd past (by decide)
  have merged : split u64Max (named values) fallback =
      (Buckets.addAll ∅ (named values)).toList := by
    rw [split, folded, floors, map_map]
    simp [some_, positive.ne', Function.comp_def]
  have total_ := @Buckets.total_addAll_of_nodup ∅ (named values) (nodup_named values)
    (fun entry member => each _ (map_snd_named values ▸ mem_map_of_mem member)) (by simp)
  rw [total_empty, Nat.zero_add, map_snd_named] at total_
  rw [merged]
  exact total_

end Split

end Sprawling
