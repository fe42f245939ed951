import Mathlib.Algebra.GroupWithZero.Nat
import Mathlib.Algebra.BigOperators.Group.List.Basic
import Mathlib.Data.List.Nodup
import Std.Data.ExtTreeMap.Lemmas

/-- A map kept in the order of its keys. -/
abbrev OrdMap (κ ν : Type) [Ord κ] := Std.ExtTreeMap κ ν compare

namespace OrdMap

open List
open Std.ExtTreeMap (nodup_keys ordered_keys mem_toList_iff_getElem?_eq_some ordered_keys_toList)

section Keyed

variable {κ σ : Type} [Ord κ] [Ord σ] {key : κ → σ}

variable (read : ∀ first second : κ, compare first second = compare (key first) (key second))

include read

theorem transOrd_of_key [Std.TransOrd σ] :
    Std.TransOrd κ where
  eq_swap {first second} := by
    simp only [read]
    exact Std.OrientedCmp.eq_swap
  isLE_trans {first second third} lower upper := by
    simp only [read] at lower upper ⊢
    exact Std.TransCmp.isLE_trans lower upper

theorem lawfulEqOrd_of_key [Std.TransOrd κ] [Std.LawfulEqOrd σ]
    (alone : ∀ first second : κ, key first = key second → first = second) :
    Std.LawfulEqOrd κ where
  eq_of_compare {first second} same := by
    rw [read] at same
    exact alone first second (Std.LawfulEqCmp.eq_of_compare same)

end Keyed

section Order

variable {κ ν : Type} [Ord κ] [Std.TransOrd κ]

theorem mem_iff_get (map : OrdMap κ ν) (key : κ) : key ∈ map ↔ ∃ value, map[key]? = some value := by
  rw [Std.ExtTreeMap.mem_iff_isSome_getElem?, Option.isSome_iff_exists]

theorem nodup_fst_toList (map : OrdMap κ ν) : (map.toList.map Prod.fst).Nodup := by
  rw [Std.ExtTreeMap.map_fst_toList_eq_keys]
  exact nodup_keys

end Order

section Lawful

variable {κ ν : Type} [Ord κ] [Std.TransOrd κ] [Std.LawfulEqOrd κ]

@[simp] theorem get_insert [DecidableEq κ] (map : OrdMap κ ν) (key other : κ) (value : ν) :
    (map.insert key value)[other]? = if key = other then some value else map[other]? := by
  simp [Std.ExtTreeMap.getElem?_insert]

@[simp] theorem get_erase [DecidableEq κ] (map : OrdMap κ ν) (key other : κ) :
    (map.erase key)[other]? = if key = other then none else map[other]? := by
  simp [Std.ExtTreeMap.getElem?_erase]

variable {map : OrdMap κ ν}

/-- Keys picked out of two maps come in the same order. -/
theorem filter_keys_congr {ν' : Type} {other : OrdMap κ ν'} {picked : κ → Bool}
    (same : ∀ key : κ, picked key = true → (key ∈ map ↔ key ∈ other)) :
    map.keys.filter picked = other.keys.filter picked := by
  have perm : (map.keys.filter picked).Perm (other.keys.filter picked) := by
    rw [perm_ext_iff_of_nodup (nodup_keys.filter _)
      (nodup_keys.filter _)]
    intro key
    rw [mem_filter, mem_filter, Std.ExtTreeMap.mem_keys, Std.ExtTreeMap.mem_keys]
    exact and_congr_left (same key)
  apply List.Perm.eq_of_pairwise _ (ordered_keys.filter _)
    (ordered_keys.filter _) perm
  intro first second _ _ less more
  rw [Std.OrientedOrd.eq_swap, less] at more
  cases more

theorem keys_congr {ν' : Type} {other : OrdMap κ ν'} (same : ∀ key : κ, key ∈ map ↔ key ∈ other) :
    map.keys = other.keys := by
  have all : map.keys.filter (fun _ => true) = other.keys.filter (fun _ => true) :=
    filter_keys_congr fun key _ => same key
  rwa [filter_eq_self.mpr fun _ _ => rfl, filter_eq_self.mpr fun _ _ => rfl] at all

theorem toList_insert_perm [DecidableEq κ] (map : OrdMap κ ν) (key : κ) (value : ν) :
    (map.insert key value).toList.Perm
      ((key, value) :: map.toList.filter (fun entry => entry.1 ≠ key)) := by
  have distinct : map.toList.Nodup := List.Nodup.of_map _ (nodup_fst_toList map)
  rw [perm_ext_iff_of_nodup (List.Nodup.of_map _ (nodup_fst_toList _))]
  · rintro ⟨other, held⟩
    rw [mem_toList_iff_getElem?_eq_some, get_insert, mem_cons, mem_filter,
      mem_toList_iff_getElem?_eq_some]
    by_cases same : key = other
    · simp [same, eq_comm]
    · simp [same, Ne.symm same]
  · refine nodup_cons.mpr ⟨?_, distinct.filter _⟩
    simp

variable {key : κ} {value : ν}

theorem insert_same [DecidableEq κ] (found : map[key]? = some value) :
    map.insert key value = map := by
  apply Std.ExtTreeMap.ext_getElem?
  intro other
  rw [get_insert]
  split
  · next same => rw [← same, found]
  · rfl

theorem insert_insert [DecidableEq κ] {other : ν} :
    (map.insert key value).insert key other = map.insert key other := by
  apply Std.ExtTreeMap.ext_getElem?
  intro place
  rw [get_insert, get_insert, get_insert]
  split <;> rfl

theorem toList_perm_of_get [DecidableEq κ] (found : map[key]? = some value) :
    map.toList.Perm ((key, value) :: map.toList.filter (fun entry => entry.1 ≠ key)) := by
  have perm := toList_insert_perm map key value
  rwa [insert_same found] at perm

/-- Entries listed in the order of their keys are the map's list when they are its entries. -/
theorem toList_eq_of_pairwise {entries : List (κ × ν)}
    (ordered : entries.Pairwise fun first second => compare first.1 second.1 = .lt)
    (same : ∀ (key : κ) (value : ν), (key, value) ∈ entries ↔ map[key]? = some value) :
    map.toList = entries := by
  have apart : ∀ first second : κ × ν, compare first.1 second.1 = .lt →
      ¬ compare second.1 first.1 = .lt := by
    intro first second less more
    rw [Std.OrientedOrd.eq_swap, less] at more
    cases more
  have distinct : entries.Nodup := ordered.imp fun {first second} less equal => by
    subst equal
    exact apart first first less less
  have perm : map.toList.Perm entries := by
    rw [perm_ext_iff_of_nodup (List.Nodup.of_map _ (nodup_fst_toList map)) distinct]
    rintro ⟨key, value⟩
    rw [mem_toList_iff_getElem?_eq_some]
    exact (same key value).symm
  apply List.Perm.eq_of_pairwise _ ordered_keys_toList ordered perm
  intro first second _ _ less more
  exact absurd more (apart first second less)

/-- A map is collected again from its entries. -/
theorem ofList_toList [DecidableEq κ] (map : OrdMap κ ν) : Std.ExtTreeMap.ofList map.toList compare = map := by
  apply Std.ExtTreeMap.ext_getElem?
  intro key
  cases found : map[key]? with
  | none =>
    have absent : (map.toList.map Prod.fst).contains key = false := by
      rw [Bool.eq_false_iff, ne_eq, contains_iff_mem]
      intro member
      obtain ⟨⟨_, value⟩, inside, rfl⟩ := mem_map.mp member
      rw [mem_toList_iff_getElem?_eq_some.mp inside] at found
      cases found
    exact Std.ExtTreeMap.getElem?_ofList_of_contains_eq_false absent
  | some value =>
    exact Std.ExtTreeMap.getElem?_ofList_of_mem Std.ReflCmp.compare_self
      Std.ExtTreeMap.distinct_keys_toList
      (mem_toList_iff_getElem?_eq_some.mpr found)

/-- A key no key of the map passes goes last, and takes the place of what it held before. -/
theorem toList_insert_last [DecidableEq κ]
    (last : ∀ other : κ, other ∈ map → compare other key ≠ .gt) (value : ν) :
    (map.insert key value).toList =
      map.toList.filter (fun entry => entry.1 ≠ key) ++ [(key, value)] := by
  apply toList_eq_of_pairwise
  · have kept : (map.toList.filter fun entry => entry.1 ≠ key).Pairwise
        fun first second => compare first.1 second.1 = .lt := ordered_keys_toList.filter _
    rw [pairwise_append]
    refine ⟨kept, pairwise_singleton _ _, fun entry member single alone => ?_⟩
    rw [mem_singleton.mp alone]
    rw [mem_filter] at member
    have inside : entry.1 ∈ map :=
      (mem_iff_get map _).mpr ⟨entry.2, mem_toList_iff_getElem?_eq_some.mp member.1⟩
    have differ : entry.1 ≠ key := by simpa using member.2
    have below := last entry.1 inside
    cases order : compare entry.1 key with
    | lt => rfl
    | eq => exact absurd (Std.LawfulEqCmp.eq_of_compare order) differ
    | gt => exact absurd order below
  · intro other held
    rw [mem_append, mem_filter, mem_singleton, get_insert,
      mem_toList_iff_getElem?_eq_some]
    by_cases same : key = other
    · simp [same, eq_comm]
    · simp [same, Ne.symm same]

/-- The entry of a key, if any, and the entries of the other keys are all there are. -/
theorem toList_perm_split [DecidableEq κ] (map : OrdMap κ ν) (key : κ) :
    map.toList.Perm ((map[key]?).toList.map (fun value => (key, value))
      ++ map.toList.filter (fun entry => entry.1 ≠ key)) := by
  cases found : map[key]? with
  | some value => exact toList_perm_of_get found
  | none =>
    have all : map.toList.filter (fun entry => entry.1 ≠ key) = map.toList := by
      rw [filter_eq_self]
      rintro ⟨other, held⟩ member
      have here := mem_toList_iff_getElem?_eq_some.mp member
      have apart : other ≠ key := fun same => by
        rw [same, found] at here
        cases here
      simpa using apart
    rw [all]
    exact List.Perm.refl _

theorem toList_erase [DecidableEq κ] (map : OrdMap κ ν) (key : κ) :
    (map.erase key).toList = map.toList.filter (fun entry => entry.1 ≠ key) := by
  apply toList_eq_of_pairwise (ordered_keys_toList.filter _)
  intro other held
  rw [get_erase, mem_filter, mem_toList_iff_getElem?_eq_some]
  by_cases same : key = other
  · simp [same]
  · simp [same, Ne.symm same]

/-- Without its first entry a map lists the others. -/
theorem toList_erase_head [DecidableEq κ] {rest : List (κ × ν)}
    (first : map.toList = (key, value) :: rest) : (map.erase key).toList = rest := by
  have ordered := @Std.ExtTreeMap.ordered_keys_toList _ _ _ map _
  have distinct := nodup_fst_toList map
  rw [first] at ordered distinct
  rw [map_cons, nodup_cons] at distinct
  apply toList_eq_of_pairwise (pairwise_cons.mp ordered).2
  intro other held
  rw [get_erase]
  by_cases same : key = other
  · subst same
    simp only [if_true, reduceCtorEq, iff_false]
    exact fun member => distinct.1 (mem_map.mpr ⟨_, member, rfl⟩)
  · rw [if_neg same, ← mem_toList_iff_getElem?_eq_some, first, mem_cons]
    simp [Ne.symm same]

/-- Setting a key changes how many entries are picked by what it held and what it holds. -/
theorem countP_insert [DecidableEq κ] (map : OrdMap κ ν) (key : κ) (value : ν)
    (picked : κ × ν → Bool) :
    (map.insert key value).toList.countP picked +
        (if (map[key]?).any fun held => picked (key, held) then 1 else 0) =
      map.toList.countP picked + if picked (key, value) then 1 else 0 := by
  have after := (toList_insert_perm map key value).countP_eq picked
  rw [countP_cons] at after
  cases found : map[key]? with
  | some held =>
    have before := (toList_perm_of_get found).countP_eq picked
    rw [countP_cons] at before
    simp only [Option.any_some]
    omega
  | none =>
    have all : map.toList.filter (fun entry => entry.1 ≠ key) = map.toList := by
      rw [filter_eq_self]
      intro entry member
      have held := mem_toList_iff_getElem?_eq_some.mp member
      simp only [ne_eq, decide_not, Bool.not_eq_eq_eq_not, Bool.not_true, decide_eq_false_iff_not]
      intro same
      rw [same, found] at held
      cases held
    rw [all] at after
    simp only [Option.any_none, Bool.false_eq_true, if_false]
    omega

/-- Taking a key out leaves one entry less of those its value was picked among. -/
theorem countP_erase [DecidableEq κ] (found : map[key]? = some value) {picked : κ × ν → Bool}
    (held : picked (key, value) = true) :
    (map.erase key).toList.countP picked + 1 = map.toList.countP picked := by
  have back : (map.erase key).insert key value = map := by
    apply Std.ExtTreeMap.ext_getElem?
    intro other
    rw [get_insert, get_erase]
    by_cases same : key = other
    · rw [if_pos same, ← same, found]
    · rw [if_neg same, if_neg same]
  have count := countP_insert (map.erase key) key value picked
  rw [back, get_erase, if_pos rfl, held] at count
  simp only [Option.any_none, Bool.false_eq_true, if_false, if_true] at count
  omega

end Lawful

section Total

variable {κ : Type} [Ord κ] [Std.TransOrd κ]

def total (map : OrdMap κ Nat) : Nat := (map.toList.map Prod.snd).sum

@[simp] theorem total_empty : total (∅ : OrdMap κ Nat) = 0 := by
  have empty : (∅ : OrdMap κ Nat).toList = [] := Std.ExtTreeMap.toList_eq_nil_iff.mpr rfl
  rw [total, empty]
  rfl

variable [Std.LawfulEqOrd κ] [DecidableEq κ]

/-- Setting a key changes the sum by what it held and what it holds. -/
theorem total_insert (map : OrdMap κ Nat) (key : κ) (value : Nat) :
    total (map.insert key value) + (map[key]?).getD 0 = total map + value := by
  have after := ((toList_insert_perm map key value).map Prod.snd).sum_eq
  simp only [map_cons, sum_cons] at after
  cases found : map[key]? with
  | some held =>
    have before := ((toList_perm_of_get found).map Prod.snd).sum_eq
    simp only [map_cons, sum_cons] at before
    simp only [total, Option.getD_some]
    omega
  | none =>
    have all : map.toList.filter (fun entry => entry.1 ≠ key) = map.toList := by
      rw [filter_eq_self]
      intro entry member
      have held := mem_toList_iff_getElem?_eq_some.mp member
      simp only [ne_eq, decide_not, Bool.not_eq_eq_eq_not, Bool.not_true, decide_eq_false_iff_not]
      rintro rfl
      rw [found] at held
      cases held
    rw [all] at after
    simp only [total, Option.getD_none]
    omega

theorem get_le_total (map : OrdMap κ Nat) (key : κ) : (map[key]?).getD 0 ≤ total map := by
  have sum := total_insert map key 0
  omega

end Total

/-- The key no other key passes is the last one. -/
theorem getLast?_keys {ν : Type} {map : OrdMap Nat ν} {key : Nat} (member : key ∈ map)
    (most : ∀ other : Nat, other ∈ map → other ≤ key) : map.keys.getLast? = some key := by
  have listed := Std.ExtTreeMap.mem_keys.mpr member
  obtain ⟨front, last, shape⟩ := eq_nil_or_concat map.keys |>.resolve_left
    (ne_nil_of_mem listed)
  rw [concat_eq_append] at shape
  have ordered := @Std.ExtTreeMap.ordered_keys _ _ _ map _
  have final : last ∈ map.keys := by
    rw [shape]
    simp
  have below := most last (Std.ExtTreeMap.mem_keys.mp final)
  rw [shape] at listed ordered ⊢
  have same : last = key := by
    rcases mem_append.mp listed with earlier | here
    · have less := (pairwise_append.mp ordered).2.2 key earlier last (mem_singleton_self _)
      rw [Nat.compare_eq_lt] at less
      omega
    · exact (mem_singleton.mp here).symm
  rw [same]
  simp

end OrdMap
