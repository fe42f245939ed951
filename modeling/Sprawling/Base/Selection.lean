import Mathlib.Algebra.GroupWithZero.Nat
import Mathlib.Data.List.Nodup

/-! Selecting from a list: the items ranked best, and the listing that says what was left out. -/

namespace Selection

open List

section Ranking

variable {α : Type} {lt : α → α → Bool}

theorem mem_take_iff (asymm : ∀ a b, lt a b = true → lt b a = false) {ranked : List α}
    (sorted : ranked.Pairwise fun a b => lt a b = true) {k : Nat} {x : α} :
    x ∈ ranked.take k ↔ x ∈ ranked ∧ (ranked.filter (lt · x)).length < k := by
  induction ranked generalizing k with
  | nil => simp
  | cons first later ih =>
    obtain ⟨ahead, sorted⟩ := pairwise_cons.mp sorted
    cases k with
    | zero => simp
    | succ k =>
      by_cases same : x = first
      · subst same
        have self : lt x x = false := by
          by_cases loop : lt x x = true
          · exact asymm x x loop
          · simpa using loop
        have none_before : later.filter (lt · x) = [] := by
          rw [filter_eq_nil_iff]
          intro other member behind
          have back := asymm _ _ behind
          rw [ahead other member] at back
          cases back
        simp [self, none_before]
      · rw [take_succ_cons, mem_cons, mem_cons]
        simp only [same, false_or]
        rw [ih sorted]
        constructor
        · intro listed
          refine ⟨listed.1, ?_⟩
          rw [filter_cons_of_pos (by simpa using ahead x listed.1), length_cons]
          omega
        · intro listed
          refine ⟨listed.1, ?_⟩
          have count := listed.2
          rw [filter_cons_of_pos (by simpa using ahead x listed.1), length_cons] at count
          omega

/-- Of items sorted by a strict order, the first `k` are those with fewer than `k` before them. -/
theorem mem_take_mergeSort_iff (asymm : ∀ a b, lt a b = true → lt b a = false)
    (trans : ∀ a b c, lt a b = true → lt b c = true → lt a c = true)
    (total : ∀ a b, lt a b = true ∨ a = b ∨ lt b a = true) {items : List α} (once : items.Nodup)
    {k : Nat} {x : α} :
    x ∈ (items.mergeSort fun a b => !lt b a).take k ↔
      x ∈ items ∧ (items.filter (lt · x)).length < k := by
  have perm := mergeSort_perm items fun a b => !lt b a
  have weak := @pairwise_mergeSort α (fun a b => !lt b a)
    (by
      intro a b c first second
      simp only [Bool.not_eq_true'] at first second ⊢
      by_cases back : lt c a = true
      · rcases total a b with before | rfl | after
        · rw [trans c a b back before] at second
          cases second
        · rw [back] at second
          cases second
        · rw [after] at first
          cases first
      · simpa using back)
    (by
      intro a b
      by_cases before : lt b a = true
      · simp [asymm _ _ before]
      · simp [Bool.eq_false_iff.mpr before])
    items
  have sorted : (items.mergeSort fun a b => !lt b a).Pairwise fun a b => lt a b = true := by
    refine (weak.and (perm.nodup_iff.mpr once)).imp ?_
    intro a b both
    obtain ⟨order, apart⟩ := both
    rcases total a b with before | same | after
    · exact before
    · exact absurd same apart
    · rw [after] at order
      cases order
  rw [mem_take_iff asymm sorted, perm.mem_iff, (perm.filter _).length_eq]

end Ranking

/-- One place of a listing: a line, or how many lines were left out there. -/
inductive Item (α : Type) where
  | line (value : α)
  | gap (omitted : Nat)

namespace Item

variable {α : Type}

/-- The lines a place of a listing stands for. -/
def size : Item α → Nat
  | .line _ => 1
  | .gap omitted => omitted

end Item

/-- A listing of lines numbered from a place on: the kept ones verbatim, and one gap for each longest
run of the others. -/
inductive Tells {α : Type} (keep : Nat → Prop) : Nat → List α → List (Item α) → Prop where
  | done (place : Nat) : Tells keep place [] []
  | line {place : Nat} {rest : List α} {items : List (Item α)} (value : α) (kept : keep place)
      (later : Tells keep (place + 1) rest items) : Tells keep place (value :: rest) (.line value :: items)
  | gap {place : Nat} {rest : List α} {items : List (Item α)} (omitted : List α) (some_line : omitted ≠ [])
      (dropped : ∀ index, index < omitted.length → ¬ keep (place + index))
      (longest : rest = [] ∨ keep (place + omitted.length))
      (later : Tells keep (place + omitted.length) rest items) :
      Tells keep place (omitted ++ rest) (.gap omitted.length :: items)

namespace Tells

variable {α : Type} {keep : Nat → Prop} {place : Nat} {lines : List α} {items : List (Item α)}

theorem sum_size (tells : Tells keep place lines items) : (items.map Item.size).sum = lines.length := by
  induction tells with
  | done => rfl
  | line value kept later ih =>
    rw [map_cons, sum_cons, ih, length_cons, Item.size, Nat.add_comm]
  | gap omitted some_line dropped longest later ih =>
    rw [map_cons, sum_cons, ih, length_append, Item.size]

theorem append_kept {block : List α} (kept : ∀ index, index < block.length → keep (place + index))
    (later : Tells keep (place + block.length) lines items) :
    Tells keep place (block ++ lines) (block.map Item.line ++ items) := by
  induction block generalizing place with
  | nil => exact later
  | cons value rest ih =>
    have onward : Tells keep (place + 1 + rest.length) lines items := by
      rwa [Nat.add_assoc, Nat.add_comm 1]
    refine .line value (kept 0 (Nat.succ_pos _)) (ih (fun index inside => ?_) onward)
    have shifted := kept (index + 1) (by simpa using inside)
    rwa [Nat.add_right_comm, Nat.add_assoc]

theorem of_kept (kept : ∀ index, index < lines.length → keep (place + index)) :
    Tells keep place lines (lines.map Item.line) := by
  have alone := append_kept kept (.done _)
  rwa [append_nil, append_nil] at alone

theorem congr {other : Nat → Prop} (same : ∀ index, place ≤ index → (keep index ↔ other index))
    (tells : Tells keep place lines items) : Tells other place lines items := by
  induction tells with
  | done place => exact .done place
  | line value kept later ih =>
    exact .line value ((same _ (Nat.le_refl _)).mp kept) (ih fun index order => same index (by omega))
  | gap omitted some_line dropped longest later ih =>
    refine .gap omitted some_line (fun index inside keeps => dropped index inside ?_) ?_
      (ih fun index order => same index (by omega))
    · exact (same _ (Nat.le_add_right _ _)).mpr keeps
    · exact longest.imp_right (same _ (Nat.le_add_right _ _)).mp

/-- A kept line is in the listing. -/
theorem line_mem (tells : Tells keep place lines items) {index : Nat} {value : α}
    (here : lines[index]? = some value) (kept : keep (place + index)) : Item.line value ∈ items := by
  induction tells generalizing index with
  | done => cases here
  | line value kept later ih =>
    cases index with
    | zero =>
      cases here
      exact mem_cons_self
    | succ index =>
      refine mem_cons_of_mem _ (ih here ?_)
      rwa [Nat.add_assoc, Nat.add_comm 1]
  | gap omitted some_line dropped longest later ih =>
    by_cases inside : index < omitted.length
    · exact absurd kept (dropped index inside)
    · rw [getElem?_append_right (by omega)] at here
      refine mem_cons_of_mem _ (ih here ?_)
      rw [Nat.add_assoc, Nat.add_sub_cancel' (by omega)]
      exact kept

theorem ne_nil (tells : Tells keep place lines items) (some_line : lines ≠ []) : items ≠ [] := by
  cases tells with
  | done => exact absurd rfl some_line
  | line => exact cons_ne_nil _ _
  | gap => exact cons_ne_nil _ _

end Tells

end Selection
