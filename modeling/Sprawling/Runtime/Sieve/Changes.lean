import Sprawling.Base.Selection
import Sprawling.Runtime.Sieve.Stages

/-! Current lines with the runs the previous output also contained said as counts. -/

namespace Sprawling

open List

namespace Sieve

open Utf8 (byteLen)
open Selection (Item Tells)

/-- A run of unchanged lines at least this long is said as a count. -/
def unchangedRunFoldsAt : Nat := 2

def unchangedLine (count : Nat) : Line :=
  "[unchanged: ".toList ++ Text.decimal count ++ " lines, as in the previous run]".toList

/-- What is put out for a run of unchanged lines. -/
def flushRun (run : List Line) : List Line :=
  if unchangedRunFoldsAt ≤ run.length && byteLen (unchangedLine run.length) < bytesOf run then
    [unchangedLine run.length]
  else run

/-- The lines from here on, `run` being the unchanged ones passed last. -/
def changesFrom (previous : List Line) : (run : List Line) → List Line → List Line
  | run, [] => flushRun run
  | run, line :: rest =>
    if line ∈ previous then changesFrom previous (run ++ [line]) rest
    else flushRun run ++ line :: changesFrom previous [] rest

/-- Membership, not alignment: a line that moved is still not news. -/
def onlyChanges (current previous : List Line) : List Line := changesFrom previous [] current

/-- How a place of a listing of changes reads. -/
def shownChange : Item Line → Line
  | .line value => value
  | .gap omitted => unchangedLine omitted

theorem shownChange_lines (values : List Line) : (values.map Item.line).map shownChange = values := by
  rw [map_map]
  exact map_id values

theorem tells_flushRun {keep : Nat → Prop} {place : Nat} {run rest : List Line} {items : List (Item Line)}
    (longest : rest = [] ∨ keep (place + run.length)) (later : Tells keep (place + run.length) rest items) :
    ∃ other listing, Tells other place (run ++ rest) listing ∧
      listing.map shownChange = flushRun run ++ items.map shownChange ∧
        ∀ index, place + run.length ≤ index → (other index ↔ keep index) := by
  rw [flushRun]
  split
  · next folds =>
      have some_line : run ≠ [] := by
        intro empty
        rw [empty] at folds
        exact absurd folds (by decide)
      let other : Nat → Prop := fun index => place + run.length ≤ index ∧ keep index
      have same : ∀ index, place + run.length ≤ index → (keep index ↔ other index) :=
        fun index order => ⟨fun keeps => ⟨order, keeps⟩, And.right⟩
      refine ⟨other, _, .gap run some_line (fun index inside keeps => ?_) ?_ (later.congr same), rfl,
        fun index order => (same index order).symm⟩
      · exact absurd keeps.1 (by omega)
      · exact longest.imp_right fun keeps => ⟨Nat.le_refl _, keeps⟩
  · let other : Nat → Prop := fun index => index < place + run.length ∨ keep index
    have same : ∀ index, place + run.length ≤ index → (keep index ↔ other index) := by
      intro index order
      exact ⟨Or.inr, fun either => either.resolve_left (by omega)⟩
    refine ⟨other, _, Tells.append_kept (fun index inside => Or.inl (by omega)) (later.congr same), ?_,
      fun index order => (same index order).symm⟩
    rw [map_append, shownChange_lines]

theorem tells_changesFrom (previous : List Line) {run current : List Line} {place : Nat}
    (unchanged : ∀ line ∈ run, line ∈ previous) :
    ∃ keep items, Tells keep place (run ++ current) items ∧
      changesFrom previous run current = items.map shownChange ∧
        ∀ index line, (run ++ current)[index]? = some line → line ∉ previous → keep (place + index) := by
  induction current generalizing run place with
  | nil =>
    obtain ⟨keep, listing, tells, told, _⟩ := @tells_flushRun (fun _ => True) place run [] []
      (Or.inl rfl) (.done _)
    refine ⟨keep, listing, tells, ?_, ?_⟩
    · rw [told, changesFrom, map_nil, append_nil]
    · intro index line here new
      rw [append_nil] at here
      exact absurd (unchanged line (mem_of_getElem? here)) new
  | cons first rest ih =>
    by_cases seen : first ∈ previous
    · have more : ∀ line ∈ run ++ [first], line ∈ previous := by
        intro line member
        rcases mem_append.mp member with member | member
        · exact unchanged line member
        · rw [mem_singleton.mp member]
          exact seen
      have whole := @ih (run ++ [first]) place more
      rw [append_assoc, singleton_append] at whole
      rw [changesFrom, if_pos seen]
      exact whole
    · obtain ⟨keep, items, tells, told, news⟩ := @ih [] (place + run.length + 1)
        (fun _ member => nomatch member)
      rw [nil_append] at tells news
      let here : Nat → Prop := fun index => index = place + run.length ∨ keep index
      have same : ∀ index, place + run.length + 1 ≤ index → (keep index ↔ here index) := by
        intro index order
        exact ⟨Or.inr, fun either => either.resolve_left (by omega)⟩
      have line : Tells here (place + run.length) (first :: rest) (.line first :: items) :=
        .line first (Or.inl rfl) (tells.congr same)
      obtain ⟨other, listing, whole, reads, agrees⟩ := tells_flushRun (Or.inr (Or.inl rfl)) line
      refine ⟨other, listing, whole, ?_, ?_⟩
      · rw [reads, changesFrom, if_neg seen, told]
        rfl
      · intro index value there new
        by_cases early : index < run.length
        · rw [getElem?_append_left early] at there
          exact absurd (unchanged value (mem_of_getElem? there)) new
        · rw [agrees _ (by omega)]
          rw [getElem?_append_right (by omega)] at there
          cases past : index - run.length with
          | zero => exact Or.inl (by omega)
          | succ beyond =>
            rw [past, getElem?_cons_succ] at there
            have place_eq : place + index = place + run.length + 1 + beyond := by omega
            rw [place_eq]
            exact Or.inr (news beyond value there new)

theorem onlyChanges_tells (current previous : List Line) :
    ∃ keep items, Tells keep 0 current items ∧ onlyChanges current previous = items.map shownChange ∧
      (items.map Item.size).sum = current.length ∧
        ∀ index line, current[index]? = some line → line ∉ previous → keep index := by
  obtain ⟨keep, items, tells, told, news⟩ := @tells_changesFrom previous [] current 0
    (fun _ member => nomatch member)
  simp only [nil_append, Nat.zero_add] at tells news
  exact ⟨keep, items, tells, told, tells.sum_size, news⟩

theorem mem_onlyChanges {current previous : List Line} {line : Line} (member : line ∈ current)
    (new : line ∉ previous) : line ∈ onlyChanges current previous := by
  obtain ⟨keep, items, tells, told, _, news⟩ := onlyChanges_tells current previous
  obtain ⟨index, here⟩ := mem_iff_getElem?.mp member
  have kept : keep (0 + index) := by
    rw [Nat.zero_add]
    exact news index line here new
  rw [told]
  exact mem_map.mpr ⟨.line line, tells.line_mem here kept, rfl⟩

end Sieve

end Sprawling
