import Mathlib.Data.List.Induction
import Mathlib.Data.List.Nodup
import Sprawling.Base.Trace

/-! What a history says of its past: that something happened at one of its records and nothing of a
kind has happened since. -/

namespace Sprawling

open List

variable {α : Type}

/-- A record of a history at which `happens` held, with the records before it, and after which every
record, with those before it, is as `quiet` says. -/
def Since (happens quiet : List α → α → Prop) (history : List α) : Prop :=
  ∃ before record after, history = before ++ record :: after ∧ happens before record ∧
    ∀ mid later rest, after = mid ++ later :: rest → quiet (before ++ record :: mid) later

namespace Since

variable {happens quiet : List α → α → Prop} {history : List α} {record : α}

theorem not_nil : ¬Since happens quiet [] := by
  rintro ⟨before, record, after, impossible, -⟩
  simp at impossible

/-- One record more: it happens there, or it had happened and the record is quiet. -/
theorem concat_iff :
    Since happens quiet (history ++ [record]) ↔
      happens history record ∨ Since happens quiet history ∧ quiet history record := by
  constructor
  · rintro ⟨before, found, after, joined, held, calm⟩
    rcases eq_nil_or_concat after with rfl | ⟨earlier, last, rfl⟩
    · obtain ⟨rfl, one⟩ := append_inj' joined rfl
      cases one
      exact .inl held
    · rw [concat_eq_append, ← cons_append, ← append_assoc] at joined
      obtain ⟨rfl, one⟩ := append_inj' joined rfl
      cases one
      refine .inr ⟨⟨before, found, earlier, rfl, held, ?_⟩, ?_⟩
      · rintro mid later rest rfl
        exact calm mid later (rest ++ [record]) (by simp)
      · exact calm earlier record [] (by simp)
  · rintro (held | ⟨⟨before, found, after, rfl, held, calm⟩, now⟩)
    · refine ⟨history, record, [], rfl, held, ?_⟩
      intro mid later rest impossible
      simp at impossible
    · refine ⟨before, found, after ++ [record], by simp, held, ?_⟩
      intro mid later rest joined
      rcases eq_nil_or_concat rest with rfl | ⟨earlier, last, rfl⟩
      · obtain ⟨rfl, one⟩ := append_inj' joined rfl
        cases one
        exact now
      · rw [concat_eq_append, ← cons_append, ← append_assoc] at joined
        exact calm mid later earlier (append_inj' joined rfl).1

theorem imp {happens' quiet' : List α → α → Prop} (since : Since happens quiet history)
    (onward : ∀ before, ∀ record ∈ history, happens before record → happens' before record)
    (calm : ∀ before, ∀ record ∈ history, quiet before record → quiet' before record) :
    Since happens' quiet' history := by
  obtain ⟨before, found, after, rfl, held, still⟩ := since
  refine ⟨before, found, after, rfl,
    onward before found (mem_append_right _ mem_cons_self) held, ?_⟩
  rintro mid later rest rfl
  exact calm _ later (by simp) (still mid later rest rfl)

/-- What happened happened no earlier than a record that is not quiet. -/
theorem from_loud {first middle : List α} {one : α} (since : Since happens quiet (first ++ one :: middle))
    (loud : ¬quiet first one) : ∃ before, ∃ found ∈ one :: middle, happens before found := by
  obtain ⟨before, found, after, place, held, calm⟩ := since
  refine ⟨before, found, ?_, held⟩
  rcases append_eq_append_iff.mp place.symm with ⟨shared, same, tail⟩ | ⟨shared, -, tail⟩
  · cases shared with
    | nil =>
      rw [nil_append] at tail
      rw [← tail]
      exact mem_cons_self
    | cons head shared =>
      rw [cons_append] at tail
      injection tail with head_same tail
      subst head_same
      rw [same] at loud
      exact absurd (calm shared one middle tail) loud
  · rw [tail]
    exact mem_append_right _ mem_cons_self

/-- What happens once in a history, and is spent by the next record of a kind, is spent once. -/
theorem spent_once {β : Type} {mark : α → Option β} {value : β} {spends : List α → α → Prop}
    (distinct : (history.filterMap mark).Nodup) {first rest second later : List α} {one other : α}
    (here : history = first ++ one :: rest) (there : history = second ++ other :: later)
    (spent : spends first one)
    (since : Since (fun _ record => mark record = some value) (fun before record => ¬spends before record)
      first)
    (again : Since (fun _ record => mark record = some value) (fun before record => ¬spends before record)
      second) : ¬first.length < second.length := by
  intro earlier
  obtain ⟨middle, joined, -⟩ := Trace.place_before here there earlier
  have marks : ((first ++ one :: middle).filterMap mark).Nodup := by
    rw [← joined]
    rw [there, filterMap_append] at distinct
    exact (nodup_append.mp distinct).1
  rw [filterMap_append, nodup_append] at marks
  -- the second time is due to a second such record, for the first one had been spent
  rw [joined] at again
  obtain ⟨-, found, behind, marked'⟩ := again.from_loud (not_not_intro spent)
  obtain ⟨early, begun, late, rfl, marked, -⟩ := since
  have first_time : value ∈ (early ++ begun :: late).filterMap mark :=
    mem_filterMap.mpr ⟨begun, mem_append_right _ mem_cons_self, marked⟩
  exact marks.2.2 value first_time value (mem_filterMap.mpr ⟨found, behind, marked'⟩) rfl

theorem of_map {β : Type} {reading : β → α} {records : List β}
    (since : Since happens quiet (records.map reading)) :
    Since (fun before record => happens (before.map reading) (reading record))
      (fun before record => quiet (before.map reading) (reading record)) records := by
  induction records using List.reverseRecOn with
  | nil => exact absurd since not_nil
  | append_singleton records record ih =>
    rw [map_append, map_singleton, concat_iff] at since
    exact concat_iff.mpr (since.imp_right fun held => ⟨ih held.1, held.2⟩)

end Since

end Sprawling
