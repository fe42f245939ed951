import Mathlib.Data.List.Perm.Basic

/-! Lists that interleave the same parts, and what each item finds before it in its own part. -/

namespace Interleaving

variable {α κ : Type} [DecidableEq α] [DecidableEq κ]

def part (key : α → κ) (items : List α) (one : κ) : List α := items.filter (key · = one)

/-- Two lists interleave the same parts. -/
def SameParts (key : α → κ) (first second : List α) : Prop :=
  ∀ one, part key first one = part key second one

/-- Each item with the items of its own part that came before it. -/
def annotate (key : α → κ) : List α → List α → List (List α × α)
  | _, [] => []
  | before, item :: rest =>
    (part key before (key item), item) :: annotate key (before ++ [item]) rest

omit [DecidableEq α] in
theorem part_append (key : α → κ) (first second : List α) (one : κ) :
    part key (first ++ second) one = part key first one ++ part key second one :=
  List.filter_append first second

omit [DecidableEq α] in
theorem filter_annotate (key : α → κ) (before items : List α) (one : κ) :
    (annotate key before items).filter (fun entry => key entry.2 = one) =
      annotate key (part key before one) (part key items one) := by
  induction items generalizing before with
  | nil => rfl
  | cons item rest ih =>
    by_cases same : key item = one
    · have kept : part key (item :: rest) one = item :: part key rest one := by
        simp [part, same]
      have twice : part key (part key before one) (key item) = part key before (key item) := by
        rw [same, part, part, List.filter_filter]
        simp
      rw [annotate, List.filter_cons_of_pos (by simpa using same), kept, annotate, twice, ih,
        part_append]
      simp [part, same]
    · have dropped : part key (item :: rest) one = part key rest one := by
        simp [part, same]
      rw [annotate, List.filter_cons_of_neg (by simpa using same), dropped, ih, part_append]
      simp [part, same]

theorem annotate_perm {key : α → κ} {first second : List α} (same : SameParts key first second) :
    (annotate key [] first).Perm (annotate key [] second) := by
  rw [List.perm_iff_count]
  intro entry
  have count : ∀ items : List α, (annotate key [] items).count entry =
      (annotate key (part key [] (key entry.2)) (part key items (key entry.2))).count entry := by
    intro items
    rw [← filter_annotate, List.count_filter]
    simp
  rw [count, count, same]

end Interleaving
