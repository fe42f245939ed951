import Mathlib.Data.List.Induction

/-! Two readings of one input, and the item at which they part. One reading follows the other through
a view of its state until an item departs; a departure shows at once. -/

namespace Sprawling

open List

/-- A reading `first` that `second` follows through `view`, but for the items that depart. -/
structure Following {σ τ α ω : Type} (first : σ → α → σ) (second : τ → α → τ) (view : σ → τ)
    (seen : τ → ω) (departs : τ → α → Prop) : Prop where
  along : ∀ state item, ¬departs (view state) item →
    view (first state item) = second (view state) item
  apart : ∀ state item, departs (view state) item →
    seen (view (first state item)) ≠ seen (second (view state) item)

namespace Following

variable {σ τ α ω : Type} {first : σ → α → σ} {second : τ → α → τ} {view : σ → τ} {seen : τ → ω}
  {departs : τ → α → Prop}

/-- No item departs from what the items before it leave. -/
def Keeps (second : τ → α → τ) (departs : τ → α → Prop) (start : τ) (items : List α) : Prop :=
  ∀ before item after, items = before ++ item :: after →
    ¬departs (before.foldl second start) item

theorem Keeps.of_prefix {start : τ} {items read : List α} (keeps : Keeps second departs start items)
    (part : read <+: items) : Keeps second departs start read := by
  obtain ⟨rest, rfl⟩ := part
  rintro before item after rfl
  exact keeps before item (after ++ rest) (by rw [append_assoc, cons_append])

theorem in_step (follows : Following first second view seen departs) {start : σ} {items : List α}
    (keeps : Keeps second departs (view start) items) :
    view (items.foldl first start) = items.foldl second (view start) := by
  induction items using List.reverseRecOn with
  | nil => rfl
  | append_singleton before item ih =>
    have earlier := ih (keeps.of_prefix (prefix_append before [item]))
    have stays := keeps before item [] rfl
    rw [foldl_append, foldl_append, foldl_cons, foldl_cons, foldl_nil, foldl_nil, ← earlier]
    rw [← earlier] at stays
    exact follows.along _ _ stays

/-- The readings show the same after every item exactly when no item departs. -/
theorem shows_iff (follows : Following first second view seen departs) {start : σ} {items : List α} :
    (∀ read, read <+: items →
      seen (view (read.foldl first start)) = seen (read.foldl second (view start))) ↔
      Keeps second departs (view start) items := by
  constructor
  · intro same
    induction items using List.reverseRecOn with
    | nil =>
      rintro before item after impossible
      simp at impossible
    | append_singleton earlier last ih =>
      have kept := ih fun read part => same read (part.trans (prefix_append earlier [last]))
      rintro before item after joined
      rcases eq_nil_or_concat after with rfl | ⟨rest, final, rfl⟩
      · obtain ⟨rfl, one⟩ := append_inj' joined rfl
        cases one
        have here := same _ (prefix_refl _)
        rw [foldl_append, foldl_append, foldl_cons, foldl_cons,
          foldl_nil, foldl_nil, ← follows.in_step kept] at here
        rw [← follows.in_step kept]
        exact fun departed => follows.apart _ _ departed here
      · rw [concat_eq_append, ← cons_append, ← append_assoc] at joined
        exact kept before item rest (append_inj' joined rfl).1
  · intro keeps read part
    exact congrArg seen (follows.in_step (keeps.of_prefix part))

end Following

end Sprawling
