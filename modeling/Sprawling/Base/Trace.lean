/-! Traces, and what holds at each of their steps given the steps before. -/

namespace Trace

open List

variable {δ : Type} {due : List δ → δ → Prop}

/-- At every step of the trace, `due` holds of the steps before it and the step. -/
def Always (due : List δ → δ → Prop) (trace : List δ) : Prop :=
  ∀ before step after, trace = before ++ step :: after → due before step

theorem always_nil : Always due [] := by
  intro before step after split
  cases before <;> cases split

/-- A trace grows by a step that is as all before it. -/
theorem forall_concat {trace : List δ} {step : δ} {holds : δ → Prop}
    (old : ∀ one ∈ trace, holds one) (new : holds step) : ∀ one ∈ trace ++ [step], holds one :=
  forall_mem_append.mpr ⟨old, forall_mem_singleton.mpr new⟩

theorem place_concat {trace first rest : List δ} {step one : δ}
    (here : trace ++ [step] = first ++ one :: rest) :
    (rest = [] ∧ one = step ∧ first = trace) ∨
      ∃ shorter, rest = shorter ++ [step] ∧ trace = first ++ one :: shorter := by
  rcases eq_nil_or_concat rest with rfl | ⟨shorter, last, rfl⟩
  · obtain ⟨same, ends⟩ := append_inj' here rfl
    cases ends
    exact .inl ⟨rfl, rfl, same.symm⟩
  · rw [concat_eq_append, ← cons_append, ← append_assoc] at here
    obtain ⟨same, ends⟩ := append_inj' here rfl
    cases ends
    exact .inr ⟨shorter, concat_eq_append, same⟩

/-- A trace grows by a step that is due. -/
theorem always_concat {trace : List δ} {step : δ} :
    Always due (trace ++ [step]) ↔ Always due trace ∧ due trace step := by
  constructor
  · intro always
    refine ⟨?_, always trace step [] rfl⟩
    intro before earlier after split
    apply always before earlier (after ++ [step])
    rw [split, append_assoc, cons_append]
  · rintro ⟨always, last⟩ before other after split
    rcases eq_nil_or_concat after with rfl | ⟨rest, final, rfl⟩
    · obtain ⟨rfl, same⟩ := append_inj' split rfl
      cases same
      exact last
    · rw [concat_eq_append, ← cons_append, ← append_assoc] at split
      obtain ⟨rfl, -⟩ := append_inj' split rfl
      exact always before other rest rfl

theorem Always.imp {weaker : List δ → δ → Prop} {trace : List δ} (always : Always due trace)
    (implies : ∀ before step, due before step → weaker before step) : Always weaker trace :=
  fun before step after split => implies before step (always before step after split)

section Places

variable {trace first rest second later : List δ} {one other : δ}

/-- Of two places in a trace, the earlier lies before the later. -/
theorem place_before (here : trace = first ++ one :: rest) (there : trace = second ++ other :: later)
    (before : first.length < second.length) :
    ∃ middle, second = first ++ one :: middle ∧ rest = middle ++ other :: later := by
  rcases append_eq_append_iff.mp (here.symm.trans there) with ⟨middle, same, tail⟩ | ⟨middle, same, -⟩
  · cases middle with
    | nil =>
      rw [append_nil] at same
      rw [same] at before
      omega
    | cons found middle =>
      rw [cons_append] at tail
      injection tail with head tail
      exact ⟨middle, by rw [same, head], tail⟩
  · rw [same, length_append] at before
    omega

theorem place_same (here : trace = first ++ one :: rest) (there : trace = second ++ other :: later)
    (same : first.length = second.length) : one = other := by
  have both := append_inj_right (here.symm.trans there) same
  injection both

end Places

end Trace
