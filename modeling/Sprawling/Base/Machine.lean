/-! Machines that take one operation after another, and what every run of them keeps. -/

namespace Machine

variable {σ ο : Type} {step : σ → ο → σ} {allowed : σ → ο → Prop} {inv : σ → Prop}

/-- Each operation of a run is allowed in the state it finds. -/
def Meets (step : σ → ο → σ) (allowed : σ → ο → Prop) : σ → List ο → Prop
  | _, [] => True
  | state, op :: rest => allowed state op ∧ Meets step allowed (step state op) rest

instance decidableMeets [(state : σ) → (op : ο) → Decidable (allowed state op)] :
    (state : σ) → (ops : List ο) → Decidable (Meets step allowed state ops)
  | _, [] => isTrue trivial
  | state, op :: rest =>
    have := decidableMeets (step state op) rest
    inferInstanceAs (Decidable (_ ∧ _))

theorem run_keeps (keeps : ∀ state op, inv state → allowed state op → inv (step state op))
    {state : σ} {ops : List ο} (holds : inv state) (meets : Meets step allowed state ops) :
    inv (ops.foldl step state) := by
  induction ops generalizing state with
  | nil => exact holds
  | cons op rest ih => exact ih (keeps state op holds meets.1) meets.2

theorem Meets.append_left {state : σ} {first second : List ο}
    (meets : Meets step allowed state (first ++ second)) : Meets step allowed state first := by
  induction first generalizing state with
  | nil => trivial
  | cons op rest ih => exact ⟨meets.1, ih meets.2⟩

theorem run_always (keeps : ∀ state op, inv state → inv (step state op)) {state : σ}
    (holds : inv state) (ops : List ο) : inv (ops.foldl step state) := by
  induction ops generalizing state with
  | nil => exact holds
  | cons op rest ih => exact ih (keeps state op holds)

end Machine
