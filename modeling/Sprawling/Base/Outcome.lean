/-! Rules for computations that answer or refuse. -/

namespace Outcome

open List

variable {ε α β : Type}

theorem bind_ok (value : α) (next : α → Except ε β) : (Except.ok value >>= next) = next value := rfl

theorem bind_error (reason : ε) (next : α → Except ε β) :
    (Except.error reason >>= next) = .error reason := rfl

variable {first : Except ε α}

/-- A sequence answers exactly when both of its halves do. -/
theorem bind_eq_ok {next : α → Except ε β} {answer : β} :
    first >>= next = .ok answer ↔ ∃ value, first = .ok value ∧ next value = .ok answer := by
  cases first with
  | error reason =>
    constructor
    · intro success
      cases success
    · rintro ⟨_, failed, -⟩
      cases failed
  | ok value =>
    constructor
    · exact fun success => ⟨value, rfl, success⟩
    · rintro ⟨_, same, success⟩
      cases same
      exact success

theorem of_map_toOption {outcome : Except ε α} {reading : α → β} {value : β}
    (read : outcome.toOption.map reading = some value) :
    ∃ answer, outcome = .ok answer ∧ reading answer = value := by
  cases outcome with
  | error reason => cases read
  | ok answer => exact ⟨answer, rfl, Option.some.inj read⟩

theorem foldlM_ok {step : β → α → Except ε β} {keeps : β → Prop} {work : List α} {state : β}
    (holds : keeps state)
    (turn : ∀ item ∈ work, ∀ held, keeps held → ∃ after, step held item = .ok after ∧ keeps after) :
    ∃ after, work.foldlM step state = .ok after ∧ keeps after := by
  induction work generalizing state with
  | nil => exact ⟨state, rfl, holds⟩
  | cons item work ih =>
    obtain ⟨middle, done, held⟩ := turn item mem_cons_self state holds
    obtain ⟨after, rest, last⟩ :=
      ih held fun other member => turn other (mem_cons_of_mem _ member)
    refine ⟨after, ?_, last⟩
    rw [foldlM_cons, done]
    exact rest

/-- What holds before a loop and after each turn, of the work done so far, holds at its end. -/
theorem foldlM_holds {step : β → α → Except ε β} {holds : List α → β → Prop} {done work : List α}
    {state final : β} (start : holds done state)
    (turn : ∀ done item held after, holds done held → step held item = .ok after →
      holds (done ++ [item]) after)
    (ran : work.foldlM step state = .ok final) : holds (done ++ work) final := by
  induction work generalizing done state with
  | nil =>
    cases ran
    rw [append_nil]
    exact start
  | cons item work ih =>
    rw [foldlM_cons] at ran
    obtain ⟨middle, stepped, rest⟩ := bind_eq_ok.mp ran
    have later := ih (turn done item state middle start stepped) rest
    rwa [append_assoc] at later

variable {work : List α}

theorem foldlM_flatMap {γ : Type} (step : β → α → Except ε β) (runs : γ → List α) (items : List γ)
    (state : β) :
    (items.flatMap runs).foldlM step state =
      items.foldlM (fun state item => (runs item).foldlM step state) state := by
  induction items generalizing state with
  | nil => rfl
  | cons item items ih =>
    rw [flatMap_cons, foldlM_append, foldlM_cons]
    cases (runs item).foldlM step state with
    | error reason => rfl
    | ok after => exact ih after

theorem foldlM_map {γ : Type} {first : β → α → Except ε β} {second : γ → α → Except ε γ}
    {view : β → γ} {work : List α} (state : β)
    (turn : ∀ item ∈ work, ∀ held, (first held item).map view = second (view held) item) :
    (work.foldlM first state).map view = work.foldlM second (view state) := by
  induction work generalizing state with
  | nil => rfl
  | cons item work ih =>
    have here := turn item mem_cons_self state
    rw [foldlM_cons, foldlM_cons, ← here]
    cases first state item with
    | error reason => rfl
    | ok after => exact ih after fun other member => turn other (mem_cons_of_mem _ member)

theorem map_eq_ok {view : α → β} {answer : β} :
    first.map view = .ok answer ↔ ∃ value, first = .ok value ∧ view value = answer := by
  cases first with
  | error reason => simp [Except.map]
  | ok value => simp [Except.map]

/-- A loop that answers makes, seen through a view, the turns of a loop that cannot refuse. -/
theorem foldlM_eq_foldl {γ : Type} {step : β → α → Except ε β} {next : γ → α → γ} {view : β → γ}
    {work : List α} {state final : β}
    (turn : ∀ item held after, step held item = .ok after → view after = next (view held) item)
    (ran : work.foldlM step state = .ok final) : view final = work.foldl next (view state) := by
  induction work generalizing state with
  | nil =>
    cases ran
    rfl
  | cons item work ih =>
    rw [foldlM_cons] at ran
    obtain ⟨middle, stepped, rest⟩ := bind_eq_ok.mp ran
    rw [foldl_cons, ← turn item state middle stepped]
    exact ih rest

/-- A pair whose first part is known follows from its second. -/
theorem eq_map_of_snd {γ : Type} {outcome : Except ε (γ × α)} {value : γ}
    (one : ∀ done, outcome = .ok done → done.1 = value) :
    outcome = (outcome.map Prod.snd).map fun last => (value, last) := by
  cases outcome with
  | error reason => rfl
  | ok done => exact congrArg Except.ok (Prod.ext (one done rfl) rfl)

section Agreement

variable {ε₁ ε₂ σ₁ σ₂ : Type} (answers : σ₁ → σ₂ → Prop) (refusals : ε₁ → ε₂ → Prop)

/-- Two computations that both answer, or both refuse, with related results. -/
def Agree : Except ε₁ σ₁ → Except ε₂ σ₂ → Prop
  | .ok left, .ok right => answers left right
  | .error left, .error right => refusals left right
  | .ok _, .error _ => False
  | .error _, .ok _ => False

variable {answers refusals}

/-- Two loops over the same work whose turns agree, agree. -/
theorem foldlM_agree {first : σ₁ → α → Except ε₁ σ₁} {second : σ₂ → α → Except ε₂ σ₂}
    {work : List α} {left : σ₁} {right : σ₂} (start : answers left right)
    (turn : ∀ item ∈ work, ∀ left right, answers left right →
      Agree answers refusals (first left item) (second right item)) :
    Agree answers refusals (work.foldlM first left) (work.foldlM second right) := by
  induction work generalizing left right with
  | nil => exact start
  | cons item work ih =>
    have here := turn item mem_cons_self left right start
    rw [foldlM_cons, foldlM_cons]
    cases moved : first left item with
    | error reason =>
      cases answered : second right item with
      | error other =>
        rw [moved, answered] at here
        exact here
      | ok after =>
        rw [moved, answered] at here
        exact here.elim
    | ok after =>
      cases answered : second right item with
      | error other =>
        rw [moved, answered] at here
        exact here.elim
      | ok other =>
        rw [moved, answered] at here
        exact ih here fun later member => turn later (mem_cons_of_mem _ member)

end Agreement

variable {step : α → Except ε β} {results : List β}

theorem mapM_ok {value : α → β}
    (answers : ∀ item answer, step item = .ok answer → answer = value item)
    (done : work.mapM step = .ok results) : results = work.map value := by
  induction work generalizing results with
  | nil =>
    cases done
    rfl
  | cons item work ih =>
    rw [mapM_cons] at done
    simp only [bind_eq_ok] at done
    obtain ⟨first, one, rest, later, made⟩ := done
    cases made
    rw [answers item first one, ih later, map_cons]

/-- A list of which each item is answered by a value, when it is answered at all, is worked through
exactly when every item is answered. -/
theorem mapM_eq_ok {value : α → β} {answers : α → Prop}
    (answered : ∀ item answer, step item = .ok answer ↔ answers item ∧ answer = value item) :
    work.mapM step = .ok results ↔ (∀ item ∈ work, answers item) ∧ results = work.map value := by
  induction work generalizing results with
  | nil =>
    rw [mapM_nil]
    constructor
    · intro done
      cases done
      exact ⟨fun item member => (nomatch member), rfl⟩
    · rintro ⟨-, rfl⟩
      rfl
  | cons item work ih =>
    rw [mapM_cons]
    simp only [bind_eq_ok, answered, ih, forall_mem_cons, map_cons]
    constructor
    · rintro ⟨_, ⟨first, rfl⟩, _, ⟨rest, rfl⟩, made⟩
      cases made
      exact ⟨⟨first, rest⟩, rfl⟩
    · rintro ⟨⟨first, rest⟩, rfl⟩
      exact ⟨_, ⟨first, rfl⟩, _, ⟨rest, rfl⟩, rfl⟩

/-- Every item of a list worked through has its answer among the answers, and every answer is the
answer to an item. -/
theorem mapM_paired (done : work.mapM step = .ok results) :
    (∀ item ∈ work, ∃ answer ∈ results, step item = .ok answer) ∧
      ∀ answer ∈ results, ∃ item ∈ work, step item = .ok answer := by
  induction work generalizing results with
  | nil =>
    cases done
    simp
  | cons item work ih =>
    rw [mapM_cons] at done
    simp only [bind_eq_ok] at done
    obtain ⟨first, one, rest, later, made⟩ := done
    cases made
    obtain ⟨answered, asked⟩ := ih later
    constructor
    · rintro other member
      rcases mem_cons.mp member with same | inside
      · exact ⟨first, mem_cons_self .., same ▸ one⟩
      · obtain ⟨answer, found, stepped⟩ := answered other inside
        exact ⟨answer, mem_cons_of_mem _ found, stepped⟩
    · rintro other member
      rcases mem_cons.mp member with same | inside
      · exact ⟨item, mem_cons_self .., same ▸ one⟩
      · obtain ⟨before, found, stepped⟩ := asked other inside
        exact ⟨before, mem_cons_of_mem _ found, stepped⟩

/-! ### What an answer is refused with -/

section Refusing

variable {kind : ε → Prop} {refusal : ε} {answer : Except ε α}

/-- Every refusal of the answer is of a kind. -/
def Refuses (kind : ε → Prop) (answer : Except ε α) : Prop :=
  ∀ refusal, answer = .error refusal → kind refusal

namespace Refuses

theorem ok (value : α) : Refuses kind (.ok value) := nofun

theorem error (of : kind refusal) : Refuses kind (.error refusal : Except ε α) := by
  intro other same
  cases same
  exact of

theorem bind {next : α → Except ε β} (first : Refuses kind answer)
    (later : ∀ value, Refuses kind (next value)) : Refuses kind (answer >>= next) := by
  cases answer with
  | error refusal => exact error (first refusal rfl)
  | ok value => exact later value

theorem foldlM {step : β → α → Except ε β} (each : ∀ state item, Refuses kind (step state item))
    (work : List α) (state : β) : Refuses kind (work.foldlM step state) := by
  induction work generalizing state with
  | nil => exact ok state
  | cons item work ih => exact bind (each state item) ih

theorem mapM {step : α → Except ε β} (each : ∀ item, Refuses kind (step item)) (work : List α) :
    Refuses kind (work.mapM step) := by
  induction work with
  | nil => exact ok []
  | cons item work ih =>
    rw [mapM_cons]
    exact bind (each item) fun _ => bind ih fun _ => ok _

end Refuses

end Refusing

end Outcome
