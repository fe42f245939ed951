/-! Computations over a state that answer or refuse and keep the state either way, with the
rules of pre- and postconditions for them. -/

/-- A computation over a state that answers or refuses; what it did before it refused stays. -/
def Effect (ε σ α : Type) : Type := σ → Except ε α × σ

namespace Effect

variable {ε σ α β : Type}

def run (effect : Effect ε σ α) (state : σ) : Except ε α × σ := effect state

instance : Monad (Effect ε σ) where
  pure value := fun state => (.ok value, state)
  bind first next := fun state =>
    match first state with
    | (.ok value, after) => run (next value) after
    | (.error reason, after) => (.error reason, after)

def refuse (reason : ε) : Effect ε σ α := fun state => (.error reason, state)

def look : Effect ε σ σ := fun state => (.ok state, state)

def update (change : σ → σ) : Effect ε σ Unit := fun state => (.ok (), change state)

/-- What a computation answered or refused with, for a caller that goes on either way. -/
def attempt (effect : Effect ε σ α) : Effect ε σ (Except ε α) := fun state =>
  let done := run effect state
  (.ok done.1, done.2)

def lift (answer : Except ε α) : Effect ε σ α := fun state => (answer, state)

@[simp] theorem run_pure (value : α) (state : σ) :
    run (pure value : Effect ε σ α) state = (.ok value, state) := rfl

@[simp] theorem run_refuse (reason : ε) (state : σ) :
    run (refuse reason : Effect ε σ α) state = (.error reason, state) := rfl

@[simp] theorem run_look (state : σ) : run (look : Effect ε σ σ) state = (.ok state, state) := rfl

@[simp] theorem run_update (change : σ → σ) (state : σ) :
    run (update change : Effect ε σ Unit) state = (.ok (), change state) := rfl

@[simp] theorem run_lift (answer : Except ε α) (state : σ) :
    run (lift answer : Effect ε σ α) state = (answer, state) := rfl

@[simp] theorem run_attempt (effect : Effect ε σ α) (state : σ) :
    run (attempt effect) state = (.ok (run effect state).1, (run effect state).2) := rfl

theorem run_bind (first : Effect ε σ α) (next : α → Effect ε σ β) (state : σ) :
    run (first >>= next) state =
      match run first state with
      | (.ok value, after) => run (next value) after
      | (.error reason, after) => (.error reason, after) := rfl

variable {first : Effect ε σ α} {next : α → Effect ε σ β}

theorem run_bind_ok {state after : σ} {value : α}
    (answered : run first state = (.ok value, after)) :
    run (first >>= next) state = run (next value) after := by
  rw [run_bind, answered]

theorem run_bind_error {state after : σ} {reason : ε}
    (refused : run first state = (.error reason, after)) :
    run (first >>= next) state = (.error reason, after) := by
  rw [run_bind, refused]

/-- From `before`, an answer leaves `answered` and a refusal leaves `refused`. -/
def Ensures (before : σ → Prop) (effect : Effect ε σ α) (answered : α → σ → Prop)
    (refused : ε → σ → Prop) : Prop :=
  ∀ state, before state →
    match run effect state with
    | (.ok value, after) => answered value after
    | (.error reason, after) => refused reason after

variable {before : σ → Prop} {answered : α → σ → Prop} {refused : ε → σ → Prop}

theorem ensures_bind {first : Effect ε σ α} {next : α → Effect ε σ β} {middle : α → σ → Prop}
    {last : β → σ → Prop} (start : Ensures before first middle refused)
    (rest : ∀ value, Ensures (middle value) (next value) last refused) :
    Ensures before (first >>= next) last refused := by
  intro state holds
  have here := start state holds
  rw [run_bind]
  cases done : run first state with
  | mk answer after =>
    rw [done] at here
    cases answer with
    | error reason => exact here
    | ok value => exact rest value after here

theorem ensures_look {next : σ → Effect ε σ α}
    (rest : ∀ state, Ensures (fun here => here = state ∧ before here) (next state) answered refused) :
    Ensures before (look >>= next) answered refused :=
  fun state holds => rest state state ⟨rfl, holds⟩

theorem ensures_update {change : σ → σ} {middle : Unit → σ → Prop}
    (holds : ∀ state, before state → middle () (change state)) :
    Ensures before (update change : Effect ε σ Unit) middle refused := holds

theorem ensures_lift {answer : Except ε α}
    (ok : ∀ value state, answer = .ok value → before state → answered value state)
    (error : ∀ reason state, answer = .error reason → before state → refused reason state) :
    Ensures before (lift answer) answered refused := by
  intro state holds
  cases answer with
  | ok value => exact ok value state rfl holds
  | error reason => exact error reason state rfl holds

/-- An attempt hands its refusal on as an answer. -/
theorem ensures_attempt {effect : Effect ε σ α} {failed : ε → σ → Prop}
    (holds : Ensures before effect answered refused) :
    Ensures before (attempt effect)
      (fun outcome state => match outcome with
        | .ok value => answered value state
        | .error reason => refused reason state) failed := by
  intro state start
  have here := holds state start
  rw [run_attempt]
  cases done : run effect state with
  | mk result after =>
    rw [done] at here
    cases result with
    | error reason => exact here
    | ok value => exact here

variable {effect : Effect ε σ α}

theorem ensures_consequence {stronger : σ → Prop} {weaker : α → σ → Prop} {failed : ε → σ → Prop}
    (holds : Ensures before effect answered refused)
    (start : ∀ state, stronger state → before state)
    (answer : ∀ value state, answered value state → weaker value state)
    (refusal : ∀ reason state, refused reason state → failed reason state) :
    Ensures stronger effect weaker failed := by
  intro state strong
  have here := holds state (start state strong)
  cases done : run effect state with
  | mk result after =>
    rw [done] at here
    cases result with
    | error reason => exact refusal reason after here
    | ok value => exact answer value after here

theorem ensures_weaken {weaker : α → σ → Prop} {failed : ε → σ → Prop}
    (holds : Ensures before effect answered refused)
    (answer : ∀ value state, answered value state → weaker value state)
    (refusal : ∀ reason state, refused reason state → failed reason state) :
    Ensures before effect weaker failed :=
  ensures_consequence holds (fun _ start => start) answer refusal

/-- Two specifications of one computation hold together. -/
theorem ensures_and {before' : σ → Prop} {answered' : α → σ → Prop} {refused' : ε → σ → Prop}
    (first : Ensures before effect answered refused)
    (second : Ensures before' effect answered' refused') :
    Ensures (fun state => before state ∧ before' state) effect
      (fun value state => answered value state ∧ answered' value state)
      (fun reason state => refused reason state ∧ refused' reason state) := by
  intro state start
  have left := first state start.1
  have right := second state start.2
  cases done : run effect state with
  | mk result after =>
    rw [done] at left right
    cases result with
    | error reason => exact ⟨left, right⟩
    | ok value => exact ⟨left, right⟩

theorem ensures_of_fact {fact : Prop} (holds : fact → Ensures before effect answered refused) :
    Ensures (fun state => before state ∧ fact) effect answered refused :=
  fun state start => holds start.2 state start.1

/-- Whatever the state, what is answered is one of `fact`. -/
def Yields (fact : α → Prop) (effect : Effect ε σ α) : Prop :=
  ∀ state value after, run effect state = (.ok value, after) → fact value

variable {fact : α → Prop}

theorem yields_pure {value : α} (known : fact value) : Yields fact (pure value : Effect ε σ α) := by
  intro state other after done
  cases done
  exact known

theorem yields_none {fact : α → Prop} :
    Yields (fun answer => ∀ value ∈ answer, fact value) (pure none : Effect ε σ (Option α)) := by
  apply yields_pure
  intro value found
  cases found

theorem yields_lift {answer : Except ε α} (known : ∀ value, answer = .ok value → fact value) :
    Yields fact (lift answer : Effect ε σ α) := by
  intro state value after done
  cases done
  exact known value rfl

theorem yields_bind {middle : α → Prop} {fact : β → Prop} (start : Yields middle first)
    (rest : ∀ value, middle value → Yields fact (next value)) : Yields fact (first >>= next) := by
  intro state value after done
  rw [run_bind] at done
  cases here : run first state with
  | mk answer between =>
    rw [here] at done
    cases answer with
    | error reason => cases done
    | ok found => exact rest found (start state found between here) between value after done

theorem yields_then {fact : β → Prop} (rest : ∀ value, Yields fact (next value)) :
    Yields fact (first >>= next) :=
  yields_bind (fun _ _ _ _ => trivial) fun value (_ : True) => rest value

theorem ensures_yields (holds : Ensures before effect answered refused)
    (known : Yields fact effect) :
    Ensures before effect (fun value state => answered value state ∧ fact value) refused := by
  intro state start
  have here := holds state start
  cases done : run effect state with
  | mk result after =>
    rw [done] at here
    cases result with
    | error reason => exact here
    | ok value => exact ⟨here, known state value after done⟩

section Keeping

/-- An answer leaves `holds` standing and a refusal leaves `ended`. -/
def Keeps (holds : σ → Prop) (ended : ε → σ → Prop) (effect : Effect ε σ α) : Prop :=
  Ensures holds effect (fun _ => holds) ended

variable {holds : σ → Prop} {ended : ε → σ → Prop}

theorem keeps_pure (value : α) : Keeps holds ended (pure value : Effect ε σ α) :=
  fun _ start => start

theorem keeps_bind {first : Effect ε σ α} {next : α → Effect ε σ β} (start : Keeps holds ended first)
    (rest : ∀ value, Keeps holds ended (next value)) : Keeps holds ended (first >>= next) :=
  ensures_bind start rest

theorem keeps_look {next : σ → Effect ε σ α} (rest : ∀ state, Keeps holds ended (next state)) :
    Keeps holds ended (look >>= next) :=
  fun state start => rest state state start

theorem keeps_update {change : σ → σ} (keeps : ∀ state, holds state → holds (change state)) :
    Keeps holds ended (update change : Effect ε σ Unit) := keeps

theorem keeps_lift (answer : Except ε α) (ends : ∀ reason state, holds state → ended reason state) :
    Keeps holds ended (lift answer) := by
  intro state start
  cases answer with
  | ok value => exact start
  | error reason => exact ends reason state start

theorem keeps_refuse (reason : ε) (ends : ∀ state, holds state → ended reason state) :
    Keeps holds ended (refuse reason : Effect ε σ α) := ends

end Keeping

end Effect
