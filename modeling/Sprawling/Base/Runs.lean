import Mathlib.Data.List.DropRight
import Mathlib.Data.List.TakeWhile

namespace Sprawling.Runs

open List

variable {α : Type} (p : α → Bool)

/-- The maximal runs of accepted items, each with where it begins. `inside` tells whether the item
before the list was accepted: a run that began there is not begun again. -/
def runs : (inside : Bool) → List α → (at_ : Nat) → List (Nat × List α)
  | _, [], _ => []
  | inside, item :: items, at_ =>
    if p item && !inside then
      (at_, (item :: items).takeWhile p) :: runs true items (at_ + 1)
    else runs (p item) items (at_ + 1)

/-- An accepted stretch that accepted items neither precede nor follow. -/
structure IsRun (items : List α) (start : Nat) (run : List α) : Prop where
  begins : ∃ before after, items = before ++ (run ++ after) ∧ before.length = start ∧
    (∀ item ∈ before.getLast?, p item = false) ∧ (∀ item ∈ after.head?, p item = false)
  some_items : run ≠ []
  accepted : ∀ item ∈ run, p item = true

variable {p}

@[simp] theorem runs_nil (inside : Bool) (at_ : Nat) : runs p inside [] at_ = [] := rfl

variable {item : α}

theorem runs_refused (refused : p item = false) (inside : Bool) (items : List α)
    (at_ : Nat) : runs p inside (item :: items) at_ = runs p false items (at_ + 1) := by
  simp only [runs, refused, Bool.false_and, Bool.false_eq_true, if_false]

theorem runs_inside {run : List α} (accepted : ∀ item ∈ run, p item = true) (items : List α)
    (at_ : Nat) : runs p true (run ++ items) at_ = runs p true items (at_ + run.length) := by
  induction run generalizing at_ with
  | nil => rfl
  | cons item run ih =>
    have here := accepted item mem_cons_self
    have later := ih (fun other member => accepted other (mem_cons_of_mem _ member)) (at_ + 1)
    rw [cons_append, runs, here, Bool.not_true, Bool.and_false, if_neg Bool.false_ne_true,
      later, length_cons, Nat.add_assoc, Nat.add_comm 1]

variable {items : List α}

theorem runs_ended (ended : ∀ item ∈ items.head?, p item = false)
    (inside : Bool) (at_ : Nat) : runs p inside items at_ = runs p false items at_ := by
  cases items with
  | nil => rfl
  | cons item items =>
    have refused := ended item rfl
    rw [runs_refused refused, runs_refused refused]

theorem head_dropWhile (items : List α) : ∀ item ∈ (items.dropWhile p).head?, p item = false := by
  intro item member
  cases rest : items.dropWhile p with
  | nil =>
    rw [rest] at member
    cases member
  | cons other later =>
    rw [rest] at member
    cases member
    have nonempty : items.dropWhile p ≠ [] := by rw [rest]; exact cons_ne_nil _ _
    have refused := head_dropWhile_not p nonempty
    simpa only [rest, head_cons, Bool.not_eq_true] using refused

/-- The run at the head of a list, and then the runs behind it. -/
theorem runs_accepted (accepted : p item = true) (items : List α) (at_ : Nat) :
    runs p false (item :: items) at_ =
      (at_, (item :: items).takeWhile p) ::
        runs p false ((item :: items).dropWhile p)
          (at_ + ((item :: items).takeWhile p).length) := by
  have head : runs p false (item :: items) at_ =
      (at_, (item :: items).takeWhile p) :: runs p true items (at_ + 1) := by
    simp only [runs, accepted, Bool.not_false, Bool.and_self, if_true]
  have parts : items = items.takeWhile p ++ items.dropWhile p :=
    (takeWhile_append_dropWhile (p := p)).symm
  have behind : runs p true items (at_ + 1) =
      runs p true (items.dropWhile p) (at_ + 1 + (items.takeWhile p).length) := by
    rw [← runs_inside (fun _ member => mem_takeWhile_imp member), ← parts]
  rw [head, behind, runs_ended (head_dropWhile items), dropWhile_cons, if_pos accepted,
    takeWhile_cons, if_pos accepted, length_cons, Nat.add_assoc, Nat.add_comm 1]

theorem takeWhile_run {run after : List α} (accepted : ∀ item ∈ run, p item = true)
    (ended : ∀ item ∈ after.head?, p item = false) : (run ++ after).takeWhile p = run := by
  have none_ : after.takeWhile p = [] := by
    cases after with
    | nil => rfl
    | cons next after => rw [takeWhile_cons, ended next rfl, if_neg Bool.false_ne_true]
  rw [takeWhile_append_of_pos accepted, none_, append_nil]

theorem takeWhile_before (refused : p item = false) (first second : List α) :
    (first ++ item :: second).takeWhile p = first.takeWhile p := by
  induction first with
  | nil => simp only [nil_append, takeWhile_cons, refused, Bool.false_eq_true, if_false,
      takeWhile_nil]
  | cons other first ih => simp only [cons_append, takeWhile_cons, ih]

/-- A refused item divides the runs of a list. -/
theorem runs_append (refused : p item = false) (inside : Bool) (first second : List α)
    (at_ : Nat) :
    runs p inside (first ++ item :: second) at_ =
      runs p inside first at_ ++ runs p false second (at_ + first.length + 1) := by
  induction first generalizing inside at_ with
  | nil => exact runs_refused refused inside second at_
  | cons other first ih =>
    have same := takeWhile_before refused (other :: first) second
    rw [cons_append] at same
    have length : at_ + 1 + first.length + 1 = at_ + (other :: first).length + 1 := by
      rw [length_cons]
      omega
    rw [cons_append, runs, runs, same, ih, ih, length]
    split <;> rfl

variable {items run : List α}

theorem isRun_of_mem {inside : Bool} {at_ start : Nat}
    (found : (start, run) ∈ runs p inside items at_) :
    ∃ gap, IsRun p items (start - at_) run ∧ at_ + gap = start ∧ (gap = 0 → inside = false) := by
  induction items generalizing inside at_ with
  | nil => cases found
  | cons item items ih =>
    -- A run found further on is a run of the whole list when what comes right before it is refused.
    have later : ∀ before, (start, run) ∈ runs p before items (at_ + 1) →
        (before = false → p item = false) →
        ∃ gap, IsRun p (item :: items) (start - at_) run ∧ at_ + gap = start ∧
          (gap = 0 → inside = false) := by
      intro before further refused
      obtain ⟨gap, isRun, start_eq, first⟩ := ih further
      obtain ⟨ahead, after, whole, length, left, right⟩ := isRun.begins
      refine ⟨gap + 1, ⟨⟨item :: ahead, after, ?_, ?_, ?_, right⟩, isRun.some_items,
        isRun.accepted⟩, by omega, by omega⟩
      · rw [whole, cons_append]
      · rw [length_cons, length]
        omega
      · cases ahead with
        | nil =>
          rw [length_nil] at length
          intro last member
          cases member
          exact refused (first (by omega))
        | cons other ahead => exact fun last member => left last member
    rw [runs] at found
    split at found
    · next begins =>
        rw [Bool.and_eq_true, Bool.not_eq_true'] at begins
        rcases mem_cons.mp found with here | further
        · obtain ⟨rfl, rfl⟩ := Prod.mk.inj here
          have parts := takeWhile_append_dropWhile (p := p) (l := item :: items)
          refine ⟨0, ⟨⟨[], (item :: items).dropWhile p, parts.symm, ?_, ?_, head_dropWhile _⟩,
            ?_, fun _ member => mem_takeWhile_imp member⟩, rfl, fun _ => begins.2⟩
          · rw [Nat.sub_self]
            rfl
          · intro last member
            cases member
          · rw [takeWhile_cons, if_pos begins.1]
            exact cons_ne_nil _ _
        · exact later true further fun impossible => by cases impossible
    · exact later (p item) found id

variable {start : Nat}

theorem mem_of_isRun (isRun : IsRun p items start run)
    (at_ : Nat) : (at_ + start, run) ∈ runs p false items at_ := by
  obtain ⟨⟨before, after, rfl, rfl, left, right⟩, some_items, accepted⟩ := isRun
  have here : ∀ at_, (at_, run) ∈ runs p false (run ++ after) at_ := by
    intro at_
    cases run with
    | nil => exact absurd rfl some_items
    | cons item run =>
      have whole : (item :: (run ++ after)).takeWhile p = item :: run :=
        @takeWhile_run _ _ (item :: run) _ accepted right
      rw [cons_append, runs_accepted (accepted item mem_cons_self), whole]
      exact mem_cons_self
  rcases eq_nil_or_concat before with rfl | ⟨ahead, last, rfl⟩
  · exact here at_
  · rw [concat_eq_append] at left ⊢
    have refused := left last getLast?_concat
    have length : at_ + (ahead ++ [last]).length = at_ + ahead.length + 1 := by
      rw [length_append]
      rfl
    rw [append_assoc, singleton_append, runs_append refused, length]
    exact mem_append_right _ (here _)

theorem mem_runs :
    (start, run) ∈ runs p false items 0 ↔ IsRun p items start run := by
  constructor
  · intro found
    obtain ⟨-, isRun, -, -⟩ := isRun_of_mem found
    exact isRun
  · intro isRun
    have found := mem_of_isRun isRun 0
    rwa [Nat.zero_add] at found

/-! ### A list between two accepted ones -/

variable {first middle last run : List α} {start : Nat}

theorem isRun_front (some_items : first ≠ []) (accepted : ∀ item ∈ first, p item = true)
    (rest : List α) : IsRun p (first ++ rest) 0 (first ++ rest.takeWhile p) := by
  refine ⟨⟨[], rest.dropWhile p, ?_, rfl, fun _ member => (by cases member), head_dropWhile rest⟩,
    append_ne_nil_of_left_ne_nil some_items _, ?_⟩
  · rw [append_assoc, takeWhile_append_dropWhile, nil_append]
  · intro item member
    rcases mem_append.mp member with here | later
    · exact accepted item here
    · exact mem_takeWhile_imp later

theorem isRun_back (some_items : last ≠ []) (accepted : ∀ item ∈ last, p item = true)
    (rest : List α) :
    IsRun p (rest ++ last) (rest.rdropWhile p).length (rest.rtakeWhile p ++ last) := by
  refine ⟨⟨rest.rdropWhile p, [], ?_, rfl, ?_, fun _ member => (by cases member)⟩,
    append_ne_nil_of_right_ne_nil _ some_items, ?_⟩
  · rw [append_nil, ← append_assoc, rdropWhile_append_rtakeWhile]
  · intro item member
    obtain ⟨some_rest, rfl⟩ := mem_getLast?_eq_getLast member
    exact Bool.of_not_eq_true (rdropWhile_last_not p rest some_rest)
  · intro item member
    rcases mem_append.mp member with here | later
    · exact mem_rtakeWhile_imp here
    · exact accepted item later

/-- A run that touches neither list around its own is a run of them all. -/
theorem IsRun.within (found : IsRun p middle start run) (left : first ≠ [] → 0 < start)
    (right : last ≠ [] → start + run.length < middle.length) :
    IsRun p (first ++ (middle ++ last)) (first.length + start) run := by
  obtain ⟨⟨before, after, rfl, rfl, refused, ended⟩, some_items, accepted⟩ := found
  refine ⟨⟨first ++ before, after ++ last, by simp only [append_assoc],
    length_append, ?_, ?_⟩, some_items, accepted⟩
  · intro item member
    cases before with
    | nil =>
      cases first with
      | nil => cases member
      | cons _ _ => exact absurd (left (cons_ne_nil _ _)) (Nat.lt_irrefl 0)
    | cons other before =>
      rw [getLast?_append_cons] at member
      exact refused item member
  · intro item member
    cases after with
    | nil =>
      cases last with
      | nil => cases member
      | cons _ _ =>
        have short := right (cons_ne_nil _ _)
        simp only [append_nil, length_append] at short
        omega
    | cons other after => exact ended item member

variable {rest : List α}

theorem IsRun.front (found : IsRun p (first ++ rest) start run)
    (accepted : ∀ item ∈ first, p item = true) (early : start < first.length) :
    run = first ++ rest.takeWhile p := by
  obtain ⟨⟨before, after, whole, rfl, refused, ended⟩, -, inside⟩ := found
  -- Nothing stands before the run: it would be of the list in front, and accepted.
  have nothing : before = [] := by
    rcases eq_nil_or_concat before with rfl | ⟨ahead, final, rfl⟩
    · rfl
    · rw [concat_eq_append] at whole early refused
      have here := congrArg (fun items => items[ahead.length]?) whole
      simp only [length_append, length_singleton] at early
      rw [getElem?_append_left (by omega), append_assoc,
        getElem?_append_right (Nat.le_refl _), Nat.sub_self] at here
      have known := accepted final (mem_of_getElem? here)
      rw [refused final getLast?_concat] at known
      cases known
  rw [nothing, nil_append] at whole
  have same := takeWhile_run inside ended
  rw [← whole, takeWhile_append_of_pos accepted] at same
  exact same.symm

theorem IsRun.reverse (found : IsRun p items start run) :
    IsRun p items.reverse (items.length - (start + run.length)) run.reverse := by
  obtain ⟨⟨before, after, rfl, rfl, refused, ended⟩, some_items, accepted⟩ := found
  refine ⟨⟨after.reverse, before.reverse, ?_, ?_, ?_, ?_⟩, ?_, ?_⟩
  · simp only [reverse_append, append_assoc]
  · simp only [length_reverse, length_append]
    omega
  · rw [getLast?_reverse]
    exact ended
  · rw [head?_reverse]
    exact refused
  · exact fun empty => some_items (reverse_eq_nil_iff.mp empty)
  · exact fun item member => accepted item (mem_reverse.mp member)

theorem IsRun.back (found : IsRun p (rest ++ last) start run)
    (accepted : ∀ item ∈ last, p item = true) (late : rest.length < start + run.length) :
    run = rest.rtakeWhile p ++ last := by
  have mirrored := found.reverse
  rw [reverse_append] at mirrored
  have same := mirrored.front (fun item member => accepted item (mem_reverse.mp member)) (by
    obtain ⟨⟨before, after, whole, length, -⟩, some_items, -⟩ := found
    have sized := congrArg List.length whole
    have some_run := length_pos_of_ne_nil some_items
    simp only [length_append, length_reverse] at sized ⊢
    omega)
  rw [List.rtakeWhile, ← reverse_reverse run, same, reverse_append, reverse_reverse]

/-- A run between two accepted lists touches neither. -/
theorem IsRun.inner (found : IsRun p (first ++ (middle ++ last)) start run)
    (front : ∀ item ∈ first, p item = true) (back : ∀ item ∈ last, p item = true)
    (late : first.length ≤ start) (early : start + run.length ≤ first.length + middle.length) :
    ∃ inner, start = first.length + inner ∧ IsRun p middle inner run ∧
      (first ≠ [] → 0 < inner) ∧ (last ≠ [] → inner + run.length < middle.length) := by
  obtain ⟨⟨before, after, whole, rfl, refused, ended⟩, some_items, accepted⟩ := found
  obtain ⟨ahead, rfl⟩ : ∃ ahead, before = first ++ ahead := by
    obtain ⟨ahead, same⟩ := prefix_of_prefix_length_le ⟨_, rfl⟩ ⟨_, whole.symm⟩ late
    exact ⟨ahead, same.symm⟩
  rw [append_assoc, append_cancel_left_eq] at whole
  obtain ⟨beyond, rfl⟩ : ∃ beyond, middle = ahead ++ run ++ beyond := by
    rw [← append_assoc] at whole
    obtain ⟨beyond, same⟩ := prefix_of_prefix_length_le ⟨after, whole.symm⟩
      (prefix_append middle last) (by simp only [length_append] at early ⊢; omega)
    exact ⟨beyond, same.symm⟩
  simp only [append_assoc, append_cancel_left_eq] at whole ended
  subst whole
  refine ⟨ahead.length, length_append, ⟨⟨ahead, beyond, append_assoc _ _ _, rfl, ?_, ?_⟩,
    some_items, accepted⟩, ?_, ?_⟩
  · intro item member
    apply refused
    rw [getLast?_append, Option.mem_def.mp member]
    rfl
  · intro item member
    apply ended
    rw [head?_append, Option.mem_def.mp member]
    rfl
  · intro some_first
    apply length_pos_of_ne_nil
    rintro rfl
    rw [append_nil] at refused
    have final := getLast_mem some_first
    have known := refused _ (getLast?_eq_getLast_of_ne_nil some_first)
    rw [front _ final] at known
    cases known
  · intro some_last
    have some_beyond : beyond ≠ [] := by
      rintro rfl
      have known := ended (last.head some_last) (head?_eq_some_head some_last)
      rw [back _ (head_mem some_last)] at known
      cases known
    have short := length_pos_of_ne_nil some_beyond
    simp only [length_append]
    omega

end Sprawling.Runs
