import Mathlib.Data.List.Chain
import Mathlib.Data.Finset.Card
import Mathlib.Data.Fintype.Card
import Mathlib.Data.Set.Finite.Basic
import Mathlib.Dynamics.PeriodicPts.Defs
import Mathlib.Logic.Relation
import Mathlib.Tactic.Ring

/-! Who waits for whom: nodes with a list of needs each, the circles among them, and the nodes a
count of unmet needs can ever free. -/

namespace Waiting

open List

variable {κ : Type}

section Circles

variable (needs : κ → Option (List κ))

def Needs (waiter need : κ) : Prop := ∃ list, needs waiter = some list ∧ need ∈ list

def Cyclic : Prop := ∃ id, Relation.TransGen (Needs needs) id id

/-- A walk along the needs from a node back to it. -/
def IsCircle (walk : List κ) : Prop :=
  ∃ start middle, walk = start :: (middle ++ [start]) ∧ List.IsChain (Needs needs) walk

/-- A node whose count of needs can be brought to zero by striking each freed need once. -/
inductive Freed : κ → Prop where
  | free {id : κ} {list : List κ} (present : needs id = some list) (once : list.Nodup)
      (all : ∀ need ∈ list, Freed need) : Freed id

def Stuck (id : κ) : Prop := (needs id).isSome = true ∧ ¬ Freed needs id

/-- `next` is the first need of `here` that is stuck. -/
def FirstStuck (here next : κ) : Prop :=
  ∃ before after, needs here = some (before ++ next :: after) ∧
    (∀ other ∈ before, ¬ Stuck needs other) ∧ Stuck needs next

end Circles

variable {needs : κ → Option (List κ)}

theorem needs_of_firstStuck {here next : κ} (step : FirstStuck needs here next) :
    Needs needs here next := by
  obtain ⟨before, after, list, -, -⟩ := step
  exact ⟨_, list, by simp⟩

variable {r : κ → κ → Prop}

theorem isChain_transGen {start last : κ} {middle : List κ}
    (chain : List.IsChain r (start :: (middle ++ [last]))) : Relation.TransGen r start last := by
  induction middle generalizing start with
  | nil =>
    simp only [nil_append, isChain_pair] at chain
    exact .single chain
  | cons next middle ih =>
    simp only [cons_append, isChain_cons_cons] at chain
    exact .head chain.1 (ih chain.2)

variable {path : List κ}

theorem exists_step_of_mem_tail {start id : κ}
    (chain : List.IsChain r (start :: path)) (member : id ∈ path) : ∃ before, r before id := by
  induction path generalizing start with
  | nil => cases member
  | cons next path ih =>
    rw [isChain_cons_cons] at chain
    rcases mem_cons.mp member with rfl | member
    · exact ⟨start, chain.1⟩
    · exact ih chain.2 member

theorem nodup_of_isChain {walk : List κ} (chain : List.IsChain (Needs needs) walk)
    (acyclic : ¬ Cyclic needs) : walk.Nodup := by
  have far : List.IsChain (Relation.TransGen (Needs needs)) walk :=
    chain.imp fun _ _ step => .single step
  refine (isChain_iff_pairwise.mp far).imp fun {first second} reaches same => ?_
  subst same
  exact acyclic ⟨first, reaches⟩

variable {id : κ}

theorem acc_of_freed (freed : Freed needs id) :
    Acc (fun need waiter => Needs needs waiter need) id := by
  induction freed with
  | free present once all ih =>
    refine Acc.intro _ fun need step => ?_
    obtain ⟨list, same, member⟩ := step
    rw [present] at same
    cases same
    exact ih need member

theorem not_self_of_acc (reachable : Acc r id) : ¬ r id id := by
  induction reachable with
  | intro id _ ih => exact fun self => ih id self self

theorem not_transGen_of_freed (freed : Freed needs id) :
    ¬ Relation.TransGen (Needs needs) id id := by
  intro circle
  have backwards : Relation.TransGen (fun need waiter => Needs needs waiter need) id id :=
    Relation.transGen_swap.mp circle
  exact not_self_of_acc (acc_of_freed freed).transGen backwards

/-- Among finitely many nodes, waits that run into no circle come to an end. -/
theorem exists_end {waits : κ → κ → Prop} {start : κ} {nodes : List κ}
    (inside : ∀ first second, waits first second → second ∈ nodes)
    (free : ∀ id, Relation.ReflTransGen waits start id → ¬ Relation.TransGen waits id id) :
    ∃ last, Relation.ReflTransGen waits start last ∧ ∀ next, ¬ waits last next := by
  have finite : Finite { id // id ∈ start :: nodes } :=
    finite_toSet (start :: nodes)
  let later : { id // id ∈ start :: nodes } → { id // id ∈ start :: nodes } → Prop :=
    fun second first => Relation.ReflTransGen waits start first.1 ∧
      Relation.TransGen waits first.1 second.1
  have isTrans : IsTrans _ later := ⟨fun _ _ _ two one => ⟨one.1, one.2.trans two.2⟩⟩
  have irreflexive : Std.Irrefl later := ⟨fun id circle => free id.1 circle.1 circle.2⟩
  have wellFounded : WellFounded later := Finite.wellFounded_of_trans_of_irrefl later
  obtain ⟨last, reached, minimal⟩ := wellFounded.has_min
    { id | Relation.ReflTransGen waits start id.1 } ⟨⟨start, mem_cons_self⟩, .refl⟩
  refine ⟨last.1, reached, fun next step => ?_⟩
  exact minimal ⟨next, mem_cons_of_mem _ (inside _ _ step)⟩ (reached.tail step)
    ⟨reached, .single step⟩

section Steps

variable (next : κ → Option κ)

def Follows (here found : κ) : Prop := next here = some found

def advance (here : Option κ) : Option κ := here.bind next

variable {next}

theorem advance_iterate_none (count : Nat) : (advance next)^[count] none = none := by
  induction count with
  | zero => rfl
  | succ count ih => rw [Function.iterate_succ_apply, advance, Option.bind_none, ih]

theorem follows_iterate {first last : κ} (reaches : Relation.TransGen (Follows next) first last) :
    ∃ count, (advance next)^[count + 1] (some first) = some last := by
  induction reaches with
  | single step => exact ⟨0, by simpa [advance, Follows] using step⟩
  | tail _ step ih =>
    obtain ⟨count, same⟩ := ih
    refine ⟨count + 1, ?_⟩
    rw [Function.iterate_succ_apply', same]
    exact step

theorem iterate_ne_none {start : κ} {count : Nat}
    (periodic : Function.IsPeriodicPt (advance next) (count + 1) (some start)) (steps : Nat) :
    (advance next)^[steps] (some start) ≠ none := by
  intro ended
  have later : (advance next)^[(count + 1) * (steps + 1)] (some start) = some start :=
    periodic.mul_const _
  have split : (count + 1) * (steps + 1) = (count * (steps + 1) + 1) + steps := by ring
  rw [split, Function.iterate_add_apply, ended, advance_iterate_none] at later
  cases later

theorem minimalPeriod_le_length [DecidableEq κ] {start : κ} {nodes : List κ}
    (inside : ∀ steps, ∃ id ∈ nodes, (advance next)^[steps] (some start) = some id) :
    Function.minimalPeriod (advance next) (some start) ≤ nodes.length := by
  have injected : ((Finset.range (Function.minimalPeriod (advance next) (some start))).image
      fun steps => (advance next)^[steps] (some start)).card =
      Function.minimalPeriod (advance next) (some start) := by
    rw [Finset.card_image_of_injOn, Finset.card_range]
    simpa using Function.iterate_injOn_Iio_minimalPeriod
  rw [← injected]
  calc _ ≤ (nodes.map some).toFinset.card := Finset.card_le_card (by
        intro point
        simp only [Finset.mem_image, mem_toFinset, mem_map]
        rintro ⟨steps, -, rfl⟩
        obtain ⟨id, member, same⟩ := inside steps
        exact ⟨id, member, same.symm⟩)
    _ ≤ (nodes.map some).length := toFinset_card_le _
    _ = nodes.length := length_map _

end Steps

section Walk

variable [DecidableEq κ] (next : κ → Option κ) (start : κ)

/-- Follows `next` for at most the given number of steps and stops on coming back to `start`. -/
def walk : Nat → κ → Option (List κ)
  | 0, _ => some []
  | steps + 1, here =>
    match next here with
    | none => none
    | some found =>
      if found = start then some [found] else (walk steps found).map (found :: ·)

variable {next start}

/-- A walk either came back or used every step without meeting its start. -/
theorem walk_some {steps : Nat} {here : κ}
    (walked : walk next start steps here = some path) :
    List.IsChain (Follows next) (here :: path) ∧
      ((∃ middle, path = middle ++ [start]) ∨ (path.length = steps ∧ start ∉ path)) := by
  induction steps generalizing here path with
  | zero =>
    simp only [walk, Option.some.injEq] at walked
    subst walked
    simp
  | succ steps ih =>
    simp only [walk] at walked
    split at walked
    · cases walked
    · rename_i found step
      split at walked
      · rename_i back
        simp only [Option.some.injEq] at walked
        subst walked
        exact ⟨by simpa [Follows] using step, Or.inl ⟨[], by simp [back]⟩⟩
      · rename_i away
        obtain ⟨rest, inner, rfl⟩ := Option.map_eq_some_iff.mp walked
        obtain ⟨chain, ended⟩ := ih inner
        refine ⟨isChain_cons_cons.mpr ⟨step, chain⟩, ?_⟩
        rcases ended with ⟨middle, rfl⟩ | ⟨full, absent⟩
        · exact Or.inl ⟨found :: middle, rfl⟩
        · exact Or.inr ⟨by simp [full], by simp [absent, Ne.symm away]⟩

theorem walk_returns {count steps : Nat} {here : κ} (bounded : count < steps)
    (back : (advance next)^[count + 1] (some here) = some start) :
    ∃ middle, walk next start steps here = some (middle ++ [start]) := by
  induction steps generalizing here count with
  | zero => omega
  | succ steps ih =>
    rw [Function.iterate_succ_apply, advance, Option.bind_some] at back
    cases step : next here with
    | none => simp [step, advance_iterate_none] at back
    | some found =>
      simp only [walk, step]
      by_cases same : found = start
      · exact ⟨[], by simp [same]⟩
      · rw [step] at back
        cases count with
        | zero =>
          simp only [Function.iterate_zero, id_eq, Option.some.injEq] at back
          exact absurd back same
        | succ count =>
          obtain ⟨middle, inner⟩ := ih (by omega) back
          exact ⟨found :: middle, by simp [if_neg same, inner]⟩

/-- A start that its own steps come back to is met within as many steps as there are nodes. -/
theorem walk_returns_of_transGen {nodes : List κ}
    (inside : ∀ here found, next here = some found → found ∈ nodes) (member : start ∈ nodes)
    (circle : Relation.TransGen (Follows next) start start) :
    ∃ middle, walk next start nodes.length start = some (middle ++ [start]) := by
  obtain ⟨count, back⟩ := follows_iterate circle
  have periodic : Function.IsPeriodicPt (advance next) (count + 1) (some start) := back
  have positive := periodic.minimalPeriod_pos (Nat.succ_pos count)
  have covered : ∀ steps, ∃ id ∈ nodes, (advance next)^[steps] (some start) = some id := by
    intro steps
    obtain ⟨id, here⟩ := Option.ne_none_iff_exists'.mp (iterate_ne_none periodic steps)
    refine ⟨id, ?_, here⟩
    cases steps with
    | zero =>
      simp only [Function.iterate_zero, id_eq, Option.some.injEq] at here
      exact here ▸ member
    | succ steps =>
      rw [Function.iterate_succ_apply'] at here
      obtain ⟨before, -, step⟩ := Option.bind_eq_some_iff.mp here
      exact inside before id step
  have short := minimalPeriod_le_length covered
  have back : (advance next)^[Function.minimalPeriod (advance next) (some start) - 1 + 1]
      (some start) = some start := by
    rw [Nat.sub_add_cancel positive]
    exact Function.iterate_minimalPeriod
  exact walk_returns (by omega) back

end Walk

end Waiting
