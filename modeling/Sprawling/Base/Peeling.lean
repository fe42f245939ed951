import Sprawling.Base.Trace
import Sprawling.Base.Waiting

/-! Peeling a graph of needs: nodes are taken once no need of theirs is left, each taken node is
struck from the counts of the nodes that need it, and what is taken so is what can be freed. -/

namespace Waiting

open List

variable {κ : Type} [DecidableEq κ]

def struck (taken list : List κ) : Nat := (taken.filter fun id => decide (id ∈ list)).length

variable {taken list : List κ}

theorem struck_concat {free : κ} :
    struck (taken ++ [free]) list = struck taken list + if free ∈ list then 1 else 0 := by
  unfold struck
  by_cases names : free ∈ list <;> simp [names]

theorem struck_full (distinct : taken.Nodup) :
    list.length ≤ struck taken list ↔ list.Nodup ∧ ∀ need ∈ list, need ∈ taken := by
  have inside : taken.filter (fun id => decide (id ∈ list)) ⊆ list := by
    intro id member
    simpa using (mem_filter.mp member).2
  have once := distinct.filter fun id => decide (id ∈ list)
  constructor
  · intro full
    have same := (once.subperm inside).perm_of_length_le full
    refine ⟨same.nodup_iff.mp once, fun need member => ?_⟩
    exact (mem_filter.mp (same.mem_iff.mpr member)).1
  · rintro ⟨single, covered⟩
    apply (single.subperm fun need member => ?_).length_le
    exact mem_filter.mpr ⟨covered need member, by simpa using member⟩

/-- Needs come before what needs them. -/
def NeedsFirst (needs : κ → Option (List κ)) (order : List κ) : Prop :=
  Trace.Always (fun before id => ∀ list, needs id = some list → ∀ need ∈ list, need ∈ before) order

/-- Where a peeling stands once `taken` has been taken: the counts that are left, and the nodes
whose count came to zero. -/
structure Peels (needs : κ → Option (List κ)) (taken : List κ) (counts : κ → Option Nat)
    (queue : List κ) : Prop where
  takenOnce : taken.Nodup
  queuedOnce : queue.Nodup
  counted : ∀ id, counts id =
    if id ∈ taken then none else (needs id).map fun list => list.length - struck taken list
  queued : ∀ id, id ∈ queue ↔ counts id = some 0
  listed : ∀ id ∈ taken, ∃ list, needs id = some list ∧ list.Nodup
  first : NeedsFirst needs taken

variable {needs : κ → Option (List κ)} {taken queue : List κ} {counts : κ → Option Nat}

theorem Peels.present (peels : Peels needs taken counts queue) (id : κ) (member : id ∈ taken) :
    (needs id).isSome = true := by
  obtain ⟨list, found, -⟩ := peels.listed id member
  rw [found, Option.isSome_some]

theorem Peels.of_queued (peels : Peels needs taken counts queue) {id : κ} (member : id ∈ queue) :
    id ∉ taken ∧ ∃ list, needs id = some list ∧ list.Nodup ∧ ∀ need ∈ list, need ∈ taken := by
  have zero := (peels.queued id).mp member
  rw [peels.counted] at zero
  by_cases gone : id ∈ taken
  · rw [if_pos gone] at zero
    cases zero
  · rw [if_neg gone] at zero
    obtain ⟨list, found, drained⟩ := Option.map_eq_some_iff.mp zero
    have full := (struck_full peels.takenOnce).mp (Nat.sub_eq_zero_iff_le.mp drained)
    exact ⟨gone, list, found, full⟩

/-- One turn: the first queued node is taken, the counts of those that need it go down, and those
that come to zero are queued. -/
theorem Peels.turn {free : κ} {freed next : List κ} {counts' : κ → Option Nat}
    (peels : Peels needs taken counts (free :: queue)) (joined : next.Perm (queue ++ freed))
    (lowered : ∀ id, counts' id = if free = id then none
      else if ∃ list, needs id = some list ∧ free ∈ list then (counts id).map (· - 1)
      else counts id)
    (once : freed.Nodup)
    (emptied : ∀ id, id ∈ freed ↔ free ≠ id ∧ (∃ list, needs id = some list ∧ free ∈ list) ∧
      ∃ count, counts id = some count ∧ count - 1 = 0) :
    Peels needs (taken ++ [free]) counts' next := by
  obtain ⟨fresh, own, found, single, covered⟩ := peels.of_queued mem_cons_self
  have onceTail := nodup_cons.mp peels.queuedOnce
  -- A node already queued needs taken nodes only, and `free` was not taken yet.
  have unmoved : ∀ id ∈ queue, ¬∃ list, needs id = some list ∧ free ∈ list := by
    rintro id member ⟨list, listed, names⟩
    obtain ⟨-, other, known, -, before⟩ := peels.of_queued (mem_cons_of_mem _ member)
    rw [listed] at known
    cases known
    exact fresh (before free names)
  refine ⟨?_, ?_, ?_, ?_, ?_, ?_⟩
  · apply List.Nodup.append peels.takenOnce (nodup_singleton free)
    intro id before same
    rw [mem_singleton.mp same] at before
    exact fresh before
  · apply joined.nodup_iff.mpr
    apply List.Nodup.append onceTail.2 once
    intro id before new
    exact unmoved id before ((emptied id).mp new).2.1
  · intro id
    rw [lowered, peels.counted]
    by_cases same : free = id
    · simp [same]
    · by_cases gone : id ∈ taken
      · simp [same, gone]
      · cases listed : needs id with
        | none => simp [same, gone]
        | some other =>
          by_cases names : free ∈ other
          · simp [same, Ne.symm same, gone, names, struck_concat, Nat.sub_sub]
          · simp [same, Ne.symm same, gone, names, struck_concat]
  · intro id
    rw [joined.mem_iff, mem_append, emptied, lowered]
    have before := peels.queued id
    by_cases same : free = id
    · subst same
      simp [onceTail.1]
    · simp only [mem_cons, Ne.symm same, false_or] at before
      rw [if_neg same]
      by_cases names : ∃ list, needs id = some list ∧ free ∈ list
      · rw [if_pos names, Option.map_eq_some_iff]
        constructor
        · rintro (old | ⟨-, -, zero⟩)
          · exact absurd names (unmoved id old)
          · exact zero
        · exact fun zero => Or.inr ⟨same, names, zero⟩
      · rw [if_neg names, before]
        exact ⟨fun either => either.resolve_right fun new => names new.2.1, Or.inl⟩
  · intro id member
    rcases mem_append.mp member with old | new
    · exact peels.listed id old
    · exact ⟨own, mem_singleton.mp new ▸ found, single⟩
  · refine Trace.always_concat.mpr ⟨peels.first, ?_⟩
    intro list listed need inside
    rw [found] at listed
    cases listed
    exact covered need inside

/-- Taken and queued nodes together are distinct nodes. -/
theorem Peels.length_le {nodes : List κ} (peels : Peels needs taken counts queue)
    (inside : ∀ id, (needs id).isSome = true → id ∈ nodes) :
    taken.length + queue.length ≤ nodes.length := by
  have distinct : (taken ++ queue).Nodup :=
    List.Nodup.append peels.takenOnce peels.queuedOnce fun id before queued =>
      (peels.of_queued queued).1 before
  have covered : taken ++ queue ⊆ nodes := by
    intro id member
    apply inside
    rcases mem_append.mp member with before | queued
    · exact peels.present id before
    · obtain ⟨-, list, found, -⟩ := peels.of_queued queued
      rw [found]
      rfl
  have bound := (distinct.subperm covered).length_le
  rwa [length_append] at bound

theorem Peels.mem_of_freed (peels : Peels needs taken counts []) {id : κ} (freed : Freed needs id) :
    id ∈ taken := by
  induction freed with
  | @free id list found single all ih =>
    by_contra fresh
    have drained := (struck_full peels.takenOnce).mpr ⟨single, ih⟩
    have zero := peels.counted id
    rw [if_neg fresh, found, Option.map_some, Nat.sub_eq_zero_of_le drained] at zero
    exact absurd ((peels.queued id).mpr zero) not_mem_nil

omit [DecidableEq κ] in
/-- What is taken with its needs first can be freed. -/
theorem freed_of_needsFirst {order : List κ} (first : NeedsFirst needs order)
    (listed : ∀ id ∈ order, ∃ list, needs id = some list ∧ list.Nodup) :
    ∀ id ∈ order, Freed needs id := by
  induction order using List.reverseRecOn with
  | nil => simp
  | append_singleton order last ih =>
    obtain ⟨earlier, due⟩ := Trace.always_concat.mp first
    have freed := ih earlier fun id member => listed id (mem_append_left _ member)
    intro id member
    rcases mem_append.mp member with old | new
    · exact freed id old
    · obtain ⟨list, found, single⟩ := listed id member
      rw [mem_singleton.mp new] at found ⊢
      exact .free found single fun need inside =>
        freed need (due list found need inside)

section Acyclic

variable {nodes : List κ}

omit [DecidableEq κ] in
/-- Where needs run in no circle and each names a node, every node can be freed. -/
theorem freed_of_acyclic (single : ∀ id list, needs id = some list → list.Nodup)
    (inside : ∀ id, (needs id).isSome = true → id ∈ nodes)
    (named : ∀ id need, Needs needs id need → (needs need).isSome = true)
    (acyclic : ¬Cyclic needs) {id : κ} (present : (needs id).isSome = true) : Freed needs id := by
  by_contra held
  -- Follow stuck needs from a stuck node: they would have to end, and cannot.
  obtain ⟨last, reached, ends⟩ := @exists_end κ
    (fun first second => Needs needs first second ∧ Stuck needs second) id nodes
    (fun _ second step => inside second step.2.1)
    (fun other _ circle => acyclic ⟨other, Relation.TransGen.mono (fun _ _ step => step.1) _ _ circle⟩)
  have stuck : Stuck needs last := by
    rcases Relation.ReflTransGen.cases_tail reached with same | ⟨_, _, step⟩
    · rw [same]
      exact ⟨present, held⟩
    · exact step.2
  obtain ⟨list, found⟩ := Option.isSome_iff_exists.mp stuck.1
  apply stuck.2
  apply Freed.free found (single last list found)
  intro need member
  by_contra waits
  have step : Needs needs last need := ⟨list, found, member⟩
  exact ends need ⟨step, named last need step, waits⟩

omit [DecidableEq κ] in
theorem acyclic_of_freed (freed : ∀ id, (needs id).isSome = true → Freed needs id) :
    ¬Cyclic needs := by
  rintro ⟨id, circle⟩
  obtain ⟨next, ⟨list, found, -⟩, -⟩ := Relation.TransGen.head'_iff.mp circle
  exact not_transGen_of_freed (freed id (by rw [found]; rfl)) circle

end Acyclic

end Waiting
