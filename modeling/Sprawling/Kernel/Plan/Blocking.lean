import Sprawling.Base.Peeling
import Sprawling.Kernel.Plan.Node

namespace Sprawling.Plan

open List Std.ExtTreeMap Waiting OrdMap

/-- How many needs of each node are not struck yet, and the nodes with none left, last pushed
first. -/
structure Peeling where
  waiting : OrdMap NodeId Nat
  queue : List NodeId

/-- Strikes `free` off one node that names it. -/
def strike (free : NodeId) (state : Peeling) (entry : NodeId × PlanNode) : Peeling :=
  if free ∈ entry.2.row.needs then
    match state.waiting[entry.1]? with
    | none => state
    | some count =>
      { waiting := state.waiting.insert entry.1 (count - 1)
        queue := if count - 1 = 0 then entry.1 :: state.queue else state.queue }
  else state

/-- One turn of the loop for a popped node. -/
def release (nodes : NodeMap) (free : NodeId) (state : Peeling) : Peeling :=
  nodes.toList.foldl (strike free) { state with waiting := state.waiting.erase free }

/-- Pops until the queue is empty. No node is pushed twice, so as many turns as there are nodes
are enough. -/
def peel (nodes : NodeMap) : Nat → Peeling → OrdMap NodeId Nat
  | 0, state => state.waiting
  | turns + 1, state =>
    match state.queue with
    | [] => state.waiting
    | free :: queue => peel nodes turns (release nodes free { state with queue })

/-- The counts and the queue the loop starts from. -/
def initialPeeling (nodes : NodeMap) : Peeling :=
  let waiting := nodes.map fun _ node => node.row.needs.length
  { waiting
    queue := ((waiting.toList.filter fun entry => entry.2 == 0).map Prod.fst).reverse }

/-- What is left once nothing more can be struck, in key order. -/
def stuckNodes (nodes : NodeMap) : List NodeId :=
  (peel nodes nodes.size (initialPeeling nodes)).keys

/-- The first need of a node that is among `stuck`. -/
def firstStuckNeed (nodes : NodeMap) (stuck : List NodeId) (here : NodeId) : Option NodeId :=
  nodes[here]?.bind fun node => node.row.needs.find? fun need => decide (need ∈ stuck)

def firstCycle (nodes : NodeMap) : Option (List NodeId) :=
  match stuckNodes nodes with
  | [] => none
  | start :: others =>
    (Waiting.walk (firstStuckNeed nodes (start :: others)) start (others.length + 1) start).map
      (start :: ·)

/-- What each placed node names as its needs. -/
def needsIn (nodes : NodeMap) (id : NodeId) : Option (List NodeId) :=
  nodes[id]?.map fun node => node.row.needs

/-- The entries `strike` brings down to zero. -/
def emptied (free : NodeId) (waiting : OrdMap NodeId Nat) (entry : NodeId × PlanNode) : Bool :=
  decide (free ∈ entry.2.row.needs) && waiting[entry.1]?.any fun count => count - 1 == 0

theorem strike_waiting (free : NodeId) (state : Peeling) (entry : NodeId × PlanNode) (id : NodeId) :
    (strike free state entry).waiting[id]? =
      if entry.1 = id ∧ free ∈ entry.2.row.needs then state.waiting[id]?.map (· - 1)
      else state.waiting[id]? := by
  unfold strike
  split
  · rename_i names
    split
    · rename_i gone
      split
      · rename_i here
        simp [← here.1, gone]
      · rfl
    · rename_i count found
      by_cases same : entry.1 = id
      · simp [← same, names, found]
      · simp [same]
  · rename_i skipped
    simp [skipped]

theorem strike_queue (free : NodeId) (state : Peeling) (entry : NodeId × PlanNode) :
    (strike free state entry).queue =
      if emptied free state.waiting entry then entry.1 :: state.queue else state.queue := by
  unfold strike emptied
  split
  · rename_i names
    split
    · rename_i gone
      simp [gone]
    · rename_i count found
      simp [names, found]
  · rename_i skipped
    simp [skipped]

variable {free : NodeId} {entries : List (NodeId × PlanNode)}

theorem foldl_strike_waiting
    (distinct : (entries.map Prod.fst).Nodup) (state : Peeling) (id : NodeId) :
    (entries.foldl (strike free) state).waiting[id]? =
      if ∃ entry ∈ entries, entry.1 = id ∧ free ∈ entry.2.row.needs
        then state.waiting[id]?.map (· - 1)
      else state.waiting[id]? := by
  induction entries generalizing state with
  | nil => simp
  | cons entry entries ih =>
    simp only [map_cons, nodup_cons] at distinct
    rw [foldl_cons, ih distinct.2, strike_waiting]
    by_cases here : entry.1 = id ∧ free ∈ entry.2.row.needs
    · have elsewhere : ¬ ∃ other ∈ entries, other.1 = id ∧ free ∈ other.2.row.needs := by
        rintro ⟨other, member, same, -⟩
        exact distinct.1 (mem_map.mpr ⟨other, member, same.trans here.1.symm⟩)
      simp [here, elsewhere]
    · simp only [here, exists_mem_cons_iff, false_or, if_false]

theorem foldl_strike_queue (distinct : (entries.map Prod.fst).Nodup) (state : Peeling) :
    (entries.foldl (strike free) state).queue =
      ((entries.filter (emptied free state.waiting)).map Prod.fst).reverse ++ state.queue := by
  induction entries generalizing state with
  | nil => simp
  | cons entry entries ih =>
    simp only [map_cons, nodup_cons] at distinct
    -- striking this entry leaves the counts the later entries are judged by
    have later : entries.filter (emptied free (strike free state entry).waiting) =
        entries.filter (emptied free state.waiting) := by
      refine filter_congr fun other member => ?_
      have apart : ¬ entry.1 = other.1 := fun same =>
        distinct.1 (mem_map.mpr ⟨other, member, same.symm⟩)
      simp [emptied, strike_waiting, apart]
    rw [foldl_cons, ih distinct.2, later, strike_queue, filter_cons]
    split <;> simp

/-- Where the loop stands once `popped` has been popped. -/
def Peels (nodes : NodeMap) (popped : List NodeId) (state : Peeling) : Prop :=
  Waiting.Peels (needsIn nodes) popped (fun id => state.waiting[id]?) state.queue

theorem peels_initial (nodes : NodeMap) : Peels nodes [] (initialPeeling nodes) := by
  refine ⟨nodup_nil, ?_, fun id => ?_, fun id => ?_, by simp, Trace.always_nil⟩
  · simp only [initialPeeling, nodup_reverse]
    exact (nodup_fst_toList _).sublist (filter_sublist.map Prod.fst)
  · simp [initialPeeling, needsIn, struck, Function.comp_def]
  · simp [initialPeeling, mem_toList_iff_getElem?_eq_some]

variable {popped : List NodeId} {nodes : NodeMap} {state : Peeling} {id : NodeId}

theorem entry_iff_needsIn :
    (∃ entry ∈ nodes.toList, entry.1 = id ∧ free ∈ entry.2.row.needs) ↔
      ∃ list, needsIn nodes id = some list ∧ free ∈ list := by
  simp [needsIn, mem_toList_iff_getElem?_eq_some]

theorem release_waiting (nodes : NodeMap) (free : NodeId) (state : Peeling) (id : NodeId) :
    (release nodes free state).waiting[id]? =
      if free = id then none
      else if ∃ list, needsIn nodes id = some list ∧ free ∈ list
        then state.waiting[id]?.map (· - 1)
      else state.waiting[id]? := by
  rw [release, foldl_strike_waiting (nodup_fst_toList nodes)]
  simp only [entry_iff_needsIn, get_erase]
  by_cases same : free = id <;> simp [same]

theorem mem_emptied (nodes : NodeMap) (free : NodeId) (waiting : OrdMap NodeId Nat) (id : NodeId) :
    id ∈ (nodes.toList.filter (emptied free (waiting.erase free))).map Prod.fst ↔
      free ≠ id ∧ (∃ list, needsIn nodes id = some list ∧ free ∈ list) ∧
        ∃ count, waiting[id]? = some count ∧ count - 1 = 0 := by
  rw [mem_map, ← entry_iff_needsIn]
  constructor
  · rintro ⟨entry, member, rfl⟩
    obtain ⟨listed, drained⟩ := mem_filter.mp member
    simp only [emptied, Bool.and_eq_true, decide_eq_true_eq, get_erase] at drained
    obtain ⟨names, last⟩ := drained
    by_cases same : free = entry.1
    · simp [same] at last
    · rw [if_neg same, Option.any_eq_true] at last
      obtain ⟨count, found, zero⟩ := last
      exact ⟨same, ⟨entry, listed, rfl, names⟩, count, found, by simpa using zero⟩
  · rintro ⟨apart, ⟨entry, listed, rfl, names⟩, count, found, zero⟩
    refine ⟨entry, mem_filter.mpr ⟨listed, ?_⟩, rfl⟩
    simp [emptied, names, apart, found, zero]

theorem peels_release {queue : List NodeId} {waiting : OrdMap NodeId Nat}
    (peels : Peels nodes popped { waiting, queue := free :: queue }) :
    Peels nodes (popped ++ [free]) (release nodes free { waiting, queue }) := by
  apply Waiting.Peels.turn peels _ (fun id => release_waiting nodes free { waiting, queue } id) _
    (mem_emptied nodes free waiting)
  · rw [release, foldl_strike_queue (nodup_fst_toList nodes)]
    exact ((reverse_perm _).append_right _).trans perm_append_comm
  · exact (nodup_fst_toList nodes).sublist (filter_sublist.map Prod.fst)

theorem peels_peel {turns : Nat} (peels : Peels nodes popped state)
    (enough : nodes.size ≤ turns + popped.length) :
    ∃ final, Peels nodes final { waiting := peel nodes turns state, queue := [] } := by
  induction turns generalizing popped state with
  | zero =>
    have inside : ∀ id, (needsIn nodes id).isSome = true → id ∈ nodes.keys := by
      intro id present
      rw [Std.ExtTreeMap.mem_keys, mem_iff_isSome_getElem?]
      rwa [needsIn, Option.isSome_map] at present
    have bound := Waiting.Peels.length_le peels inside
    rw [length_keys] at bound
    have drained : state.queue = [] := length_eq_zero_iff.mp (by omega)
    obtain ⟨waiting, queue⟩ := state
    cases drained
    exact ⟨popped, peels⟩
  | succ turns ih =>
    obtain ⟨waiting, queue⟩ := state
    cases queue with
    | nil => exact ⟨popped, peels⟩
    | cons free queue =>
      refine ih (peels_release peels) ?_
      rw [length_append, length_singleton]
      omega

theorem mem_stuckNodes : id ∈ stuckNodes nodes ↔ Waiting.Stuck (needsIn nodes) id := by
  obtain ⟨popped, peels⟩ : ∃ popped, Peels nodes popped
      { waiting := peel nodes nodes.size (initialPeeling nodes), queue := [] } :=
    peels_peel (peels_initial nodes) (by simp)
  rw [stuckNodes, Std.ExtTreeMap.mem_keys, mem_iff_isSome_getElem?, peels.counted, Waiting.Stuck]
  by_cases gone : id ∈ popped
  · simp [gone, freed_of_needsFirst peels.first peels.listed id gone]
  · have held : ¬ Waiting.Freed (needsIn nodes) id := fun freed => gone (peels.mem_of_freed freed)
    simp [gone, held]

theorem follows_firstStuckNeed {here next : NodeId} :
    firstStuckNeed nodes (stuckNodes nodes) here = some next ↔
      Waiting.FirstStuck (needsIn nodes) here next := by
  simp only [firstStuckNeed, Option.bind_eq_some_iff, find?_eq_some_iff_append,
    mem_stuckNodes, decide_eq_true_eq, Bool.not_eq_true', decide_eq_false_iff_not,
    Waiting.FirstStuck, needsIn, Option.map_eq_some_iff]
  constructor
  · rintro ⟨node, found, stuck, before, after, shape, skipped⟩
    exact ⟨before, after, ⟨node, found, shape⟩, skipped, stuck⟩
  · rintro ⟨before, after, ⟨node, found, shape⟩, skipped, stuck⟩
    exact ⟨node, found, stuck, before, after, shape, skipped⟩

/-- The node the walk starts from: no stuck node has a smaller index. -/
def SmallestStuck (needs : NodeId → Option (List NodeId)) (start : NodeId) : Prop :=
  Waiting.Stuck needs start ∧ ∀ other, Waiting.Stuck needs other → compare start other ≠ .gt

/-- Following first stuck needs from the smallest stuck node comes back to it. -/
def WalkReturns (needs : NodeId → Option (List NodeId)) : Prop :=
  ∃ start, SmallestStuck needs start ∧
    Relation.TransGen (Waiting.FirstStuck needs) start start

theorem smallestStuck_head {start : NodeId} {others : List NodeId}
    (listed : stuckNodes nodes = start :: others) : SmallestStuck (needsIn nodes) start := by
  have sorted : (stuckNodes nodes).Pairwise fun first second => compare first second = .lt :=
    ordered_keys
  rw [listed, pairwise_cons] at sorted
  refine ⟨mem_stuckNodes.mp (listed ▸ mem_cons_self), fun other stuck => ?_⟩
  have member := mem_stuckNodes.mpr stuck
  rw [listed, mem_cons] at member
  rcases member with rfl | member
  · simp
  · rw [sorted.1 other member]
    decide

theorem smallestStuck_unique {needs : NodeId → Option (List NodeId)} {first second : NodeId}
    (one : SmallestStuck needs first) (two : SmallestStuck needs second) : first = second := by
  have below : (compare first second).isLE :=
    Ordering.isLE_iff_ne_gt.mpr (one.2 second two.1)
  have above : (compare second first).isLE :=
    Ordering.isLE_iff_ne_gt.mpr (two.2 first one.1)
  exact Std.LawfulEqCmp.eq_of_compare (Std.OrientedCmp.isLE_antisymm below above)

theorem firstCycle_some {walk : List NodeId} (found : firstCycle nodes = some walk) :
    ∃ start path, walk = start :: path ∧ SmallestStuck (needsIn nodes) start ∧
      List.IsChain (Waiting.FirstStuck (needsIn nodes)) walk ∧
      ((∃ middle, path = middle ++ [start]) ∨
        (path.length = (stuckNodes nodes).length ∧ start ∉ path)) := by
  unfold firstCycle at found
  split at found
  · cases found
  · rename_i start others listed
    obtain ⟨path, walked, rfl⟩ := Option.map_eq_some_iff.mp found
    rw [← listed] at walked
    obtain ⟨chain, ended⟩ := walk_some walked
    refine ⟨start, path, rfl, smallestStuck_head listed, ?_, ?_⟩
    · exact chain.imp fun _ _ step => follows_firstStuckNeed.mp step
    · rw [listed]
      exact ended

theorem firstCycle_of_walkReturns (returns : WalkReturns (needsIn nodes)) :
    ∃ walk, firstCycle nodes = some walk ∧ Waiting.IsCircle (needsIn nodes) walk := by
  obtain ⟨start, smallest, circle⟩ := returns
  have member := mem_stuckNodes.mpr smallest.1
  obtain ⟨first, others, listed⟩ : ∃ first others, stuckNodes nodes = first :: others :=
    exists_cons_of_ne_nil (ne_nil_of_mem member)
  obtain rfl := smallestStuck_unique smallest (smallestStuck_head listed)
  have follows : Relation.TransGen (Waiting.Follows (firstStuckNeed nodes (stuckNodes nodes)))
      start start := Relation.TransGen.mono (fun _ _ step => follows_firstStuckNeed.mpr step) _ _ circle
  have inside : ∀ here found, firstStuckNeed nodes (stuckNodes nodes) here = some found →
      found ∈ stuckNodes nodes := by
    intro here found step
    obtain ⟨-, -, -, -, stuck⟩ := follows_firstStuckNeed.mp step
    exact mem_stuckNodes.mpr stuck
  obtain ⟨middle, walked⟩ := walk_returns_of_transGen inside member follows
  have answer : firstCycle nodes = some (start :: (middle ++ [start])) := by
    rw [listed] at walked
    simp only [firstCycle, listed]
    rw [length_cons] at walked
    rw [walked, Option.map_some]
  refine ⟨_, answer, start, middle, rfl, ?_⟩
  obtain ⟨_, _, shape, -, chain, -⟩ := firstCycle_some answer
  exact chain.imp fun _ _ step => needs_of_firstStuck step

theorem firstCycle_of_acyclic (acyclic : ¬ Waiting.Cyclic (needsIn nodes)) :
    firstCycle nodes = none := by
  cases found : firstCycle nodes with
  | none => rfl
  | some walk =>
    exfalso
    obtain ⟨start, path, rfl, smallest, chain, ended⟩ := firstCycle_some found
    have needsChain : List.IsChain (Waiting.Needs (needsIn nodes)) (start :: path) :=
      chain.imp fun _ _ step => needs_of_firstStuck step
    have distinct := nodup_of_isChain needsChain acyclic
    rcases ended with ⟨middle, rfl⟩ | ⟨full, -⟩
    · simp at distinct
    · have inside : start :: path ⊆ stuckNodes nodes := by
        intro id member
        rw [mem_stuckNodes]
        rcases mem_cons.mp member with rfl | member
        · exact smallest.1
        · obtain ⟨before, -, -, -, -, stuck⟩ :=
            exists_step_of_mem_tail chain member
          exact stuck
      have bound := (distinct.subperm inside).length_le
      rw [length_cons] at bound
      omega

/-- The answer is decided by what the nodes need. -/
theorem firstCycle_congr {other : NodeMap} (same : needsIn nodes = needsIn other) :
    firstCycle nodes = firstCycle other := by
  have stuck : stuckNodes nodes = stuckNodes other := by
    apply keys_congr
    intro id
    have here : id ∈ stuckNodes nodes ↔ id ∈ stuckNodes other := by
      rw [mem_stuckNodes, mem_stuckNodes, same]
    rwa [stuckNodes, stuckNodes, Std.ExtTreeMap.mem_keys, Std.ExtTreeMap.mem_keys] at here
  have first : ∀ listed, firstStuckNeed nodes listed = firstStuckNeed other listed := by
    intro listed
    funext here
    have needs := congrFun same here
    simp only [needsIn] at needs
    simp only [firstStuckNeed]
    cases held : nodes[here]? with
    | none => cases again : other[here]? <;> simp_all
    | some node => cases again : other[here]? <;> simp_all
  simp only [firstCycle, stuck, first]


/-- `firstCycle` does what it is for exactly when every circle leaves the walk's start on one. -/
theorem firstCycle_correct_iff (nodes : NodeMap) :
    (((firstCycle nodes).isSome = true ↔ Waiting.Cyclic (needsIn nodes)) ∧
      ∀ walk, firstCycle nodes = some walk → Waiting.IsCircle (needsIn nodes) walk) ↔
    (Waiting.Cyclic (needsIn nodes) → WalkReturns (needsIn nodes)) := by
  constructor
  · rintro ⟨answers, real⟩ cyclic
    obtain ⟨walk, found⟩ := Option.isSome_iff_exists.mp (answers.mpr cyclic)
    obtain ⟨start, middle, shape, -⟩ := real walk found
    obtain ⟨first, path, same, smallest, chain, -⟩ := firstCycle_some found
    rw [shape] at same chain
    obtain ⟨rfl, -⟩ := List.cons.inj same
    exact ⟨start, smallest, isChain_transGen chain⟩
  · intro returns
    by_cases cyclic : Waiting.Cyclic (needsIn nodes)
    · obtain ⟨walk, found, circle⟩ := firstCycle_of_walkReturns (returns cyclic)
      refine ⟨by simp [found, cyclic], fun other again => ?_⟩
      rw [found] at again
      exact Option.some.inj again ▸ circle
    · simp [firstCycle_of_acyclic cyclic, cyclic]

end Sprawling.Plan
