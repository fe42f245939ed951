import Sprawling.Kernel.Plan.Build

namespace Sprawling.PlanTree

open List NodeId

section Table

variable (rows : List RoadmapRow)

def Undone (id : NodeId) : Prop := ∃ row ∈ rows, row.id = id ∧ row.status ≠ .done

def IsBranch (id : NodeId) : Prop := ∃ row ∈ rows, row.id.parent = some id

/-- `need` is named by `id` or by one of the branches it hangs under. -/
def Inherits (id need : NodeId) : Prop :=
  ∃ row ∈ rows, row.id ∈ id.ancestors ++ [id] ∧ need ∈ row.needs

/-- What an unfinished node waits for: an unfinished need of its own or inherited, and for a
branch the children it summarises. -/
def WaitsFor (id other : NodeId) : Prop :=
  Undone rows id ∧ Undone rows other ∧
    ((IsBranch rows id ∧ other.parent = some id) ∨ (¬ IsBranch rows id ∧ Inherits rows id other))

/-- A branch nobody will close: it is not done while every child of it is. -/
def StaleBranch (id : NodeId) : Prop :=
  Undone rows id ∧ IsBranch rows id ∧ ∀ other, Undone rows other → other.parent ≠ some id

/-- Every leaf is open or done, and one of them is not done. -/
def Underway : Prop :=
  (∀ row ∈ rows, ¬ IsBranch rows row.id → row.status = .notStarted ∨ row.status = .done) ∧
    ∃ row ∈ rows, ¬ IsBranch rows row.id ∧ row.status ≠ .done

/-- Some unfinished leaf's waits run into no circle and no stale branch. -/
def Unblocked : Prop :=
  ∃ leaf, Undone rows leaf ∧ ¬ IsBranch rows leaf ∧
    ∀ id, Relation.ReflTransGen (WaitsFor rows) leaf id →
      ¬ Relation.TransGen (WaitsFor rows) id id ∧ ¬ StaleBranch rows id

end Table

theorem build_placed {rows : List RoadmapRow} {tree : PlanTree} (success : build rows = .ok tree) :
    Placeable rows ∧ Placed rows tree.nodes := by
  obtain ⟨nodes, placing, rest⟩ := Outcome.bind_eq_ok.mp success
  obtain ⟨_, -, rest⟩ := Outcome.bind_eq_ok.mp rest
  obtain ⟨_, -, divided⟩ := Outcome.bind_eq_ok.mp rest
  have placed := place_placed placing
  obtain ⟨after, again, shape⟩ := divide_ok placed
  rw [again] at divided
  cases divided
  refine ⟨place_placeable.mp ⟨nodes, placing⟩, fun id => ?_, fun id node held child => ?_⟩
  · have same := congrArg (Option.map Prod.fst) (shape id)
    rw [Option.map_map, Option.map_map] at same
    exact same.trans (placed.row id)
  · have same := shape id
    rw [held, Option.map_some] at same
    obtain ⟨old, found, equal⟩ := Option.map_eq_some_iff.mp same.symm
    simp only [Prod.mk.injEq] at equal
    rw [← equal.2, placed.children id old found child]
    refine and_congr_left fun _ => ?_
    have present := congrArg Option.isSome (shape child)
    simp only [Option.isSome_map] at present
    rw [Std.ExtTreeMap.mem_iff_isSome_getElem?, Std.ExtTreeMap.mem_iff_isSome_getElem?, present]

section Tree

variable {rows : List RoadmapRow} {tree : PlanTree}

theorem mem_foldl_addNeeds (steps : List NodeId) (found : Std.ExtTreeSet NodeId) (need : NodeId) :
    need ∈ steps.foldl tree.addNeeds found ↔
      need ∈ found ∨
        ∃ step ∈ steps, ∃ node, tree.nodes[step]? = some node ∧ need ∈ node.row.needs := by
  induction steps generalizing found with
  | nil => simp
  | cons step steps ih =>
    rw [foldl_cons, ih, addNeeds]
    cases held : tree.nodes[step]? with
    | none => simp [held]
    | some node => simp [held, Std.ExtTreeSet.mem_insertMany_list, or_assoc]

theorem mem_needsOf (placeable : Placeable rows) (placed : Placed rows tree.nodes)
    {id need : NodeId} : need ∈ tree.needsOf id ↔ Inherits rows id need := by
  rw [needsOf, mem_foldl_addNeeds]
  simp only [Std.ExtTreeSet.not_mem_empty, false_or, Inherits]
  constructor
  · rintro ⟨step, above, node, held, listed⟩
    obtain ⟨member, same⟩ := placed.row_of_get held
    exact ⟨node.row, member, same ▸ above, listed⟩
  · rintro ⟨row, member, above, listed⟩
    obtain ⟨node, held, rfl⟩ := placed.node placeable.distinct member
    exact ⟨node.row.id, above, node, held, listed⟩

theorem isDone_iff (placeable : Placeable rows) (placed : Placed rows tree.nodes) {need : NodeId}
    (present : ∃ row ∈ rows, row.id = need) : tree.isDone need = true ↔ ¬ Undone rows need := by
  obtain ⟨row, member, rfl⟩ := present
  obtain ⟨node, held, rfl⟩ := placed.node placeable.distinct member
  simp only [isDone, held, Option.any_some, beq_iff_eq, Undone, not_exists, not_and, not_not]
  constructor
  · intro done other inside same
    have equal := inj_on_of_nodup_map placeable.distinct inside member same
    rw [equal, done]
  · exact fun all => all node.row member rfl

variable {id : NodeId}

theorem isLeaf_iff (placed : Placed rows tree.nodes) {node : PlanNode}
    (held : tree.nodes[id]? = some node) : node.isLeaf = true ↔ ¬ IsBranch rows id := by
  rw [PlanNode.isLeaf, List.isEmpty_iff, eq_nil_iff_forall_not_mem]
  simp only [placed.children id node held, placed.mem, IsBranch, not_exists, not_and]
  constructor
  · exact fun childless row member hangs => childless row.id ⟨row, member, rfl⟩ hangs
  · rintro childless child ⟨row, member, rfl⟩ hangs
    exact childless row member hangs

theorem mem_ready_of_named (named : ∀ (id : NodeId) (node : PlanNode), tree.nodes[id]? = some node → node.row.id = id) :
    id ∈ tree.ready ↔ ∃ node, tree.nodes[id]? = some node ∧ node.isLeaf = true ∧
      node.row.status = .notStarted ∧ ∀ need ∈ tree.needsOf id, tree.isDone need = true := by
  simp only [ready, mem_map, mem_filter, Bool.and_eq_true, beq_iff_eq, all_eq_true,
    Std.ExtTreeSet.mem_toList, Prod.exists, Std.ExtTreeMap.mem_toList_iff_getElem?_eq_some,
    exists_eq_right]
  constructor
  · rintro ⟨node, ⟨⟨⟨key, held⟩, leaf, fresh⟩, done⟩, rfl⟩
    have same := named key node held
    exact ⟨node, by rw [same, held], leaf, fresh, done⟩
  · rintro ⟨node, held, leaf, fresh, done⟩
    have same := named id node held
    exact ⟨node, ⟨⟨⟨id, held⟩, leaf, fresh⟩, same ▸ done⟩, same⟩

theorem mem_ready (placed : Placed rows tree.nodes) :
    id ∈ tree.ready ↔ ∃ node, tree.nodes[id]? = some node ∧ node.isLeaf = true ∧
      node.row.status = .notStarted ∧ ∀ need ∈ tree.needsOf id, tree.isDone need = true :=
  mem_ready_of_named fun _ _ held => (placed.row_of_get held).2

/-- `claim` takes exactly what `ready` lists. -/
theorem claim_ok_iff (placed : Placed rows tree.nodes) (id : NodeId) :
    (∃ held, tree.claim id = .ok held) ↔ id ∈ tree.ready := by
  rw [mem_ready placed]
  unfold claim
  split
  · rename_i missing
    simp [missing]
  · rename_i node found
    simp only [found, Option.some.injEq, exists_eq_left']
    by_cases leaf : node.isLeaf = true
    · by_cases fresh : node.row.status = .notStarted
      · have drained : ((tree.needsOf id).toList.filter fun need => !tree.isDone need).isEmpty = true
            ↔ ∀ need ∈ tree.needsOf id, tree.isDone need = true := by
          simp [filter_eq_nil_iff, Std.ExtTreeSet.mem_toList]
        rw [← drained]
        by_cases done : ((tree.needsOf id).toList.filter fun need => !tree.isDone need).isEmpty = true
        · simp [leaf, fresh, done]
        · simp [leaf, fresh, done]
      · simp [leaf, fresh]
    · simp [leaf]

end Tree

/-- What is asked of `ready` and `claim` on one list of rows. -/
structure NeverStuck (rows : List RoadmapRow) : Prop where
  starts : ∀ tree, build rows = .ok tree → Underway rows → tree.ready ≠ []
  claims : ∀ tree, build rows = .ok tree →
    ∀ id, (∃ held, tree.claim id = .ok held) ↔ id ∈ tree.ready

section Progress

variable {rows : List RoadmapRow} {tree : PlanTree} (success : build rows = .ok tree)

include success

variable {id : NodeId}

theorem ready_of_no_waits
    (named : ∀ row ∈ rows, ∀ need ∈ row.needs, ∃ other ∈ rows, other.id = need)
    (open_or_done : ∀ row ∈ rows, ¬ IsBranch rows row.id →
      row.status = .notStarted ∨ row.status = .done) (undone : Undone rows id) (none_waited : ∀ other, ¬ WaitsFor rows id other) :
    StaleBranch rows id ∨ id ∈ tree.ready := by
  obtain ⟨placeable, placed⟩ := build_placed success
  by_cases branch : IsBranch rows id
  · refine Or.inl ⟨undone, branch, fun other open_ hangs => ?_⟩
    exact none_waited other ⟨undone, open_, Or.inl ⟨branch, hangs⟩⟩
  · right
    obtain ⟨row, member, rfl, unfinished⟩ := undone
    obtain ⟨node, held, rfl⟩ := placed.node placeable.distinct member
    refine (mem_ready placed).mpr ⟨node, held, (isLeaf_iff placed held).mpr branch, ?_, ?_⟩
    · exact (open_or_done node.row member branch).resolve_right unfinished
    · intro need inherited
      have inherits := (mem_needsOf placeable placed).mp inherited
      have ⟨other, inside, _, listed⟩ := inherits
      rw [isDone_iff placeable placed (named other inside need listed)]
      intro open_
      exact none_waited need
        ⟨⟨node.row, member, rfl, unfinished⟩, open_, Or.inr ⟨branch, inherits⟩⟩

theorem no_waits_of_ready (listed : id ∈ tree.ready) :
    Undone rows id ∧ ¬ IsBranch rows id ∧ ∀ other, ¬ WaitsFor rows id other := by
  obtain ⟨placeable, placed⟩ := build_placed success
  obtain ⟨node, held, leaf, fresh, done⟩ := (mem_ready placed).mp listed
  have single := (isLeaf_iff placed held).mp leaf
  obtain ⟨member, same⟩ := placed.row_of_get held
  refine ⟨⟨node.row, member, same, by simp [fresh]⟩, single, ?_⟩
  rintro other ⟨-, undone, ⟨branch, -⟩ | ⟨-, inherits⟩⟩
  · exact single branch
  · have ⟨row, inside, same, _⟩ := undone
    subst same
    have finished := done row.id ((mem_needsOf placeable placed).mpr inherits)
    exact (isDone_iff placeable placed ⟨row, inside, rfl⟩).mp finished undone

theorem ready_ne_nil_iff (named : ∀ row ∈ rows, ∀ need ∈ row.needs, ∃ other ∈ rows, other.id = need)
    (open_or_done : ∀ row ∈ rows, ¬ IsBranch rows row.id →
      row.status = .notStarted ∨ row.status = .done) :
    tree.ready ≠ [] ↔ Unblocked rows := by
  constructor
  · intro some_ready
    obtain ⟨leaf, listed⟩ := exists_mem_of_ne_nil _ some_ready
    obtain ⟨undone, single, none_waited⟩ := no_waits_of_ready success listed
    refine ⟨leaf, undone, single, fun id reached => ?_⟩
    rcases Relation.ReflTransGen.cases_head reached with rfl | ⟨next, step, -⟩
    · refine ⟨fun circle => ?_, fun stale => single stale.2.1⟩
      obtain ⟨next, step, -⟩ := Relation.TransGen.head'_iff.mp circle
      exact none_waited next step
    · exact absurd step (none_waited next)
  · rintro ⟨leaf, undone, single, clear⟩
    have inside : ∀ first second, WaitsFor rows first second →
        second ∈ rows.map fun row => row.id := by
      rintro first second ⟨-, ⟨row, member, same, -⟩, -⟩
      exact mem_map.mpr ⟨row, member, same⟩
    obtain ⟨last, reached, none_waited⟩ :=
      Waiting.exists_end inside fun id reached => (clear id reached).1
    have unfinished : Undone rows last := by
      rcases Relation.ReflTransGen.cases_tail reached with rfl | ⟨before, -, step⟩
      · exact undone
      · exact step.2.1
    rcases ready_of_no_waits success named open_or_done unfinished none_waited with stale | listed
    · exact absurd stale (clear last reached).2
    · exact ne_nil_of_mem listed

theorem build_named :
    ∀ row ∈ rows, ∀ need ∈ row.needs, ∃ other ∈ rows, other.id = need := by
  obtain ⟨nodes, placing, named, -⟩ := build_ok_iff.mp ⟨tree, success⟩
  have placeable := place_placeable.mp ⟨nodes, placing⟩
  have checked := (checkDependencies_ok (place_placed placing) placeable.distinct).mp named
  exact fun row member need listed => (checked.1 row member need listed).2

end Progress

theorem never_stuck_iff (rows : List RoadmapRow) :
    NeverStuck rows ↔
      ((∃ tree, build rows = .ok tree) → Underway rows → Unblocked rows) := by
  constructor
  · rintro contract ⟨tree, success⟩ underway
    exact (ready_ne_nil_iff success (build_named success) underway.1).mp
      (contract.starts tree success underway)
  · intro unblocked
    refine ⟨fun tree success underway => ?_, fun tree success => ?_⟩
    · exact (ready_ne_nil_iff success (build_named success) underway.1).mpr
        (unblocked ⟨tree, success⟩ underway)
    · exact claim_ok_iff (build_placed success).2

/-- Row `1.1` needs the branch it hangs under. -/
def selfWaitingRows : List RoadmapRow :=
  [bareRow ⟨['1'], one_indexed⟩ [], bareRow ⟨['1', '.', '1'], child_indexed⟩ [⟨['1'], one_indexed⟩]]

/-- The plan of a branch and a leaf that needs it is accepted, unfinished and never starts. -/
theorem selfWaitingRows_stuck : ¬ NeverStuck selfWaitingRows := by
  intro contract
  have stuck : ((build selfWaitingRows).toOption.map ready) = some [] := by decide +kernel
  obtain ⟨tree, success, nothing⟩ := Outcome.of_map_toOption stuck
  have fresh : ∀ row ∈ selfWaitingRows, row.status = .notStarted := by decide
  have leaf : ¬ ∃ row ∈ selfWaitingRows, row.id.parent = some ⟨['1', '.', '1'], by decide⟩ := by
    decide
  refine contract.starts tree success ⟨fun row member _ => Or.inl (fresh row member), ?_⟩ nothing
  exact ⟨bareRow ⟨['1', '.', '1'], by decide⟩ [⟨['1'], by decide⟩], by decide, leaf, by decide⟩

end Sprawling.PlanTree
