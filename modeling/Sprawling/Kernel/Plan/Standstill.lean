import Sprawling.Kernel.Plan.Progress
import Sprawling.Kernel.Plan.Spread

/-! What a red node keeps from being finished, whatever else of the plan is finished meanwhile. -/

namespace Sprawling.PlanTree

open NodeId

def done (node : PlanNode) : PlanNode := { node with row := { node.row with status := .done } }

/-- Writes done on one row. -/
def markDone (tree : PlanTree) (id : NodeId) : PlanTree :=
  match tree.nodes[id]? with
  | none => tree
  | some node => ⟨tree.nodes.insert id (done node)⟩

/-- What may be marked done: a ready leaf, or a branch whose children and whose needs all are. -/
def MayFinish (tree : PlanTree) (id : NodeId) : Prop :=
  id ∈ tree.ready ∨ ∃ node, tree.nodes[id]? = some node ∧ node.isLeaf = false ∧
    (∀ child ∈ node.children, tree.isDone child = true) ∧ ∀ need ∈ tree.needsOf id, tree.isDone need = true

def Finishes (tree later : PlanTree) : Prop := ∃ id, tree.MayFinish id ∧ later = tree.markDone id

/-- The other node is stuck because of the first, by way of rows none of which says done. -/
def Linked (tree : PlanTree) : NodeId → NodeId → Prop :=
  Relation.TransGen fun here other => tree.HoldsUp here other ∧ tree.isDone other = false

theorem get_markDone (tree : PlanTree) (id other : NodeId) :
    (tree.markDone id).nodes[other]? =
      if other = id then (tree.nodes[other]?).map done else tree.nodes[other]? := by
  rw [markDone]
  cases held : tree.nodes[id]? with
  | none =>
    by_cases same : other = id
    · simp [same, held]
    · simp [same]
  | some node =>
    change (tree.nodes.insert id (done node))[other]? = _
    rw [Std.ExtTreeMap.getElem?_insert]
    by_cases same : id = other
    · subst same
      simp [held]
    · simp [same, Ne.symm same]

theorem isDone_markDone {tree : PlanTree} {id other : NodeId} :
    (tree.markDone id).isDone other = true ↔ tree.isDone other = true ∨ other = id ∧ id ∈ tree.nodes := by
  rw [isDone, get_markDone, isDone]
  by_cases same : other = id
  · subst same
    rw [Std.ExtTreeMap.mem_iff_isSome_getElem?]
    cases tree.nodes[other]? <;> simp [done]
  · simp [same]

/-- A node of the plan apart from what its row says of its progress. -/
def unmarked (node : PlanNode) : PlanNode := { node with row := { node.row with status := .notStarted } }

/-- How a tree stands to the accepted one some work on it began with: only statuses moved, and a branch
says done only over children that do. -/
structure Later (tree later : PlanTree) : Prop where
  same : ∀ id : NodeId, (later.nodes[id]?).map unmarked = (tree.nodes[id]?).map unmarked
  summary : ∀ id ∈ tree.nodes, ∀ above, id.parent = some above →
    later.isDone above = true → later.isDone id = true

section Work

variable {rows : List RoadmapRow} {tree later : PlanTree} (stands : Later tree later)

include stands

variable {id : NodeId}

theorem Later.mem : id ∈ later.nodes ↔ id ∈ tree.nodes := by
  have same := congrArg Option.isSome (stands.same id)
  rw [Option.isSome_map, Option.isSome_map] at same
  rw [Std.ExtTreeMap.mem_iff_isSome_getElem?, Std.ExtTreeMap.mem_iff_isSome_getElem?, same]

theorem Later.get {node : PlanNode}
    (held : later.nodes[id]? = some node) : ∃ old, tree.nodes[id]? = some old ∧ unmarked node = unmarked old := by
  have same := stands.same id
  rw [held, Option.map_some] at same
  obtain ⟨old, found, equal⟩ := Option.map_eq_some_iff.mp same.symm
  exact ⟨old, found, equal.symm⟩

theorem Later.children (placed : Placed rows tree.nodes)
    {node : PlanNode} (held : later.nodes[id]? = some node) {child : NodeId} :
    child ∈ node.children ↔ child ∈ tree.nodes ∧ child.parent = some id := by
  obtain ⟨old, found, equal⟩ := stands.get held
  have same : node.children = old.children := congrArg (fun node => node.children) equal
  rw [same, placed.children id old found]

theorem Later.named (placed : Placed rows tree.nodes) (id : NodeId)
    (node : PlanNode) (held : later.nodes[id]? = some node) : node.row.id = id := by
  obtain ⟨old, found, equal⟩ := stands.get held
  have same : node.row.id = old.row.id := congrArg (fun node => node.row.id) equal
  rw [same, (placed.row_of_get found).2]

theorem Later.needs {id need : NodeId} :
    need ∈ later.needsOf id ↔ need ∈ tree.needsOf id := by
  have step (id : NodeId) : (∃ node, later.nodes[id]? = some node ∧ need ∈ node.row.needs) ↔
      ∃ node, tree.nodes[id]? = some node ∧ need ∈ node.row.needs := by
    have same := congrArg (Option.map fun node => node.row.needs) (stands.same id)
    rw [Option.map_map, Option.map_map] at same
    have listed (nodes : NodeMap) : (∃ node, nodes[id]? = some node ∧ need ∈ node.row.needs) ↔
        ∃ needs, (nodes[id]?).map ((fun node => node.row.needs) ∘ unmarked) = some needs ∧ need ∈ needs := by
      cases nodes[id]? <;> simp [unmarked]
    rw [listed, listed, same]
  rw [needsOf, needsOf, mem_foldl_addNeeds, mem_foldl_addNeeds]
  simp only [step]

omit stands

theorem later_refl (success : build rows = .ok tree) : Later tree tree where
  same _ := rfl
  summary id member above hangs finished := by
    obtain ⟨placeable, placed⟩ := build_placed success
    obtain ⟨nodes, placing, -, summary⟩ := build_ok_iff.mp ⟨tree, success⟩
    have claims := (checkBranchClaims_ok (place_placed placing) placeable.distinct).mp summary
    obtain ⟨node, held⟩ := (OrdMap.mem_iff_get _ _).mp member
    obtain ⟨branch, over_, status⟩ := (Option.any_eq_true _ _).mp finished
    obtain ⟨listed, same⟩ := placed.row_of_get held
    obtain ⟨listedAbove, sameAbove⟩ := placed.row_of_get over_
    have finished := claims branch.row listedAbove (beq_iff_eq.mp status) node.row listed (by
      rw [same, sameAbove, hangs])
    rw [isDone, held, Option.any_some, beq_iff_eq]
    exact finished

theorem Later.markDone (stands : Later tree later) (placed : Placed rows tree.nodes)
    (may : later.MayFinish id) : Later tree (later.markDone id) where
  same other := by
    rw [get_markDone]
    split
    · rw [Option.map_map, ← stands.same]
      rfl
    · exact stands.same other
  summary other member above hangs finished := by
    rw [isDone_markDone] at finished ⊢
    rcases finished with before | ⟨rfl, -⟩
    · exact .inl (stands.summary other member above hangs before)
    · rcases may with listed | ⟨node, held, -, closed, -⟩
      · obtain ⟨node, held, leaf, -⟩ := (mem_ready_of_named (stands.named placed)).mp listed
        have child := (stands.children placed held).mpr ⟨member, hangs⟩
        rw [List.isEmpty_iff.mp leaf] at child
        cases child
      · exact .inl (closed other ((stands.children placed held).mpr ⟨member, hangs⟩))

theorem Later.below (stands : Later tree later) (hung : Plan.Hung tree.nodes) {id above : NodeId}
    (member : id ∈ tree.nodes) (under : above ∈ id.ancestors) (finished : later.isDone above = true) :
    later.isDone id = true := by
  refine below_induction (motive := fun id => id ∈ tree.nodes → later.isDone id = true) ?_ under member
  rintro id over_ hangs (rfl | ⟨-, ih⟩) inside
  · exact stands.summary id inside _ hangs finished
  · exact stands.summary id inside over_ hangs (ih (hung.parents id inside over_ hangs))

theorem MayFinish.needs (named : ∀ (id : NodeId) (node : PlanNode), tree.nodes[id]? = some node →
    node.row.id = id) (may : tree.MayFinish id) : ∀ need ∈ tree.needsOf id, tree.isDone need = true := by
  rcases may with listed | ⟨_, -, -, -, needs⟩
  · obtain ⟨_, -, -, -, needs⟩ := (mem_ready_of_named named).mp listed
    exact needs
  · exact needs

theorem mem_of_holdsUp (hung : Plan.Hung tree.nodes) {here other : NodeId} (member : here ∈ tree.nodes)
    (holdsUp : tree.HoldsUp here other) : other ∈ tree.nodes := by
  rcases holdsUp with above | ⟨listed, -⟩
  · exact mem_of_ancestor hung member above
  · exact listed

theorem Later.holds (stands : Later tree later) (success : build rows = .ok tree) {here id : NodeId}
    (member : here ∈ tree.nodes) (unfinished : later.isDone here = false) (holdsUp : tree.HoldsUp here id) :
    ¬ later.MayFinish id := by
  intro may
  have placed := (build_placed success).2
  have hung := (build_shared success).hung
  have inside := stands.mem.mpr (mem_of_holdsUp hung member holdsUp)
  rw [← Bool.not_eq_true] at unfinished
  rcases holdsUp with above | ⟨-, waits⟩
  · -- a branch marked done has all that hangs under it done
    have finished : (later.markDone id).isDone id = true := isDone_markDone.mpr (.inr ⟨rfl, inside⟩)
    have below := (stands.markDone placed may).below hung member above finished
    rcases isDone_markDone.mp below with before | ⟨rfl, -⟩
    · exact unfinished before
    · exact absurd (length_lt_of_ancestor above) (Nat.lt_irrefl _)
  · exact unfinished (may.needs (stands.named placed) here (stands.needs.mpr waits))

theorem Linked.mem (hung : Plan.Hung tree.nodes) {source id : NodeId} (member : source ∈ tree.nodes)
    (linked : tree.Linked source id) : id ∈ tree.nodes := by
  induction linked with
  | single edge => exact mem_of_holdsUp hung member edge.1
  | tail _ edge ih => exact mem_of_holdsUp hung ih edge.1

theorem linked_stays (success : build rows = .ok tree) {source id : NodeId} (member : source ∈ tree.nodes)
    (run : Relation.ReflTransGen Finishes tree later) (unfinished : later.isDone source = false)
    (linked : tree.Linked source id) : later.isDone id = false := by
  have placed := (build_placed success).2
  have hung := (build_shared success).hung
  suffices Later tree later ∧ ∀ id, tree.Linked source id → later.isDone id = false from this.2 id linked
  clear linked id
  induction run with
  | refl =>
    refine ⟨later_refl success, fun id linked => ?_⟩
    obtain ⟨_, -, -, unfinished⟩ := Relation.TransGen.tail'_iff.mp linked
    exact unfinished
  | @tail before _ _ step ih =>
    obtain ⟨marked, may, rfl⟩ := step
    have earlier : before.isDone source = false := by
      rw [← Bool.not_eq_true] at unfinished ⊢
      exact fun finished => unfinished (isDone_markDone.mpr (.inl finished))
    obtain ⟨stands, stays⟩ := ih earlier
    refine ⟨stands.markDone placed may, fun id linked => ?_⟩
    have before_ := stays id linked
    rw [← Bool.not_eq_true] at before_ ⊢
    intro finished
    rcases isDone_markDone.mp finished with undone | ⟨rfl, -⟩
    · exact before_ undone
    · -- the last node on the way to the one marked was unfinished, and held it up
      obtain ⟨here, way, holdsUp, -⟩ := Relation.TransGen.tail'_iff.mp linked
      rcases Relation.reflTransGen_iff_eq_or_transGen.mp way with rfl | linkedHere
      · exact stands.holds success member earlier holdsUp may
      · exact stands.holds success (Linked.mem hung member linkedHere) (stays here linkedHere) holdsUp may

end Work

/-- What is asked of the list of blockages: one for each red node of the plan, which lists the nodes
neither red nor done that are stuck because of it. -/
structure Lists (tree : PlanTree) (red : List RedNode) : Prop where
  distinct : ((Blockage.spread tree red).map Blockage.source).Nodup
  sources : ∀ id, id ∈ (Blockage.spread tree red).map Blockage.source ↔
    id ∈ tree.nodes ∧ id ∈ red.map RedNode.node
  reaches : ∀ blockage ∈ Blockage.spread tree red, ∀ id, id ∈ blockage.reaches ↔
    id ∉ red.map RedNode.node ∧ tree.isDone id = false ∧ tree.Behind blockage.source id

/-- What is asked of every run: nothing a blockage lists is done while its source is not. -/
def Stays (tree : PlanTree) (red : List RedNode) : Prop :=
  ∀ later, Relation.ReflTransGen Finishes tree later → ∀ blockage ∈ Blockage.spread tree red,
    later.isDone blockage.source = false → ∀ id ∈ blockage.reaches, later.isDone id = false

/-- No row says done that is stuck because of a red node of the plan and is not red itself. -/
def Honest (tree : PlanTree) (red : List RedNode) : Prop :=
  ∀ source ∈ red.map RedNode.node, source ∈ tree.nodes → ∀ id ∉ red.map RedNode.node,
    tree.Behind source id → tree.isDone id = false

/-- Every row that is stuck because of a red node of the plan and is not red itself is so by way of rows
none of which says done. -/
def Unbroken (tree : PlanTree) (red : List RedNode) : Prop :=
  ∀ source ∈ red.map RedNode.node, source ∈ tree.nodes → ∀ id ∉ red.map RedNode.node,
    tree.Behind source id → tree.Linked source id

section Spread

variable {rows : List RoadmapRow} {tree : PlanTree}

/-- The blockages list what they are asked to when no row stuck behind a red one says done, red ones
apart; what is listed stays unfinished when no row on the way to it says done; and everybody is told
once. -/
theorem lists_iff (success : build rows = .ok tree) (red : List RedNode) :
    (Lists tree red ↔ Honest tree red) ∧ (Unbroken tree red → Stays tree red) ∧
      ∀ holders, Blockage.Tells (Blockage.spread tree red) holders := by
  obtain ⟨distinct, sources, made⟩ := Blockage.spread_sources tree red
  have listed {blockage : Blockage} (member : blockage ∈ Blockage.spread tree red) :
      blockage.source ∈ red.map RedNode.node ∧ blockage.source ∈ tree.nodes ∧ ∀ id,
        id ∈ blockage.reaches ↔ id ∉ red.map RedNode.node ∧ tree.Behind blockage.source id := by
    obtain ⟨held, inside, present, rfl⟩ := made _ member
    exact ⟨List.mem_map_of_mem inside, present, fun id => Blockage.mem_reaches_behind success inside present⟩
  refine ⟨⟨fun lists source red_ present id apart stuck => ?_, fun honest => ?_⟩, ?_, ?_⟩
  · obtain ⟨blockage, member, rfl⟩ := List.mem_map.mp ((sources source).mpr ⟨present, red_⟩)
    have reached := ((listed member).2.2 id).mpr ⟨apart, stuck⟩
    exact ((lists.reaches blockage member id).mp reached).2.1
  · refine ⟨distinct, sources, fun blockage member id => ?_⟩
    obtain ⟨red_, present, reaches⟩ := listed member
    rw [reaches]
    exact and_congr_right fun apart =>
      ⟨fun stuck => ⟨honest _ red_ present id apart stuck, stuck⟩, fun both => both.2⟩
  · intro unbroken later run blockage member unfinished id reached
    obtain ⟨red_, present, reaches⟩ := listed member
    obtain ⟨apart, stuck⟩ := (reaches id).mp reached
    exact linked_stays success present run unfinished (unbroken _ red_ present id apart stuck)
  · exact Blockage.tells distinct

end Spread

/-- A blocked row, a done one that needs it, and an open one that needs that. -/
def overtakenRows : List RoadmapRow :=
  [plainRow ⟨['1'], one_indexed⟩ 1 .blocked,
    { plainRow ⟨['2'], two_indexed⟩ 1 .done with needs := [⟨['1'], one_indexed⟩] },
    { plainRow ⟨['3'], three_indexed⟩ 1 .notStarted with needs := [⟨['2'], two_indexed⟩] }]

def firstRed : List RedNode := [⟨⟨['1'], one_indexed⟩, .frozeWithoutEvidence⟩]

theorem lists_iff_overtaken : ∃ tree, build overtakenRows = .ok tree ∧
    (Lists tree firstRed ↔ Honest tree firstRed) ∧ (Unbroken tree firstRed → Stays tree firstRed) ∧
      ∀ holders, Blockage.Tells (Blockage.spread tree firstRed) holders := by
  have built : (build overtakenRows).toOption.map (fun _ => ()) = some () := by decide +kernel
  obtain ⟨tree, success, -⟩ := Outcome.of_map_toOption built
  exact ⟨tree, success, lists_iff success firstRed⟩

/-- Behind the red row a done one is listed, and so is an open one that may be finished at once. -/
theorem overtaken_astray : ∃ tree, build overtakenRows = .ok tree ∧
    ¬ Lists tree firstRed ∧ ¬ Stays tree firstRed := by
  have figures : (build overtakenRows).toOption.map (fun tree =>
      ((Blockage.spread tree firstRed).map fun blockage => (blockage.source, blockage.reaches),
        tree.isDone ⟨['2'], by decide⟩, tree.ready, (tree.markDone ⟨['3'], by decide⟩).isDone ⟨['1'], by decide⟩,
        (tree.markDone ⟨['3'], by decide⟩).isDone ⟨['3'], by decide⟩)) =
      some ([(⟨['1'], by decide⟩, [⟨['2'], by decide⟩, ⟨['3'], by decide⟩])], true, [⟨['3'], by decide⟩],
        false, true) := by decide +kernel
  obtain ⟨tree, success, same⟩ := Outcome.of_map_toOption figures
  rw [Prod.mk.injEq, Prod.mk.injEq, Prod.mk.injEq, Prod.mk.injEq] at same
  obtain ⟨spread, second, ready, first, third⟩ := same
  obtain ⟨blockage, member, entry⟩ := List.mem_map.mp (spread ▸ List.mem_cons_self)
  rw [Prod.mk.injEq] at entry
  refine ⟨tree, success, fun lists => ?_, fun stays => ?_⟩
  · have listed := (lists.reaches blockage member ⟨['2'], by decide⟩).mp (by rw [entry.2]; decide)
    rw [second] at listed
    exact absurd listed.2.1 (by decide)
  · have step : Finishes tree (tree.markDone ⟨['3'], by decide⟩) :=
      ⟨_, .inl (ready ▸ List.mem_cons_self), rfl⟩
    have unfinished := stays _ (.single step) blockage member (entry.1 ▸ first) ⟨['3'], by decide⟩
      (by rw [entry.2]; decide)
    rw [third] at unfinished
    cases unfinished

end Sprawling.PlanTree
