import Sprawling.Base.Outcome
import Std.Data.ExtTreeSet.Lemmas
import Sprawling.Kernel.Plan.Blocking

namespace Sprawling.Plan

/-- The weights `among` divides by: all zero says nothing about how the level divides, and reads
as an even cut. -/
def levelWeights (nodes : NodeMap) (among : List NodeId) : List UInt32 :=
  let weights := among.map fun id => (nodes[id]?.map fun node => node.row.weight).getD 1
  if weights.all (· == 0) then List.replicate among.length 1 else weights

/-- Gives `pot` to `among` by their weights, then recurses into the children. `levels` bounds the
recursion; a plan is never deeper than `nodeDepthMax`. -/
def handOut : Nat → NodeMap → Share → List NodeId → Except AxError NodeMap
  | levels, nodes, pot, among =>
    if among.isEmpty then .ok nodes
    else
      match levels with
      | 0 => .error (refusal "divide a share" s!"more than {nodeDepthMax} levels"
          "write the plan with fewer levels")
      | levels + 1 => do
          let parts ← pot.split (levelWeights nodes among)
          (among.zip parts).foldlM
            (fun nodes entry =>
              match nodes[entry.1]? with
              | none => .ok nodes
              | some node =>
                handOut levels (nodes.insert entry.1 { node with share := entry.2 })
                  entry.2 node.children)
            nodes

/-- The two maps hold the same rows and children and may differ in the shares. -/
def SameShape (before after : NodeMap) : Prop :=
  ∀ id : NodeId, (after[id]?.map fun node => (node.row, node.children)) =
    before[id]?.map fun node => (node.row, node.children)

/-- Every child sits one level below the node that lists it. -/
def ChildrenBelow (nodes : NodeMap) : Prop :=
  ∀ (id : NodeId) (node : PlanNode), nodes[id]? = some node → ∀ child ∈ node.children, child.depth = id.depth + 1

theorem SameShape.refl (nodes : NodeMap) : SameShape nodes nodes := fun _ => rfl

theorem SameShape.trans {first second third : NodeMap} (one : SameShape first second)
    (two : SameShape second third) : SameShape first third := fun id => (two id).trans (one id)

variable {nodes : NodeMap}

theorem SameShape.setShare {id : NodeId} {node : PlanNode} {share : Share}
    (held : nodes[id]? = some node) : SameShape nodes (nodes.insert id { node with share }) := by
  intro other
  by_cases same : id = other
  · simp [← same, held]
  · simp [same]

theorem SameShape.childrenBelow {before after : NodeMap} (same : SameShape before after)
    (below : ChildrenBelow before) : ChildrenBelow after := by
  intro id node held child member
  have shape := same id
  rw [held, Option.map_some] at shape
  obtain ⟨old, found, equal⟩ := Option.map_eq_some_iff.mp shape.symm
  simp only [Prod.mk.injEq] at equal
  exact below id old found child (equal.2 ▸ member)

theorem levelWeights_length (nodes : NodeMap) (among : List NodeId) :
    (levelWeights nodes among).length = among.length := by
  simp only [levelWeights]
  split <;> simp

variable {among : List NodeId}

theorem levelWeights_nonzero (some_node : among ≠ []) :
    ∃ weight ∈ levelWeights nodes among, weight ≠ 0 := by
  simp only [levelWeights]
  split
  · refine ⟨1, ?_, by decide⟩
    rw [List.mem_replicate]
    exact ⟨by simpa using some_node, rfl⟩
  · rename_i uneven
    simpa only [List.all_eq_true, beq_iff_eq, not_forall, exists_prop] using uneven

theorem split_levelWeights (some_node : among ≠ [])
    (pot : Share) : ∃ parts, pot.split (levelWeights nodes among) = .ok parts :=
  Share.split_ok (levelWeights_nonzero some_node)

/-- Handing out never runs out of levels and changes nothing but shares. -/
theorem handOut_ok {levels level : Nat} (pot : Share)
    (below : ChildrenBelow nodes) (same : ∀ id ∈ among, id.depth = level)
    (enough : nodeDepthMax < levels + level) :
    ∃ after, handOut levels nodes pot among = .ok after ∧ SameShape nodes after := by
  induction levels generalizing level nodes pot among with
  | zero =>
    cases among with
    | nil => exact ⟨nodes, rfl, SameShape.refl nodes⟩
    | cons id rest =>
      have shallow := id.depth_le
      have deep := same id List.mem_cons_self
      omega
  | succ levels ih =>
    by_cases none_left : among = []
    · exact ⟨nodes, by simp [handOut, none_left], SameShape.refl nodes⟩
    · obtain ⟨parts, divided⟩ :
          ∃ parts, pot.split (levelWeights nodes among) = .ok parts :=
        split_levelWeights none_left pot
      simp only [handOut, List.isEmpty_iff, none_left, if_false, divided]
      refine Outcome.foldlM_ok (SameShape.refl nodes) fun entry member held shape => ?_
      have atLevel := same entry.1 (List.of_mem_zip member).1
      have belowHeld := shape.childrenBelow below
      split
      · exact ⟨held, rfl, shape⟩
      · rename_i node found
        have moved : SameShape held (held.insert entry.1 { node with share := entry.2 }) :=
          SameShape.setShare found
        have deeper : ∀ child ∈ node.children, child.depth = level + 1 := by
          intro child inside
          rw [belowHeld entry.1 node found child inside, atLevel]
        obtain ⟨after, handed, deeperShape⟩ :=
          ih entry.2 (moved.childrenBelow belowHeld) deeper (by omega)
        exact ⟨after, handed, (shape.trans moved).trans deeperShape⟩

end Sprawling.Plan

namespace Sprawling

/-- The plan: every node under its index. -/
structure PlanTree where
  nodes : NodeMap

namespace PlanTree

/-- Puts every row under its own index. -/
def placeRows : NodeMap → List RoadmapRow → Except AxError NodeMap
  | nodes, [] => .ok nodes
  | nodes, row :: rows =>
    if row.id ∈ nodes then
      .error (Plan.refusal "place a plan node" s!"index {row.id} appears twice"
        "give every row its own index; two rows with one number are two plans")
    else placeRows (nodes.insert row.id { row, share := Share.none, children := [] }) rows

/-- Hangs every node under its parent, in key order. -/
def hangChildren : NodeMap → List NodeId → Except AxError NodeMap
  | nodes, [] => .ok nodes
  | nodes, id :: rest =>
    match id.parent with
    | none => hangChildren nodes rest
    | some parent =>
      match nodes[parent]? with
      | none =>
        .error (Plan.refusal "place a plan node"
          s!"{id} hangs under {parent}, which the table does not carry"
          "write the parent row first; a plan cannot branch from nothing")
      | some held =>
        hangChildren
          (nodes.insert parent { held with children := held.children ++ [id] }) rest

/-- What is wrong with one need of `id`. -/
def refuseNeed (nodes : NodeMap) (id need : NodeId) : Option AxError :=
  if need ∉ nodes then
    some (Plan.refusal "read a plan dependency"
      s!"{id} needs {need}, which the table does not carry"
      "name a row the plan holds, or drop the dependency")
  else if need = id then
    some (Plan.refusal "read a plan dependency" s!"{id} needs itself"
      "a node cannot wait for its own result")
  else none

/-- Every dependency names a node that exists, is not the node itself, and does not close a
circle. -/
def checkDependencies (nodes : NodeMap) : Except AxError Unit :=
  match nodes.toList.findSome? fun entry =>
      entry.2.row.needs.findSome? (refuseNeed nodes entry.1) with
  | some refused => .error refused
  | none =>
    match Plan.firstCycle nodes with
    | some circle =>
      .error (Plan.refusal "read a plan dependency"
        (String.intercalate " → " (circle.map toString) ++ " runs in a circle")
        "drop one of those dependencies; nothing in a circle can ever start")
    | none => .ok ()

/-- What is wrong with one child of a branch that says done. -/
def refuseChild (nodes : NodeMap) (id child : NodeId) : Option AxError :=
  if nodes[child]?.any fun held => held.row.status != .done then
    some (Plan.refusal "read a plan branch" s!"{id} says done while {child} does not"
      "a branch is done when its children are; finish the child or reopen the branch")
  else none

/-- A branch that says done over a child that is not is refused. -/
def checkBranchClaims (nodes : NodeMap) : Except AxError Unit :=
  match nodes.toList.findSome? fun entry =>
      if entry.2.children.isEmpty || entry.2.row.status != .done then none
      else entry.2.children.findSome? (refuseChild nodes entry.1) with
  | some refused => .error refused
  | none => .ok ()

/-- Divides the whole plan down the tree, top-level rows first. -/
def divide (tree : PlanTree) : Except AxError PlanTree := do
  let roots := tree.nodes.keys.filter fun id => id.parent.isNone
  let nodes ← Plan.handOut nodeDepthMax tree.nodes Share.whole roots
  return { nodes }

/-- The two placing loops of `build`. -/
def place (rows : List RoadmapRow) : Except AxError NodeMap := do
  let nodes ← placeRows ∅ rows
  hangChildren nodes nodes.keys

/-- Places every row and works out what each one is worth. -/
def build (rows : List RoadmapRow) : Except AxError PlanTree := do
  let nodes ← place rows
  checkDependencies nodes
  checkBranchClaims nodes
  divide { nodes }

/-- The needs the row at one step names, when there is a row. -/
def addNeeds (tree : PlanTree) (found : Std.ExtTreeSet NodeId) (step : NodeId) :
    Std.ExtTreeSet NodeId :=
  match tree.nodes[step]? with
  | some node => found.insertMany node.row.needs
  | none => found

/-- What a node waits for, including everything its ancestors wait for. -/
def needsOf (tree : PlanTree) (id : NodeId) : Std.ExtTreeSet NodeId :=
  (id.ancestors ++ [id]).foldl tree.addNeeds ∅

/-- Whether a need is a row that says done. -/
def isDone (tree : PlanTree) (need : NodeId) : Bool :=
  tree.nodes[need]?.any fun held => held.row.status == .done

/-- What may be started right now: leaves nobody has taken whose needs, their own and their
branch's, are all done. -/
def ready (tree : PlanTree) : List NodeId :=
  (((tree.nodes.toList.map Prod.snd).filter
    fun node => node.isLeaf && node.row.status == .notStarted).filter
    fun node => (tree.needsOf node.row.id).toList.all tree.isDone).map fun node => node.row.id

/-- The third part of a refusal: a node the caller may actually take. -/
def somewhereElse (tree : PlanTree) : String :=
  match tree.ready.head? with
  | none => "nothing is ready; report to the User rather than picking a node"
  | some id => s!"claim {id}, which is ready"

/-- Takes a node to work on. -/
def claim (tree : PlanTree) (id : NodeId) : Except AxError Held :=
  match tree.nodes[id]? with
  | none => .error (Plan.refusal "claim a plan node" s!"no row numbered {id}"
      s!"list the plan first; it carries {tree.nodes.size} rows")
  | some node =>
    if !node.isLeaf then
      .error (Plan.refusal "claim a plan node"
        s!"{id} is a branch with {node.children.length} children"
        "claim one of its children; a branch is done when its children are")
    else if node.row.status ≠ .notStarted then
      .error (.failure .goalConflict "claim a plan node"
        s!"{id} is `{String.ofList node.row.status.spelling}`" tree.somewhereElse)
    else
      let waiting := (tree.needsOf id).toList.filter fun need => !tree.isDone need
      if waiting.isEmpty then .ok ⟨id⟩
      else .error (Plan.refusal "claim a plan node"
        (s!"{id} waits for " ++ String.intercalate ", " (waiting.map toString))
        tree.somewhereElse)

end PlanTree

end Sprawling
