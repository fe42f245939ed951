import Sprawling.Kernel.Plan.Tree

/-! Red, and how far it reaches. -/

namespace Sprawling

/-- One node the city has a reason to call red. -/
structure RedNode where
  node : NodeId
  why : StopCause

/-- One cause and everything waiting behind it. -/
structure Blockage where
  source : NodeId
  why : StopCause
  /-- Every node stuck because of this one, in reading order. -/
  reaches : List NodeId

/-- Somebody to tell, and what about. -/
structure Notice where
  to_ : String
  about : NodeId
  line : String

namespace Blockage

/-- The sentence the first screen shows: what is stuck, where, and why. -/
def line (blockage : Blockage) : String :=
  let branch := (blockage.source.ancestors.getLast?).getD blockage.source
  s!"branch {branch} is stuck at {blockage.source}: {blockage.why.line}"

/-- Notes one node behind another. -/
def addEdge (node : NodeId) (edges : OrdMap NodeId (List NodeId)) (need : NodeId) :
    OrdMap NodeId (List NodeId) :=
  edges.insert need ((edges[need]?).getD [] ++ [node])

/-- Who waits for whom, the other way round. -/
def reverseEdges (tree : PlanTree) : OrdMap NodeId (List NodeId) :=
  (tree.nodes.toList.map Prod.snd).foldl
    (fun edges node => (tree.needsOf node.row.id).toList.foldl (addEdge node.row.id) edges) ∅

/-- Everything downstream of one node, through both relations. Every frame of the recursion has
put a node of its own in `seen`, so a plan of `frames` nodes needs no more of them. -/
def walk (dependents : OrdMap NodeId (List NodeId)) :
    Nat → NodeId → Std.ExtTreeSet NodeId → Std.ExtTreeSet NodeId
  | 0, _, seen => seen
  | frames + 1, here, seen =>
    if here ∈ seen then seen
    else
      let seen := here.ancestors.foldl
        (fun seen parent => walk dependents frames parent seen) (seen.insert here)
      ((dependents[here]?).getD []).foldl
        (fun seen waiting => walk dependents frames waiting seen) seen

/-- What one red node of the plan reaches, less the nodes red on their own account. -/
def behind (tree : PlanTree) (red : List RedNode) (held : RedNode) : Blockage :=
  let found := walk (reverseEdges tree) (tree.nodes.size + 1) held.node ∅
  { source := held.node
    why := held.why
    reaches := found.toList.filter fun id => id ≠ held.node ∧ id ∉ red.map RedNode.node }

/-- Which nodes each red one reaches, sorted by the cause's own index. -/
def spread (tree : PlanTree) (red : List RedNode) : List Blockage :=
  let found : OrdMap NodeId Blockage := red.foldl
    (fun found held =>
      if held.node ∈ tree.nodes then found.insert held.node (behind tree red held) else found) ∅
  found.toList.map Prod.snd

/-- The residents to tell of one blockage: each that holds one of some nodes behind it, once, but not
the one that holds its source. -/
def tell (blockage : Blockage) (holders : OrdMap NodeId String) :
    List NodeId → (told : List String) → List Notice
  | [], _ => []
  | node :: rest, told =>
    match holders[node]? with
    | none => blockage.tell holders rest told
    | some who =>
      if some who = holders[blockage.source]? ∨ who ∈ told then blockage.tell holders rest told
      else
        { to_ := who, about := blockage.source, line := blockage.line }
          :: blockage.tell holders rest (who :: told)

/-- One line for each resident holding work behind a red node. -/
def notices (blocked : List Blockage) (holders : OrdMap NodeId String) : List Notice :=
  blocked.flatMap fun blockage => blockage.tell holders blockage.reaches []

end Blockage

end Sprawling
