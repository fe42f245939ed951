import Mathlib.Data.Finset.Basic
import Sprawling.Kernel.Locator

/-! One creation split into nodes, the order they run in, and which of them have been handed down. -/

namespace Sprawling.Workshop

/-- A node's name within one workshop. -/
structure NodeId where
  text : List Char
  named : text ≠ []
  plain : ∀ c ∈ text, Text.isWhitespace c = false

namespace NodeId

theorem ext_text {first second : NodeId} (same : first.text = second.text) : first = second := by
  cases first
  cases second
  simp_all

instance : DecidableEq NodeId := fun first second =>
  decidable_of_iff (first.text = second.text) ⟨ext_text, congrArg NodeId.text⟩

instance : Ord NodeId := ⟨fun first second => compare first.text second.text⟩

theorem compare_def (first second : NodeId) :
    compare first second = compare first.text second.text := rfl

instance : Std.TransOrd NodeId := OrdMap.transOrd_of_key compare_def

instance : Std.LawfulEqOrd NodeId := OrdMap.lawfulEqOrd_of_key compare_def fun _ _ => ext_text

instance : ToString NodeId := ⟨fun id => String.ofList id.text⟩

end NodeId

/-- One node's contract: the whole of what its agent is answerable for. Its needs are a set, kept
in order. -/
structure NodeContract where
  id : NodeId
  goal : List Char
  dependsOn : List NodeId
  ordered : dependsOn.Pairwise fun first second => compare first second = .lt
  reads : List (Locator × UInt64)
  writeDomain : Address
  owner : List Char
  doneCheck : List Char
  stop : List Char
  stated : ∀ text ∈ [goal, owner, doneCheck, stop], Text.trim text ≠ []

namespace NodeContract

/-- The sole constructor: a contract with no goal, no owner, no done check or no stop is refused. -/
def new (id : NodeId) (goal : List Char) (dependsOn : List NodeId)
    (ordered : dependsOn.Pairwise fun first second => compare first second = .lt)
    (reads : List (Locator × UInt64)) (writeDomain : Address) (owner doneCheck stop : List Char) :
    Except AxError NodeContract :=
  match blank : [("goal", goal), ("owner", owner), ("done_check", doneCheck), ("stop", stop)].find?
      fun part => Text.trim part.2 = [] with
  | some (field, _) =>
    .error (.failure .invalidArgs "build a node contract" s!"{id}: {field} is empty"
      ("state it; a node whose stop condition or done check is unwritten is one "
        ++ "somebody has to guess at, and they will guess differently"))
  | none =>
    .ok { id, goal, dependsOn, ordered, reads, writeDomain, owner, doneCheck, stop
          stated := by simpa using blank }

/-- Every contract is one the constructor builds, from its own parts. -/
theorem new_self (contract : NodeContract) :
    new contract.id contract.goal contract.dependsOn contract.ordered contract.reads
      contract.writeDomain contract.owner contract.doneCheck contract.stop = .ok contract := by
  have stated := contract.stated
  unfold new
  split
  next field text found =>
    have blank := List.find?_some found
    have part := List.mem_of_find?_eq_some found
    simp only [List.mem_cons, List.not_mem_nil, or_false, Prod.mk.injEq] at part
    rcases part with ⟨-, rfl⟩ | ⟨-, rfl⟩ | ⟨-, rfl⟩ | ⟨-, rfl⟩ <;> simp_all
  next => rfl

/-- The body of the node's `JOB.md`. -/
def jobText (contract : NodeContract) : List Char :=
  "## Task\n\n".toList ++ contract.goal ++ "\n\n## Goal\n\n".toList ++ contract.goal
    ++ "\n\n## Done check\n\n".toList ++ contract.doneCheck
    ++ "\n\n## Stop\n\n".toList ++ contract.stop ++ "\n".toList
    ++ (if contract.reads.isEmpty then []
      else "\n## Reads\n\n".toList ++ contract.reads.flatMap fun read =>
        "- ".toList ++ read.1.display ++ " @ v".toList ++ Text.decimal read.2.toNat ++ "\n".toList)
    ++ "\n## Write domain\n\n- ".toList ++ contract.writeDomain.text ++ "\n".toList

end NodeContract

abbrev NodeMap := OrdMap NodeId NodeContract

section Graph

variable (nodes : NodeMap)

/-- Whether the node of that name depends on another. -/
def dependsOn (id need : NodeId) : Bool :=
  match nodes[id]? with
  | some contract => contract.dependsOn.contains need
  | none => false

/-- The counts of unmet dependencies, once `id` was taken. -/
def lower (id : NodeId) (remaining : OrdMap NodeId Nat) : OrdMap NodeId Nat :=
  (remaining.erase id).map fun candidate count =>
    if dependsOn nodes candidate id then count - 1 else count

/-- The nodes whose count comes to zero when `id` is taken. -/
def freed (id : NodeId) (remaining : OrdMap NodeId Nat) : List NodeId :=
  ((remaining.erase id).toList.filter fun entry =>
    dependsOn nodes entry.1 id && entry.2 - 1 == 0).map Prod.fst

/-- Drains the queue, for at most the given number of turns. -/
def drain : Nat → OrdMap NodeId Nat → List NodeId → List NodeId
  | 0, _, _ => []
  | _ + 1, _, [] => []
  | turns + 1, remaining, id :: queue =>
    id :: drain turns (lower nodes id remaining) (queue ++ freed nodes id remaining)

def counts : OrdMap NodeId Nat := nodes.map fun _ contract => contract.dependsOn.length

/-- Kahn's algorithm over ordered collections; a turn takes a node, and each is taken once. -/
def order : List NodeId :=
  drain nodes nodes.size (counts nodes)
    (((counts nodes).toList.filter fun entry => entry.2 == 0).map Prod.fst)

/-- What may start now, given what has finished. -/
def ready (done : Finset NodeId) : List NodeId :=
  ((nodes.toList.map Prod.snd).filter fun contract =>
    contract.id ∉ done && contract.dependsOn.all fun need => need ∈ done).map NodeContract.id

end Graph

/-- The contracts by id, none claimed twice. -/
def collect : List NodeContract → NodeMap → Except AxError NodeMap
  | [], nodes => .ok nodes
  | contract :: rest, nodes =>
    if contract.id ∈ nodes then
      .error (.failure .invalidArgs "build a workshop" (toString contract.id)
        "two contracts claim one node id; rename one")
    else collect rest (nodes.insert contract.id contract)

/-- The first dependency that no node answers to. -/
def dangling (nodes : NodeMap) : Option (NodeId × NodeId) :=
  (nodes.toList.map Prod.snd).findSome? fun contract =>
    (contract.dependsOn.find? fun need => need ∉ nodes).map fun need => (contract.id, need)

/-- Builds a workshop: a duplicate id, a dangling dependency and a cycle are refused. -/
def new (contracts : List NodeContract) : Except AxError NodeMap := do
  let nodes ← collect contracts ∅
  match dangling nodes with
  | some (id, need) =>
    .error (.failure .invalidArgs "build a workshop"
      s!"{id} depends on {need}, which is not in the graph"
      "add that node, or drop the dependency")
  | none =>
    if (order nodes).length ≠ nodes.size then
      .error (.failure .goalConflict "build a workshop"
        (", ".intercalate ((nodes.keys.filter fun id => id ∉ order nodes).map toString))
        "these nodes wait on each other; break the cycle by deciding which one goes first")
    else .ok nodes

def schedule (nodes : NodeMap) : List NodeId := order nodes

end Sprawling.Workshop

namespace Sprawling

inductive Depth where
  | root
  | delegated

inductive DelegateKind where
  | resident
  | ephemeral

/-- One piece of work a run asked somebody else to carry out. -/
structure Delegated where
  room : Address
  task : List Char
  goal : List Char
  kind : DelegateKind

/-- What a run asked for, held until the city can act on it. -/
structure DelegateDesk where
  depth : Depth
  building : Address
  asked : List Delegated
  handedOver : Nat

namespace DelegateDesk

/-- A desk with nothing asked. -/
def new (depth : Depth) (building : Address) : DelegateDesk :=
  { depth, building, asked := [], handedOver := 0 }

/-- Admits one request, or refuses it; `verdict` is what the city's own check says of the room. -/
def ask (desk : DelegateDesk) (verdict : Option AxError) (work : Delegated) :
    Except AxError DelegateDesk :=
  match desk.depth with
  | .delegated => .error (.failure .delegationDepth "spawn delegate"
      (match work.kind with
        | .resident => "Resident"
        | .ephemeral => "Ephemeral")
      ("finish this subtask yourself, or end the turn with what you have so "
        ++ "the resident who spawned you can delegate the rest"))
  | .root =>
    if !work.room.isWithin desk.building then
      let building := String.ofList desk.building.text
      .error (.failure .crossBuildingDenied "delegate work" (String.ofList work.room.text)
        (s!"put the delegate in a room inside {building}; work in another building is asked for "
          ++ "with `signal`"))
    else
      match verdict with
      | some refusal => .error refusal
      | none => .ok { desk with asked := desk.asked ++ [work] }

/-- Everything asked for, leaving the desk empty. -/
def take (desk : DelegateDesk) : List Delegated × DelegateDesk :=
  (desk.asked, { desk with asked := [], handedOver := 0 })

end DelegateDesk

/-- One room's graph and the nodes it has handed down. -/
structure Underway where
  nodes : Workshop.NodeMap
  handed : Finset Workshop.NodeId
  desk : DelegateDesk

namespace Underway

/-- The work one contract asks for. -/
def workOf (contract : Workshop.NodeContract) : Delegated where
  room := contract.writeDomain
  task := contract.jobText
  goal := contract.doneCheck
  kind := .ephemeral

/-- Asks for each node in turn; what was asked before a refusal stays with the desk. -/
def askEach (nodes : Workshop.NodeMap) :
    List Workshop.NodeId → List (Option AxError) → DelegateDesk → Except AxError Unit × DelegateDesk
  | [], _, desk => (.ok (), desk)
  | id :: rest, verdicts, desk =>
    match nodes[id]? with
    | none =>
      (.error (.failure .invalidArgs "hand down a workshop node"
        s!"{id} is scheduled and has no contract"
        (s!"remove `{id}` from the `depends_on` of every node, or add a node "
          ++ "for it: the schedule holds a room no node describes")), desk)
    | some contract =>
      match desk.ask (verdicts.head?.join) (workOf contract) with
      | .error refusal => (.error refusal, desk)
      | .ok desk => askEach nodes rest verdicts.tail desk

/-- The ready nodes that have not been handed down. -/
def fresh (underway : Underway) (done : Finset Workshop.NodeId) : List Workshop.NodeId :=
  (Workshop.ready underway.nodes done).filter fun id => id ∉ underway.handed

/-- Hands down every node that `done` makes ready and that has not been handed down yet: all of
them, or none. -/
def handNext (underway : Underway) (verdicts : List (Option AxError))
    (done : Finset Workshop.NodeId) : Except AxError (List Delegated) × Underway :=
  let fresh := underway.fresh done
  match askEach underway.nodes fresh verdicts underway.desk with
  | (.ok (), desk) =>
    (.ok desk.take.1,
      { underway with handed := underway.handed ∪ fresh.toFinset, desk := desk.take.2 })
  | (.error refusal, desk) => (.error refusal, { underway with desk := desk.take.2 })

end Underway

end Sprawling
