import Sprawling.Base.Effect
import Sprawling.Kernel.Plan.Ready
import Sprawling.Kernel.Spine.Insertion

namespace Sprawling

open Effect Spine

/-- What a run did to the plan. -/
inductive ClaimEffect where
  | claimed (id : NodeId) (item : List Char)
  | putDown (id : NodeId) (item : List Char) (exit : PlanExit)
  | split (parent : NodeId) (children : List NewChild)
  | added (id : NodeId) (child : NewChild)

namespace ClaimEffect

/-- The plan text with this effect written into it: the one definition of how an effect edits
the plan. -/
def apply (text : List Char) : ClaimEffect → Except AxError (List Char)
  | .claimed id _ => setRoadmapStatus text id .inProgress none
  | .putDown id _ exit => setRoadmapStatus text id exit.status exit.evidence
  | .split parent children => Spine.insertChildren text parent children
  | .added id child => Spine.appendTopLevel text id child

end ClaimEffect

/-- The run's side of the plan: the file as it stood when the run was dispatched, plus what this
run has changed. -/
structure ClaimDesk where
  who : String
  room : Address
  text : List Char
  changed : Bool
  held : Option Held
  effects : List ClaimEffect

/-- What an action answers with. -/
inductive DeskAnswer where
  | claimed (node : NodeId) (item : List Char) (heldBy : String)
  | finished (node : NodeId) (evidence : Locator)
  | putDown (node : NodeId) (red : Bool) (why : String)
  | split (node : NodeId) (children : List (List Char)) (unfinished : Nat)
  | added (nodes : List NodeId)
  | abandoned

def hallMayor : List Char := "hall/mayor".toList

namespace ClaimDesk

abbrev Desk := Effect AxError ClaimDesk

/-- A desk opened on a roadmap. -/
def new (who : String) (room : Address) (roadmap : List Char) : ClaimDesk :=
  { who, room, text := roadmap, changed := false, held := none, effects := [] }

def tree (desk : ClaimDesk) : Except AxError PlanTree :=
  match checkRoadmapShape desk.text with
  | .wellFormed rows => PlanTree.build rows
  | .malformed problems =>
    .error (.failure .invalidArgs "read the plan" (String.intercalate "; " problems)
      ("repair the six-column table in Roadmap.md, then claim a node; a plan that does "
        ++ "not parse has no denominator"))

/-- The item of a node, or nothing where the plan has no such node. -/
def itemOf (tree : PlanTree) (id : NodeId) : List Char :=
  (tree.nodes[id]?.map fun node => node.row.item).getD []

/-- Writes an effect into the desk's copy and queues it for the worker. -/
def take (effect : ClaimEffect) : Desk Unit := do
  let desk ← Effect.look
  let text ← Effect.lift (effect.apply desk.text)
  update fun desk => { desk with text, changed := true, effects := desk.effects ++ [effect] }

/-- Writes an exit into the file and queues the record. -/
def record (exit : PlanExit) : Desk Unit := do
  let desk ← Effect.look
  let tree ← Effect.lift desk.tree
  take (.putDown exit.id (itemOf tree exit.id) exit)

/-- Takes the held node, refusing when it is not the one named. -/
def takeHeld (id : NodeId) : Desk Held := do
  let desk ← Effect.look
  update fun desk => { desk with held := none }
  match desk.held with
  | some held =>
    if held.id = id then return held
    else
      update fun desk => { desk with held := some held }
      Effect.refuse (.failure .invalidArgs "put down a plan node"
        s!"this run holds {held.id}, not {id}" s!"put down {held.id}, or claim {id} first")
  | none =>
    Effect.refuse (.failure .invalidArgs "put down a plan node"
      s!"this run holds nothing, so it cannot put down {id}"
      "claim it first; a node is closed by the run that took it")

/-- Spends a still-held node on the one exit a run that simply ended has earned. -/
def abandon : Desk DeskAnswer := do
  let desk ← Effect.look
  update fun desk => { desk with held := none }
  match desk.held with
  | none => return .abandoned
  | some held =>
    record (held.stop .frozeWithoutEvidence)
    return .abandoned

/-- Takes a node to work on. The desk's copy answers first; the booking answers for every run
dispatched beside this one, and nothing is written until it has. -/
def claim (id : NodeId) (booking : ClaimEffect → Except AxError Unit) : Desk DeskAnswer := do
  let desk ← Effect.look
  match desk.held with
  | some already =>
    Effect.refuse (.failure .invalidArgs "claim a plan node"
      s!"this run already holds {already.id}"
      s!"finish, block or release {already.id} first; a run works on one node")
  | none =>
    let tree ← Effect.lift desk.tree
    let held ← Effect.lift (tree.claim id)
    let claimed := ClaimEffect.claimed id (itemOf tree id)
    Effect.lift (booking claimed)
    take claimed
    update fun desk => { desk with held := some held }
    return .claimed id (itemOf tree id) desk.who

def finish (id : NodeId) (evidence : Locator) : Desk DeskAnswer := do
  let held ← takeHeld id
  record (held.finish evidence)
  return .finished id evidence

def putDown (id : NodeId) (why : StopCause) : Desk DeskAnswer := do
  let held ← takeHeld id
  record (held.stop why)
  return .putDown id why.isRed why.line

/-- Refuses a split of anything but the node this run holds. -/
def refuseUnlessHolding (id : NodeId) : Desk Unit := do
  let desk ← Effect.look
  match desk.held with
  | some held =>
    if held.id = id then return ()
    else
      Effect.refuse (.failure .invalidArgs "split a plan node"
        s!"this run holds {held.id}, not {id}"
        s!"split {held.id}, or put it down and claim {id} first")
  | none =>
    Effect.refuse (.failure .invalidArgs "split a plan node"
      s!"this run holds nothing, so it cannot split {id}"
      s!"claim {id} first; a row is divided by the run that holds it")

def trimmedChild (child : NewChild) : NewChild := { child with item := Text.trim child.item }

/-- The children of a node that are not done. -/
def unfinishedUnder (tree : PlanTree) (id : NodeId) : Nat :=
  match tree.nodes[id]? with
  | none => 0
  | some parent =>
    ((parent.children.filterMap fun child => tree.nodes[child]?).filter
      fun child => child.row.status != .done).length

/-- The tree a grown text builds, before anything of it is written. -/
def grownTree (text : List Char) (action subject recovery : String) : Except AxError PlanTree :=
  match checkRoadmapShape text with
  | .wellFormed rows => PlanTree.build rows
  | .malformed _ => .error (.failure .invalidArgs action subject recovery)

/-- Divides the node this run holds into children and leaves the run holding nothing. -/
def split (id : NodeId) (children : List NewChild) : Desk DeskAnswer := do
  refuseUnlessHolding id
  let desk ← Effect.look
  let effect := ClaimEffect.split id (children.map trimmedChild)
  let grown ← Effect.lift (effect.apply desk.text)
  let after ← Effect.lift (grownTree grown "split a plan node"
    "the split would leave a table that does not parse"
    "shorten the child items; they must fit one table row each")
  update fun desk =>
    { desk with text := grown, changed := true, effects := desk.effects ++ [effect], held := none }
  return .split id (children.map fun child => Text.trim child.item) (unfinishedUnder after id)

def refuseAdd (subject recovery : String) : AxError :=
  .failure .invalidArgs "add a plan row" subject recovery

/-- The loop of `add`: each row follows the last top-level one by its offset. -/
def growRows (last : Nat) : Nat → List Char → List NewChild →
    Except AxError (List Char × List ClaimEffect)
  | _, text, [] => .ok (text, [])
  | offset, text, row :: rows =>
    if last + offset < u32Bound then do
      let id ← NodeId.parse (Text.decimal (last + offset))
      let effect := ClaimEffect.added id (trimmedChild row)
      let grown ← effect.apply text
      let (grown, effects) ← growRows last (offset + 1) grown rows
      return (grown, effect :: effects)
    else .error (refuseAdd "the plan has no top-level index left" "split an existing row instead")

/-- The largest ordinal a top-level row carries. -/
def lastTopLevel (tree : PlanTree) : Nat :=
  (((tree.nodes.toList.map Prod.snd).filter fun node => node.row.id.parent.isNone).map
    fun node => node.row.id.ordinal).foldl max 0

/-- The node an effect concerns. -/
def effectId : ClaimEffect → NodeId
  | .claimed id _ | .putDown id _ _ | .added id _ => id
  | .split parent _ => parent

/-- Grows the table and rebuilds it before anything is written. -/
def addRows (rows : List NewChild) : Desk DeskAnswer := do
  let desk ← Effect.look
  let tree ← Effect.lift desk.tree
  let added ← Effect.lift (growRows (lastTopLevel tree) 1 desk.text rows)
  let _ ← Effect.lift (grownTree added.1 "add a plan row"
    "the rows would leave a table that does not parse"
    "shorten the items; each must fit one table row")
  update fun desk =>
    { desk with text := added.1, changed := true, effects := desk.effects ++ added.2 }
  return .added (added.2.map effectId)

/-- Writes top-level rows under the plan's root, which only the Mayor holds. -/
def add (rows : List NewChild) : Desk DeskAnswer := do
  let desk ← Effect.look
  if desk.room.text ≠ hallMayor then
    Effect.refuse (refuseAdd
      ("the plan's root belongs to the building's Mayor, and this run is "
        ++ String.ofList desk.room.text)
      ("claim a row and split it to add work under it, or signal " ++ String.ofList hallMayor
        ++ " to add a top-level row"))
  else if rows.isEmpty then
    Effect.refuse (refuseAdd "no rows given"
      "pass `parts` as the rows to add, each `\x7bitem, weight\x7d` or a plain string")
  else addRows rows

end ClaimDesk

/-- What a model may ask of the desk, with what the booking answers to a claim. -/
inductive DeskAction where
  | claim (id : NodeId) (booking : ClaimEffect → Except AxError Unit)
  | finish (id : NodeId) (evidence : Locator)
  | putDown (id : NodeId) (why : StopCause)
  | split (id : NodeId) (children : List NewChild)
  | add (rows : List NewChild)
  | abandon

namespace ClaimDesk

def act : DeskAction → Desk DeskAnswer
  | .claim id booking => claim id booking
  | .finish id evidence => finish id evidence
  | .putDown id why => putDown id why
  | .split id children => split id children
  | .add rows => add rows
  | .abandon => abandon

/-- The desk after a list of actions, answered or refused. -/
def after (desk : ClaimDesk) (actions : List DeskAction) : ClaimDesk :=
  actions.foldl (fun desk action => (Effect.run (act action) desk).2) desk

/-- The effects applied one after another. -/
def replay (text : List Char) (effects : List ClaimEffect) : Except AxError (List Char) :=
  effects.foldlM ClaimEffect.apply text

end ClaimDesk

end Sprawling
