import Sprawling.Kernel.Share
import Sprawling.Kernel.Spine.Row

namespace Sprawling

/-- One node, placed: the row as written plus what the tree worked out. -/
structure PlanNode where
  row : RoadmapRow
  share : Share
  /-- In table order. Empty means a leaf, and only leaves carry progress. -/
  children : List NodeId

namespace PlanNode

def isLeaf (node : PlanNode) : Bool := node.children.isEmpty

end PlanNode

abbrev NodeMap := OrdMap NodeId PlanNode

/-- Why a held node was put down without evidence. -/
inductive StopCause where
  | blocked (note : String)
  | handedBack (note : String)
  | frozeWithoutEvidence
  | stalled (repeats : UInt32)
  | gateOverdue (waitedMs : UInt64)

namespace StopCause

/-- What the status column says afterwards. -/
def status : StopCause → RoadmapStatus
  | .handedBack _ => .notStarted
  | .blocked _ | .frozeWithoutEvidence | .stalled _ | .gateOverdue _ => .blocked

/-- Whether this stop is one the plan reports as red. -/
def isRed : StopCause → Bool
  | .handedBack _ => false
  | .blocked _ | .frozeWithoutEvidence | .stalled _ | .gateOverdue _ => true

/-- One line, for a person reading the first screen. -/
def line : StopCause → String
  | .blocked note | .handedBack note => note
  | .frozeWithoutEvidence => "the run holding it ended without citing anything"
  | .stalled repeats => s!"the run repeated one action {repeats} times"
  | .gateOverdue waitedMs => s!"a door has waited {waitedMs} ms for the User"

end StopCause

/-- How a held node left. -/
inductive PlanExit where
  | finished (id : NodeId) (evidence : Locator)
  | stopped (id : NodeId) (why : StopCause)

namespace PlanExit

def id : PlanExit → NodeId
  | .finished id _ | .stopped id _ => id

/-- The status the row carries after this exit. -/
def status : PlanExit → RoadmapStatus
  | .finished _ _ => .done
  | .stopped _ why => why.status

/-- The evidence cell after this exit. -/
def evidence : PlanExit → Option Locator
  | .finished _ evidence => some evidence
  | .stopped _ _ => none

end PlanExit

/-- A node a run holds. Only `PlanTree.claim` makes one. -/
structure Held where
  id : NodeId

namespace Held

def finish (held : Held) (evidence : Locator) : PlanExit := .finished held.id evidence

def stop (held : Held) (why : StopCause) : PlanExit := .stopped held.id why

end Held

namespace Plan

def refusal (action subject recovery : String) : AxError :=
  .failure .invalidArgs action subject recovery

end Plan

end Sprawling
