import Sprawling.Kernel.Locator
import Sprawling.Kernel.NodeId

namespace Sprawling

/-- The five states of a row, closed. -/
inductive RoadmapStatus where
  | notStarted
  | inProgress
  | done
  | blocked
  | awaitingApproval
deriving DecidableEq

/-- Status column spellings: the parse table, data and not code. -/
def roadmapStatusSpellings : List (RoadmapStatus × List Char) :=
  [(.notStarted, "Not started".toList), (.inProgress, "In progress".toList),
    (.done, "Done".toList), (.blocked, "Blocked".toList),
    (.awaitingApproval, "Awaiting approval".toList)]

def roadmapColumns : Nat := 6

/-- The one spelling, for every writer and every message. -/
def RoadmapStatus.spelling (status : RoadmapStatus) : List Char :=
  ((roadmapStatusSpellings.find? fun known => known.1 == status).map Prod.snd).getD
    "Not started".toList

/-- The evidence column, three-way: empty and invalid are different facts. -/
inductive EvidenceCell where
  | empty
  | invalid (raw : List Char)
  | present (locator : Locator)
deriving DecidableEq

/-- One row as the table spells it. `weight` is a ratio among the rows that share a parent. -/
structure RoadmapRow where
  id : NodeId
  item : List Char
  weight : UInt32
  needs : List NodeId
  status : RoadmapStatus
  evidence : EvidenceCell
deriving DecidableEq

inductive RoadmapShape where
  | wellFormed (rows : List RoadmapRow)
  | malformed (problems : List String)
deriving DecidableEq

/-- A child to hang under a node: what it is and how big a slice of its parent it takes. -/
structure NewChild where
  item : List Char
  weight : UInt32

end Sprawling
