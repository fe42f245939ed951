import Sprawling.Kernel.AccountRecovery
import Sprawling.Kernel.RunId
import Sprawling.Kernel.Wire

/-! A tool's registration and the lines a run writes. A line's moments are left out. -/

namespace Sprawling

/-- Where a call reaches, declared at registration. -/
inductive ToolEffect where
  | read
  | write (domain : Address)
  | egress
  | connector (label : ServerLabel)
  | spawn
  | govern
  | attachUserBrowser (address : Option (List Char))
  | spend
deriving DecidableEq

inductive RenderIntent where
  | generic
  | terminal
  | diff (locations : List Address)
  | signal
  | delegate
deriving DecidableEq

/-- The registration of a tool, as far as a turn and its bench read it. -/
structure ToolMeta where
  name : ToolName
  effect : ToolEffect
  render : RenderIntent

/-- What a call may have written to the city's tree. -/
inductive Writes where
  | nothing
  | paths (files : List Address)
  | domain
deriving DecidableEq

namespace Writes

/-- The answer read off the declared effect alone. -/
def of : ToolEffect → Writes
  | .read => .nothing
  | .write _ | .egress | .connector _ | .spawn | .govern | .attachUserBrowser _ | .spend => .domain

/-- Both answers at once. -/
def and : Writes → Writes → Writes
  | .domain, _ => .domain
  | _, .domain => .domain
  | .nothing, only => only
  | only, .nothing => only
  | .paths these, .paths those =>
    .paths (those.foldl (fun held path => if path ∈ held then held else held ++ [path]) these)

end Writes

/-- How a recorded answer's text was drawn. -/
inductive Rendering where
  | v1
  | v2
  | v3
deriving DecidableEq

namespace Rendering

def of (recorded : Option Rendering) : Rendering := recorded.getD .v1

end Rendering

/-- A call answers exactly one way. -/
inductive ToolAnswer where
  | answered (result : Json)
  | failed (error : Json)
deriving DecidableEq

inductive Who where
  | city
  | person
  | resident (addr : Address)
deriving DecidableEq

namespace Who

/-- Who handed a piece of work down, in the words a model reads. -/
def handedDownBy (who : Who) (predecessor parent : Option RunId) : List Char :=
  match who with
  | .city => "the city".toList
  | .person => "the User".toList
  | .resident addr =>
    match predecessor.or parent with
    | some run => '@' :: addr.text ++ ", run ".toList ++ run.display
    | none => '@' :: addr.text

end Who

/-- How the first user message opens. -/
inductive Opening where
  | fromJob
  | inherited
  | withPerson
deriving DecidableEq

/-- What a run's first line says of it, as far as a rebuild reads it. -/
structure RunStarted where
  task : List Char
  goal : List Char
  job : Option Locator
  parent : Option RunId
  predecessor : Option RunId
  dispatchedBy : Option Who
  opening : Option Opening
deriving DecidableEq

inductive Mode where
  | chat
  | work
deriving DecidableEq

inductive WriteLimit where
  | full
  | create
deriving DecidableEq

inductive AdmissionRequirement where
  | standing
  | tested
  | contractKept
  | doubleValidated
deriving DecidableEq

inductive LandingPolicy where
  | ordinary
  | experiment
deriving DecidableEq

/-- The four values a run works under. -/
structure RunPolicy where
  mode : Mode
  write : WriteLimit
  admission : AdmissionRequirement
  landing : LandingPolicy
deriving DecidableEq

namespace RunPolicy

def modeWord : Mode → List Char
  | .chat => "chat".toList
  | .work => "work".toList

def writeWord : WriteLimit → List Char
  | .full => "full".toList
  | .create => "create".toList

def admitWord : AdmissionRequirement → List Char
  | .standing => "standing".toList
  | .tested => "tested".toList
  | .contractKept => "contract_kept".toList
  | .doubleValidated => "double_validated".toList

def landingWord : LandingPolicy → List Char
  | .ordinary => "ordinary".toList
  | .experiment => "experiment".toList

/-- The note appended after a wave's results when a change was taken. -/
def note (policy : RunPolicy) : List Char :=
  "The User changed this run's policy; from the next tool call on: mode ".toList
    ++ modeWord policy.mode ++ ", write ".toList ++ writeWord policy.write
    ++ ", admission ".toList ++ admitWord policy.admission
    ++ ", landing ".toList ++ landingWord policy.landing ++ ['.']

end RunPolicy

/-- What one line of a run says. A payload no modelled reader opens is kept whole. -/
inductive Line where
  | runStarted (started : RunStarted)
  | promptAssembled (payload : Json)
  | promptShapeCompared (payload : Json)
  | modelCalled (payload : Json)
  | prefixHeld (payload : Json)
  | modelReturned (message : Json) (calls : Nat)
  | toolCalled (call : ToolCall) (subject : Option (List Char)) (effect : Option ToolEffect)
      (render : Option RenderIntent)
  | toolResult (toolUseId : List Char) (name : ToolName) (answer : ToolAnswer)
      (rendered : Option Rendering) (shownBytes : Option Nat)
  | checkpointCommitted (payload : Json)
  | steerReceived (source text : List Char)
  | cancelReceived
  | elsewhere (kind : String) (payload : Json)
deriving DecidableEq

namespace Line

def subjectKeys : List String := ["file_path", "path", "addr", "command"]

/-- The one argument a person recognises a call by. -/
def subjectOf (args : Json) : Option (List Char) :=
  match subjectKeys.findSome? fun key => (args.get key).bind Json.asStr with
  | some named => some named
  | none =>
    match args with
    | .obj entries => entries.findSome? fun entry => entry.2.asStr
    | _ => none

end Line

/-- A line on its way to the ledger. -/
structure EventDraft where
  run : RunId
  who : List Char
  addr : Option Address
  line : Line
deriving DecidableEq

end Sprawling
