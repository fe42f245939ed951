import Sprawling.Runtime.Bench
import Sprawling.Runtime.Catalog
import Sprawling.Runtime.Run

namespace Sprawling

/-- What a run's calls leave for the checkpoints around them: the commits it was checkpointed
against, and what the calls since the last checkpoint said they wrote. -/
structure Checkpointing where
  checkpointed : List (List Char)
  wrote : Writes

namespace Checkpointing

def opened : Checkpointing := { checkpointed := [], wrote := .domain }

/-- What the next checkpoint stages. -/
def scope (wrote : Writes) (domain : List (List Char)) : List (List Char) :=
  match wrote with
  | .paths paths => paths.map (·.text)
  | .nothing | .domain => domain

def takeScope (checkpointing : Checkpointing) (domain : List (List Char)) :
    List (List Char) × Checkpointing :=
  (scope checkpointing.wrote domain, { checkpointing with wrote := .nothing })

def add (checkpointing : Checkpointing) (this : Writes) : Checkpointing :=
  { checkpointing with wrote := checkpointing.wrote.and this }

def widen (checkpointing : Checkpointing) : Checkpointing := checkpointing.add .domain

end Checkpointing

/-- What the model reads of a result: a command's output and a connector's answer are packaged. -/
structure Sieving (σ : Type) where
  package : ToolCall → ToolOutcome → σ → ToolReply × σ
  packageConnector : ToolOutcome → σ → ToolReply × σ

/-- What a run's tool face is built from. -/
structure Lane (σ κ : Type) where
  fittings : Fittings
  sieving : Sieving σ
  run : RunId
  /-- The bytes that say what a call does. -/
  action : ToolCall → Except AxError (List UInt8)
  /-- The key of an action at a position of a run. -/
  derive : RunId → Nat → List UInt8 → κ
  /-- What a checkpoint stages when the calls could not say. -/
  domain : List (List Char)

/-- A run's bench as the tool face a wave drives: each call's key is placed by its position. -/
structure Placing (σ κ : Type) where
  bench : ToolBench κ
  sieving : σ
  next : Nat
  /-- The commands the run ran: passed, failed. -/
  ran : Nat × Nat
  checkpointing : Checkpointing

namespace Lane

variable {σ κ : Type} (lane : Lane σ κ)

/-- The face before the run's first call. -/
def place (sieving : σ) : Placing σ κ :=
  { bench := .new, sieving, next := 0, ran := (0, 0), checkpointing := .opened }

/-- What the model reads of a result no command produced. -/
def unsieved (call : ToolCall) (outcome : ToolOutcome) (placing : Placing σ κ) :
    ToolReply × Placing σ κ :=
  match (lane.fittings.metaOf call.name).map ToolMeta.effect with
  | some (.connector _) =>
    let packaged := lane.sieving.packageConnector outcome placing.sieving
    (packaged.1, { placing with sieving := packaged.2 })
  | _ => (.ok outcome, placing)

def package (call : ToolCall) (outcome : ToolOutcome) (placing : Placing σ κ) :
    ToolReply × Placing σ κ :=
  let packaged := lane.sieving.package call outcome placing.sieving
  (packaged.1, { placing with sieving := packaged.2 })

/-- Counts a command; without an exit code it counts as failed. -/
def counted (outcome : ToolOutcome) (ran : Nat × Nat) : Nat × Nat :=
  if outcome.result.get "exit_code" = some (.num 0) then (saturatingSucc ran.1, ran.2)
  else (ran.1, saturatingSucc ran.2)

/-- What the model reads back for what the bench decided. -/
def answered (call : ToolCall) (decided : BenchOutcome) (placing : Placing σ κ) :
    ToolReply × Placing σ κ :=
  match decided with
  | .ran outcome checkpointed wrote =>
    let checkpointing := { placing.checkpointing with
      checkpointed := placing.checkpointing.checkpointed ++ checkpointed.toList }
    let placing := { placing with checkpointing := checkpointing.add wrote }
    if call.name ≠ .exec then lane.unsieved call outcome placing
    else lane.package call outcome { placing with ran := counted outcome placing.ran }
  | .refused refusal => (.error refusal, placing)
  | .duplicate outcome =>
    if call.name = .exec then lane.package call outcome placing
    else lane.unsieved call outcome placing

def setBench (placing : Placing σ κ) (bench : ToolBench κ) : Placing σ κ := { placing with bench }

def widened (placing : Placing σ κ) : Placing σ κ :=
  { placing with checkpointing := placing.checkpointing.widen }

def admitOne [DecidableEq κ] (call : ToolCall) (placing : Placing σ κ) :
    Admitted (Ticket κ) × Placing σ κ :=
  let position := placing.next
  let placing := { placing with next := position + 1 }
  match lane.action call with
  | .error unreadable => (.answered (.error unreadable), placing)
  | .ok action =>
    let key := lane.derive lane.run position action
    match Effect.run (ToolBench.clear lane.fittings call key) placing.bench with
    | (.ok (.cleared ticket), bench) => (.cleared ticket, setBench placing bench)
    | (.ok (.answered decided), bench) =>
      let said := lane.answered call decided (setBench placing bench)
      (.answered said.1, said.2)
    | (.error refused, bench) =>
      (.answered (.error refused), widened (setBench placing bench))

def account (call : ToolCall) (ticket : Ticket κ) (ran : ToolReply) (placing : Placing σ κ) :
    ToolReply × Placing σ κ :=
  match Effect.run (ToolBench.account ticket ran) placing.bench with
  | (.ok decided, bench) => lane.answered call decided (setBench placing bench)
  | (.error refused, bench) => (.error refused, widened (setBench placing bench))

/-- The tool face, over the catalog a turn resolves its calls with. -/
def face [DecidableEq κ] (catalog : Catalog) : ConcurrentInvoke (Placing σ κ) (Ticket κ) where
  metaOf := fun call => lane.fittings.metaOf call.name
  resolveCall := fun _ call => catalog.resolveCall call
  ahead := fun _ call => (lane.fittings.toolNamed call.name).map (·.invoke)
  admitOne := lane.admitOne
  tool := fun _ ticket => ToolBench.toolFor lane.fittings ticket
  account := lane.account

/-- The wave checkpoint: it stages what the calls since the last one said they wrote, and `answer`
is what the repository answers. -/
def checkpoint (answer : Except AxError Json) (placing : Placing σ κ) : Staging × Placing σ κ :=
  let taken := placing.checkpointing.takeScope lane.domain
  let oid := match answer with
    | .ok payload => (payload.get "oid").bind Json.asStr
    | .error _ => none
  ({ scope := taken.1, committed := answer },
    { placing with
      checkpointing := { taken.2 with checkpointed := taken.2.checkpointed ++ oid.toList } })

end Lane

/-- What one turn of a lane meets from outside. -/
structure LaneTurn where
  interrupt : SafePoint → Interrupt
  catalog : Catalog
  /-- What the repository answers the checkpoint before the wave. -/
  committed : Except AxError Json
  prompt : List ChatMessage → Except AxError Json
  shape : List ChatMessage → Except AxError Json
  verified : Except AxError Unit
  modelCalled : Json
  streaming : Attempt
  blocking : Attempt
  admitsRepair : Bool
  reminder : Option (List Char)

/-- What a lane lends one turn. -/
def Lane.hooks {σ κ : Type} [DecidableEq κ] (lane : Lane σ κ) (turn : LaneTurn) :
    RunHooks (Placing σ κ) (Ticket κ) where
  interrupt := turn.interrupt
  tools := lane.face turn.catalog
  writes := lane.fittings.declaredWrites
  checkpoint := some (lane.checkpoint turn.committed)
  prompt := turn.prompt
  shape := turn.shape
  verified := turn.verified
  modelCalled := turn.modelCalled
  streaming := turn.streaming
  blocking := turn.blocking
  admitsRepair := turn.admitsRepair
  reminder := turn.reminder

end Sprawling
