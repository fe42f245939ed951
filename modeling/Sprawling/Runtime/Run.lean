import Sprawling.Runtime.Wave

namespace Sprawling

open Act

/-- Where an interruption can land in a turn. -/
inductive SafePoint where
  | beforeAssemble
  | beforeCall
  | beforeWave
  | beforeToolCall (call : Nat)
  | beforeSpawn

inductive StopReason where
  | endTurn
  | toolUse
  | maxTokens
deriving DecidableEq

/-- What the provider answered. -/
structure ModelReturn where
  message : Json
  calls : List ToolCall
  stop : Option StopReason

/-- One attempt at a model call: the calls handed over while it was generating, the wait it took
at its endpoint's gate, and its answer. -/
structure Attempt where
  handed : List ToolCall
  prefixHeld : Option Json
  answer : Except AxError ModelReturn

/-- What a checkpoint stages, and whether it committed. -/
structure Staging where
  scope : List (List Char)
  committed : Except AxError Json

/-- What the driver lends one turn, and what the outside answers in it. -/
structure RunHooks (β τ : Type) where
  interrupt : SafePoint → Interrupt
  tools : ConcurrentInvoke β τ
  /-- What each call as the model wrote it may write. -/
  writes : ToolCall → Writes
  /-- Takes the checkpoint before a wave. -/
  checkpoint : Option (β → Staging × β)
  /-- The prefix as this request would record it. -/
  prompt : List ChatMessage → Except AxError Json
  /-- The request as a prompt cache sees it. -/
  shape : List ChatMessage → Except AxError Json
  /-- Whether the request carries the prefix it names. -/
  verified : Except AxError Unit
  /-- What `model_called` records of each attempt. -/
  modelCalled : Json
  streaming : Attempt
  blocking : Attempt
  admitsRepair : Bool
  /-- The context reminder this turn's count sounds. -/
  reminder : Option (List Char)

inductive Completion where
  | done (evidence : RunEventRef)
  | limit
  | cancelled

inductive Advance where
  | turned
  | concluded (completion : Completion)

/-- A whole reply, its calls not yet run. -/
structure ToolWave where
  calls : List ToolCall
  speculated : List (ToolCall × ToolReply)
  modelReturned : Entry
  assistant : List ContentBlock
  stop : Option StopReason

namespace ModelCall

variable {β τ : Type} (setting : Setting) (hooks : RunHooks β τ) (request : List ChatMessage)

/-- Appends `model_called` and makes it durable with every line held before it. -/
def record : Act β Unit := do
  let _ ← appendAuthored (.modelCalled hooks.modelCalled)
  Act.barrier

/-- Appends the wait an attempt took at its endpoint's gate, when it took one. -/
def noteHold (attempt : Attempt) : Act β Unit :=
  match attempt.prefixHeld with
  | none => return ()
  | some held => do
      let _ ← appendRedacted setting.scan (.prefixHeld held)
      return ()

/-- The reads started early are invoked while the model generates. -/
def noteReads (tools : ConcurrentInvoke β τ) : List (ToolCall × ToolReply) → Act β Unit
  | [] => return ()
  | (call, _) :: rest => do
      Act.note (.invoked call (tools.declared call))
      noteReads tools rest

/-- The same request again through the blocking door. -/
def resendBlocking : Act β ModelReturn := do
  record hooks
  Act.note (.sent request)
  noteHold setting hooks.blocking
  Effect.lift hooks.blocking.answer

/-- Makes the call and runs the recovery pipeline over its failure. A repaired return carries no
reads started early. -/
def ask : Act β (ModelReturn × List (ToolCall × ToolReply)) := do
  record hooks
  Act.note (.sent request)
  let floor ← Effect.look
  let started := hooks.tools.startReads floor.bench 0 hooks.streaming.handed
  noteReads hooks.tools started
  noteHold setting hooks.streaming
  match hooks.streaming.answer with
  | .ok returned => return (returned, started)
  | .error failure =>
    if failure.code = .wireMismatch ∧ hooks.admitsRepair = true then do
      let returned ← resendBlocking setting hooks request
      return (returned, [])
    else Effect.refuse failure

/-- The provider call: `none` is a turn that ended before it. -/
def call (interrupt : Interrupt) : Act β (Option ToolWave) := do
  if ← consumeBoundary interrupt then return none
  Effect.lift hooks.verified
  let (returned, speculated) ← ask setting hooks request
  let assistant ← Effect.lift (setting.contentFromMessage returned.message)
  let modelReturned ← appendRedacted setting.scan
    (.modelReturned returned.message returned.calls.length)
  return some { calls := returned.calls, speculated, modelReturned, assistant, stop := returned.stop }

end ModelCall

namespace Run

variable {β τ : Type} (setting : Setting) (addr : Address) (hooks : RunHooks β τ)

/-- Holds `prompt_assembled`, unless the run last recorded that same payload. -/
def recordPrompt (payload : Json) : Act β Unit := do
  let floor ← Effect.look
  if floor.prompt ≠ some payload then
    let _ ← appendAuthored (.promptAssembled payload)
    Effect.update fun floor => { floor with prompt := some payload }

/-- Holds the lines that describe a request. -/
def describe (request : List ChatMessage) : Act β Unit := do
  let payload ← Effect.lift (hooks.prompt request)
  recordPrompt payload
  let shape ← Effect.lift (hooks.shape request)
  let _ ← Act.append (some addr) (.promptShapeCompared shape)
  return ()

/-- Builds the request from the conversation. `none` is a turn that ended here. -/
def assemble (opening : Interrupt) : Act β (Option (List ChatMessage)) := do
  if ← consumeBoundary opening then return none
  let floor ← Effect.look
  describe addr hooks floor.conversation.messages
  return some floor.conversation.messages

/-- Takes the checkpoint, where the driver has one to take. -/
def stageWave : Act β Unit :=
  match hooks.checkpoint with
  | none => return ()
  | some stage => do
      let floor ← Effect.look
      Wave.setBench (stage floor.bench).2
      let payload ← Effect.lift (stage floor.bench).1.committed
      Act.note (.staged (stage floor.bench).1.scope)
      let _ ← Act.append (some addr) (.checkpointCommitted payload)
      return ()

/-- The checkpoint that goes up before a wave of these calls. -/
def checkpointWave (calls : List ToolCall) : Act β Unit := do
  let floor ← Effect.look
  let touches := CheckpointPolicy.Wave.of calls hooks.writes
  let decided := floor.checkpoint.forWave touches
  if decided = .stage then stageWave addr hooks
  Effect.update fun floor => { floor with checkpoint := floor.checkpoint.recordWave decided touches }

/-- Puts the policy change that waits in force and hands it back. -/
def takeAtWave : Act β (Option RunPolicy) := do
  let floor ← Effect.look
  Effect.update fun floor => { floor with arrived := none }
  return floor.arrived

/-- The question asked before each call of a wave. -/
def stillGoing (call : Nat) : Act β Interrupt := do
  let arrived := hooks.interrupt (.beforeToolCall call)
  foldArrival arrived
  return arrived

/-- A text, where there is one. -/
def tellAny (text : Option (List Char)) : Act β Unit :=
  match text with
  | some text => Act.tell text
  | none => return ()

/-- The turn's exchange reaches the conversation. -/
def fold (calls : Nat) (exchange : Exchange) : Act β Unit := do
  Act.note (.closed calls exchange.assistant exchange.results)
  Effect.update fun floor =>
    { floor with
      conversation :=
        (floor.conversation.pushAssistant exchange.assistant).pushToolResults exchange.results }

/-- The exchange reaches the conversation, and after it the note of a policy change and the
context reminder. -/
def close (calls : Nat) (exchange : Exchange) (taken : Option RunPolicy) : Act β Unit := do
  fold calls exchange
  tellAny (taken.map fun policy => Speaker.city.render policy.note)
  tellAny hooks.reminder

/-- How a turn that called no tool ends the run. -/
def concluded (exchange : Exchange) (wave : ToolWave) : Act β Completion := do
  if exchange.assistant.isEmpty ∨ wave.stop = some .maxTokens then return .limit
  let floor ← Effect.look
  let evidence ← Effect.lift (floor.lines.durable wave.modelReturned)
  return .done evidence

/-- A whole reply, from its checkpoint to the closing of its turn. -/
def answer (wave : ToolWave) : Act β Advance := do
  checkpointWave addr hooks wave.calls
  let interrupt := hooks.interrupt .beforeWave
  foldArrival interrupt
  let taken ← takeAtWave
  let executed ← Wave.executeConcurrent setting hooks.tools (stillGoing hooks) interrupt wave.calls
    wave.speculated wave.assistant
  match executed with
  | none => return .concluded .cancelled
  | some exchange =>
    let settling := hooks.interrupt .beforeSpawn
    foldArrival settling
    if ← consumeBoundary settling then return .concluded .cancelled
    let exchange ← Effect.lift (exchange.compact setting)
    close hooks wave.calls.length exchange taken
    if wave.calls.length = 0 then
      Act.barrier
      let completion ← concluded exchange wave
      return .concluded completion
    else return .turned

/-- Takes one turn. -/
def advance : Act β Advance := do
  let opening := hooks.interrupt .beforeAssemble
  foldArrival opening
  match ← assemble addr hooks opening with
  | none => return .concluded .cancelled
  | some request =>
    let calling := hooks.interrupt .beforeCall
    let called ← Effect.attempt (ModelCall.call setting hooks request calling)
    Effect.update fun floor => { floor with conversation := floor.conversation.markSent }
    foldArrival calling
    match ← Effect.lift called with
    | none => return .concluded .cancelled
    | some wave => answer setting addr hooks wave

/-- One turn as the driver takes it, and whether the driver asks again when it failed for a reason
an event carries. -/
structure Driven (β τ : Type) where
  hooks : RunHooks β τ
  again : Bool

/-- A run's turns, one after another, until one concludes the run or the driver gives up. -/
def drive : List (Driven β τ) → Floor β → Floor β
  | [], floor => floor
  | turn :: turns, floor =>
    match Effect.run (advance setting addr turn.hooks) floor with
    | (.ok .turned, after) => drive turns after
    | (.ok (.concluded _), after) => (Effect.run Act.barrier after).2
    | (.error reason, after) =>
      match Effect.run Act.barrier after with
      | (.ok _, settled) =>
        if reason.code.carried ∧ turn.again then drive turns settled else settled
      | (.error _, settled) => settled

/-- A run as it is dispatched. -/
structure RunPlan where
  run : RunId
  who : List Char
  addr : Address
  task : List Char
  goal : List Char
  job : Locator
  parent : Option RunId
  predecessor : Option RunId
  dispatchedBy : Who
  opening : Opening
  inherited : List ChatMessage
  /-- What the job pin records. -/
  pin : Json

namespace RunPlan

def handedDownBy (plan : RunPlan) : List Char :=
  plan.dispatchedBy.handedDownBy plan.predecessor plan.parent

def taskText (plan : RunPlan) : List Char :=
  Conversation.taskText plan.task plan.goal plan.opening plan.handedDownBy

/-- The run's first line. -/
def started (plan : RunPlan) : RunStarted :=
  { task := plan.task, goal := plan.goal, job := some plan.job, parent := plan.parent
    predecessor := plan.predecessor, dispatchedBy := some plan.dispatchedBy
    opening := some plan.opening }

end RunPlan

/-- The run exists: its first line is on the ledger and its task is in the conversation. -/
def dispatch (plan : RunPlan) (book : Book) (bench : β) : Floor β :=
  { lines := HeldLines.open_ plan.run plan.who
    book := { book with
      records := book.records ++
        [{ run := RunId.city, who := "city".toList, addr := some plan.addr
           line := .checkpointCommitted plan.pin },
         { run := plan.run, who := "city".toList, addr := some plan.addr
           line := .runStarted plan.started }] }
    bench
    conversation := (Conversation.new.pushInherited plan.inherited).pushTaskLines plan.task
      plan.goal plan.opening plan.handedDownBy
    arrived := none
    prompt := none
    checkpoint := CheckpointPolicy.opening
    deeds := [.arrived plan.taskText] }

end Run

/-- A setting that scans nothing, reads no content and draws every answer as the empty text. -/
def Setting.plain : Setting where
  scan := id
  readContent := fun _ => .ok []
  shown := fun _ _ _ => .ok []
  errorPayload := fun _ => .null
  shrink := fun text _ => text

/-- A bench no tool stands on. -/
def ConcurrentInvoke.bare : ConcurrentInvoke Unit Unit where
  metaOf := fun _ => none
  resolveCall := fun _ call => call
  ahead := fun _ _ => none
  admitOne := fun _ bench => (.cleared (), bench)
  tool := fun _ _ => .error lostAnswer
  account := fun _ _ ran bench => (ran, bench)

/-- An attempt answered with an empty reply that makes no call. -/
def Attempt.silent : Attempt where
  handed := []
  prefixHeld := none
  answer := .ok { message := .null, calls := [], stop := some .endTurn }

/-- A turn nobody interrupts. -/
def RunHooks.plain : RunHooks Unit Unit where
  interrupt := fun _ => .none
  tools := .bare
  writes := fun _ => .domain
  checkpoint := none
  prompt := fun _ => .ok .null
  shape := fun _ => .ok .null
  verified := .ok ()
  modelCalled := .null
  streaming := .silent
  blocking := .silent
  admitsRepair := false
  reminder := none

/-- A run a person opens with an empty task. -/
def Run.RunPlan.plain : Run.RunPlan where
  run := RunId.city
  who := []
  addr := ⟨['a'], by decide⟩
  task := []
  goal := []
  job := .file ⟨['a'], by decide⟩ ⟨List.replicate 20 0, by decide⟩ none
  parent := none
  predecessor := none
  dispatchedBy := .person
  opening := .withPerson
  inherited := []
  pin := .null

end Sprawling
