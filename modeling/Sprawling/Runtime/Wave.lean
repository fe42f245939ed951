import Sprawling.Base.Utf8
import Sprawling.Kernel.Event
import Sprawling.Runtime.HeldLines

namespace Sprawling

open Act

/-- What a turn takes from the modules beside it: the scan of a carried line, the reading of a
reply's blocks, the text a recorded answer is drawn as, an error as a payload, and what is left of
a text over its share of an exchange. -/
structure Setting where
  scan : Line → Line
  readContent : Json → Except AxError (List ContentBlock)
  shown : Rendering → ToolName → ToolAnswer → Except AxError (List Char)
  errorPayload : AxError → Json
  shrink : List Char → Nat → List Char

namespace Setting

/-- The blocks of a reply; a message without content has none. -/
def contentFromMessage (setting : Setting) (message : Json) :
    Except AxError (List ContentBlock) :=
  match message.get "content" with
  | none => .ok []
  | some value => setting.readContent value

end Setting

namespace ContentBlock

/-- The text an exchange counts, where a block has one. -/
def weighed : ContentBlock → Option (List Char)
  | .text said => some said
  | .toolResult _ content _ _ => some content
  | .thinking _ _ | .redactedThinking _ | .toolUse _ _ _ | .image _ => none

/-- The block with its counted text replaced. -/
def reword (change : List Char → List Char) : ContentBlock → ContentBlock
  | .text said => .text (change said)
  | .toolResult toolUseId content isError attachments =>
    .toolResult toolUseId (change content) isError attachments
  | other => other

/-- Whether the block answers a call. -/
def isResult : ContentBlock → Bool
  | .toolResult _ _ _ _ => true
  | _ => false

theorem isResult_reword (change : List Char → List Char) (block : ContentBlock) :
    (block.reword change).isResult = block.isResult := by
  cases block <;> rfl

end ContentBlock

/-- One turn's exchange: the assistant reply and the wave's results. -/
structure Exchange where
  assistant : List ContentBlock
  results : List ContentBlock

namespace Exchange

def new : Exchange := { assistant := [], results := [] }

def pushAssistant (exchange : Exchange) (content : List ContentBlock) : Exchange :=
  { exchange with assistant := exchange.assistant ++ content }

def pushResult (exchange : Exchange) (block : ContentBlock) : Exchange :=
  { exchange with results := exchange.results ++ [block] }

def budgetBytes : Nat := 8192 * 4

def uncountable : AxError :=
  .failure .invalidArgs "compact one turn's exchange" "a window text larger than a u64 byte count"
    ("report this against runtime::compaction::exchange: no tool this city ships "
      ++ "can put a text this size in the window")

/-- The exchange with every text over its even share shortened, when the whole is over budget. -/
def compact (setting : Setting) (exchange : Exchange) : Except AxError Exchange :=
  let texts := ((exchange.assistant ++ exchange.results).filterMap ContentBlock.weighed).filter
    (!·.isEmpty)
  let total := (texts.map Utf8.byteLen).sum
  if u64Max < total then .error uncountable
  else if texts.length = 0 ∨ total ≤ budgetBytes then .ok exchange
  else
    let share := budgetBytes / texts.length
    let change := fun text => if text.isEmpty then text else setting.shrink text share
    .ok { assistant := exchange.assistant.map (ContentBlock.reword change)
          results := exchange.results.map (ContentBlock.reword change) }

def Answers (exchange : Exchange) : Prop := ∀ block ∈ exchange.results, block.isResult = true

theorem answers_compact {setting : Setting} {exchange compacted : Exchange}
    (answers : exchange.Answers) (done : exchange.compact setting = .ok compacted) :
    compacted.Answers := by
  simp only [compact] at done
  split at done
  · cases done
  split at done
  · cases done
    exact answers
  · cases done
    intro block member
    obtain ⟨original, inside, rfl⟩ := List.mem_map.mp member
    rw [ContentBlock.isResult_reword]
    exact answers original inside

end Exchange

/-- A tool as a wave asks it: the answer may depend on which of the wave's calls it is asked for. -/
abbrev Tool := (asked : Nat) → ToolCall → ToolReply

/-- What admitting one call decided. -/
inductive Admitted (τ : Type) where
  /-- Answered without running a tool. -/
  | answered (reply : ToolReply)
  /-- The call may run under this ticket. -/
  | cleared (ticket : τ)

/-- The tool face a wave drives in three stages. -/
structure ConcurrentInvoke (β τ : Type) where
  /-- The registration of a call's tool, which stands for as long as the run works. -/
  metaOf : ToolCall → Option ToolMeta
  /-- The call behind a `tool` `run`. -/
  resolveCall : β → ToolCall → ToolCall
  /-- The tool a read-only call would run on before it is admitted. -/
  ahead : β → ToolCall → Option Tool
  /-- Whether the call may run. -/
  admitOne : ToolCall → β → Admitted τ × β
  /-- The tool a cleared call runs on. -/
  tool : β → τ → Except AxError Tool
  /-- Records what the tool answered and returns what the model reads back. -/
  account : ToolCall → τ → ToolReply → β → ToolReply × β

def lostAnswer : AxError :=
  .failure .toolUnavailable "run a read-only tool call"
    "the tool stopped its thread without an answer"
    "call the tool again; report it when it stops a second time"

namespace ConcurrentInvoke

variable {β τ : Type} (tools : ConcurrentInvoke β τ)

def declared (call : ToolCall) : Option ToolEffect := (tools.metaOf call).map (·.effect)

def readsOnly (call : ToolCall) : Bool := tools.declared call = some .read

/-- The ticket clears this call, on some bench. -/
def Issued (call : ToolCall) (ticket : τ) : Prop :=
  ∃ bench, (tools.admitOne call bench).1 = .cleared ticket

/-- The reads started while the model was generating: those it handed over before its first call
that is not one, each with its answer. -/
def startReads (bench : β) : Nat → List ToolCall → List (ToolCall × ToolReply)
  | _, [] => []
  | asked, handed :: rest =>
    let call := tools.resolveCall bench handed
    if tools.readsOnly call then
      match tools.ahead bench call with
      | some tool => (call, tool asked call) :: startReads bench (asked + 1) rest
      | none => []
    else []

end ConcurrentInvoke

/-- The cached answer for each of the calls, present where the call at that position was started
early and is the one that settled there. -/
def answersFor : List (ToolCall × ToolReply) → List ToolCall → List (Option ToolReply)
  | _, [] => []
  | [], _ :: calls => none :: answersFor [] calls
  | (started, answered) :: held, call :: calls =>
    (if started = call then some answered else none) :: answersFor held calls

namespace Wave

variable {β τ : Type} (setting : Setting) (tools : ConcurrentInvoke β τ)
  (stillGoing : Nat → Act β Interrupt)

def setBench (bench : β) : Act β Unit := Effect.update fun floor => { floor with bench }

def admitOne (call : ToolCall) : Act β (Admitted τ) := do
  let floor ← Effect.look
  let decided := tools.admitOne call floor.bench
  setBench decided.2
  return decided.1

/-- Invokes a lent tool. -/
def invoke (asked : Nat) (call : ToolCall) (lent : Except AxError Tool) : Act β ToolReply :=
  match lent with
  | .ok tool => do
      Act.note (.invoked call (tools.declared call))
      return tool asked call
  | .error unheld => return .error unheld

def account (call : ToolCall) (ticket : τ) (ran : ToolReply) : Act β ToolReply := do
  let floor ← Effect.look
  let decided := tools.account call ticket ran floor.bench
  setBench decided.2
  Act.note (.accounted call ran)
  return decided.1

/-- One call's `tool_called` line. -/
def intent (call : ToolCall) : Line :=
  .toolCalled call (Line.subjectOf call.args) (tools.declared call)
    ((tools.metaOf call).map (·.render))

/-- Appends one call's `tool_called` line. -/
def intend (call : ToolCall) : Act β Unit := do
  let _ ← appendRedacted setting.scan (intent tools call)
  return ()

/-- What a line records of an answer. -/
def recordedAnswer (reply : ToolReply) : ToolAnswer :=
  match reply with
  | .ok outcome => .answered outcome.result
  | .error err => .failed (setting.errorPayload err)

/-- Appends one call's `tool_result` line and pushes its result block. -/
def settle (exchange : Exchange) (call : ToolCall) (reply : ToolReply) : Act β Exchange := do
  let answer := recordedAnswer setting reply
  let content ← Effect.lift (setting.shown .v3 call.name answer)
  let block := match reply with
    | .ok outcome => ContentBlock.toolResult call.id content false outcome.attachments
    | .error _ => ContentBlock.toolResult call.id content true []
  let _ ← appendRedacted setting.scan
    (.toolResult call.id call.name answer (some .v3) (some (Utf8.byteLen content)))
  return exchange.pushResult block

/-- Asks before each of the leading reads, in call order, until one is halted. -/
def askReads : Nat → Nat → Act β (List Interrupt × Interrupt)
  | _, 0 => return ([], .none)
  | asked, reads + 1 => do
      let standing ← stillGoing asked
      if standing = .cancel then return ([], .cancel)
      let (going, halt) ← askReads (asked + 1) reads
      return (standing :: going, halt)

def admitAll : List ToolCall → Act β (List (Admitted τ))
  | [] => return []
  | call :: calls => do
      let decided ← admitOne tools call
      let rest ← admitAll calls
      return decided :: rest

/-- The cleared calls that hold no answer yet, each with the tool lent to it. -/
def running (bench : β) : Nat → List ToolCall → List (Admitted τ) → List (Option ToolReply) →
    List (Nat × ToolCall × Except AxError Tool)
  | asked, call :: calls, .cleared ticket :: admitted, none :: early =>
    (asked, call, tools.tool bench ticket) :: running bench (asked + 1) calls admitted early
  | asked, _ :: calls, _ :: admitted, _ :: early =>
    running bench (asked + 1) calls admitted early
  | _, _, _, _ => []

def invokeAll : List (Nat × ToolCall × Except AxError Tool) → Act β (List ToolReply)
  | [] => return []
  | (asked, call, lent) :: rest => do
      let reply ← invoke tools asked call lent
      let replies ← invokeAll rest
      return reply :: replies

/-- Runs the tool of every cleared call that holds no early answer, all at once, and answers in
call order. -/
def allAtOnce (calls : List ToolCall) (admitted : List (Admitted τ))
    (early : List (Option ToolReply)) : Act β (List ToolReply) := do
  let floor ← Effect.look
  invokeAll tools (running tools floor.bench 0 calls admitted early)

/-- Accounts the leading reads in call order, each with the answer its admission gave, the one it
was started early for, or the next of `answers`. `none` is a turn that ended here. -/
def accountReads : List (ToolCall × Interrupt × Admitted τ × Option ToolReply) →
    List ToolReply → Exchange → Act β (Option Exchange)
  | [], _, exchange => return some exchange
  | (call, standing, admission, cached) :: rest, answers, exchange => do
      if ← consumeBoundary standing then return none
      match admission with
      | .answered reply =>
        intend setting tools call
        let exchange ← settle setting exchange call reply
        accountReads rest answers exchange
      | .cleared ticket =>
        match cached with
        | some ran =>
          let reply ← account tools call ticket ran
          intend setting tools call
          let exchange ← settle setting exchange call reply
          accountReads rest answers exchange
        | none =>
          let reply ← account tools call ticket (answers.headD (.error lostAnswer))
          intend setting tools call
          let exchange ← settle setting exchange call reply
          accountReads rest answers.tail exchange

/-- One call through all three stages. A cleared call that does not only read waits for its
`tool_called` line, and everything held before it, to be durable. -/
def alone (asked : Nat) (exchange : Exchange) (call : ToolCall) : Act β Exchange := do
  let admission ← admitOne tools call
  intend setting tools call
  match admission with
  | .answered reply => settle setting exchange call reply
  | .cleared ticket =>
    if !tools.readsOnly call then Act.barrier
    let floor ← Effect.look
    let ran ← invoke tools asked call (tools.tool floor.bench ticket)
    let reply ← account tools call ticket ran
    settle setting exchange call reply

/-- The calls after the leading reads, one after another. -/
def serially : Nat → List ToolCall → Exchange → Act β (Option Exchange)
  | _, [], exchange => return some exchange
  | asked, call :: calls, exchange => do
      let standing ← stillGoing asked
      if ← consumeBoundary standing then return none
      let exchange ← alone setting tools asked exchange call
      serially (asked + 1) calls exchange

/-- The wave's resolved calls, the leading reads run at once. -/
def executeCalls (calls : List ToolCall) (speculated : List (ToolCall × ToolReply))
    (exchange : Exchange) : Act β (Option Exchange) := do
  let reads := (calls.takeWhile tools.readsOnly).length
  let (going, halt) ← askReads stillGoing 0 reads
  let leading := calls.take going.length
  let admitted ← admitAll tools leading
  let early := answersFor speculated leading
  let answers ← allAtOnce tools leading admitted early
  let accounted ← accountReads setting tools
    (leading.zip (going.zip (admitted.zip early))) answers exchange
  match accounted with
  | none => return none
  | some exchange =>
    if ← consumeBoundary halt then return none
    serially setting tools stillGoing leading.length (calls.drop leading.length) exchange

/-- The wave. `none` is a turn that ended inside it. -/
def executeConcurrent (interrupt : Interrupt) (asked : List ToolCall)
    (speculated : List (ToolCall × ToolReply)) (assistant : List ContentBlock) :
    Act β (Option Exchange) := do
  if ← consumeBoundary interrupt then return none
  let floor ← Effect.look
  let calls := asked.map (tools.resolveCall floor.bench)
  Act.note (.wave calls)
  executeCalls setting tools stillGoing calls speculated (Exchange.new.pushAssistant assistant)

end Wave

end Sprawling
