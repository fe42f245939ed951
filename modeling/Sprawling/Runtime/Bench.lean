import Sprawling.Kernel.Egress
import Sprawling.Runtime.Wave

namespace Sprawling

open Effect (yields_bind yields_pure yields_then)

/-- What one call is about, in the terms its own grammar names it. -/
inductive GateSubject where
  | area (at_ : Address)
  | room (at_ : Address)
  | scope (scope : List Char)
  | host (host : List Char)
  | none

namespace GateSubject

def spell : GateSubject → String
  | .area _ => "an area"
  | .room _ => "a room"
  | .scope _ => "a scope"
  | .host _ => "a host"
  | .none => "no subject"

/-- The area a writing call names. -/
def named : GateSubject → Option Address
  | .area at_ | .room at_ => some at_
  | .scope _ | .host _ | .none => Option.none

end GateSubject

inductive GateOutcome where
  | allow
  | deny (refusal : AxError)
  | ask (question : AxError)

inductive EgressOutcome where
  | allow (firstPublicEgress : Bool)
  | deny (refusal : AxError)

/-- Where the content a run holds came from, by source label. -/
abbrev TaintSet := List (List Char)

namespace TaintSet

def union (taint : TaintSet) (source : List Char) : TaintSet :=
  if source ∈ taint then taint else taint ++ [source]

end TaintSet

/-- The kernel's doors, as a run's bench asks them. -/
structure Gates where
  command : TaintSet → GateOutcome
  /-- Whether an area lies in the run's write domain. -/
  reach : Address → TaintSet → GateOutcome
  /-- Whether a call's bytes may leave, once its arguments are scanned for secrets. -/
  egress : ToolCall → EgressTarget → Bool → Except AxError EgressOutcome
  /-- Whether a connector call may do what nothing can take back; a call that can be taken back is
  allowed. -/
  undoable : ServerLabel → ToolName → TaintSet → GateOutcome
  attach : Option EgressTarget → GateOutcome
  targetOf : List Char → EgressTarget
  /-- The building's egress list. -/
  listed : EgressTarget → Option AxError

/-- A tool on a bench. A tool registered as reading answers with that effect for each of its calls,
and says of each that it writes nothing. -/
structure BenchTool where
  registration : ToolMeta
  effectOf : ToolCall → Except AxError ToolEffect
  writes : ToolCall → Writes
  subject : ToolCall → Except AxError GateSubject
  invoke : Tool
  reading : registration.effect = .read →
    ∀ call, effectOf call = .ok .read ∧ writes call = .nothing

/-- What the bench of a run is built from, which stands for as long as the run works. -/
structure Fittings where
  tools : List BenchTool
  gates : Gates
  /-- What a command may discard. -/
  forecast : ToolCall → Option (List Char)
  /-- The checkpoint net: what the repository answers each time it is asked. -/
  net : Option (Nat → Except AxError (Option (List Char)))

namespace Fittings

/-- The tool registered under a name. -/
def toolNamed (fittings : Fittings) (name : ToolName) : Option BenchTool :=
  fittings.tools.find? fun tool => tool.registration.name = name

def metaOf (fittings : Fittings) (name : ToolName) : Option ToolMeta :=
  (fittings.toolNamed name).map (·.registration)

/-- What a call's tool may write, by its declared effect; a name the bench does not hold answers
the whole domain. -/
def declaredWrites (fittings : Fittings) (call : ToolCall) : Writes :=
  match fittings.metaOf call.name with
  | some registration => Writes.of registration.effect
  | none => .domain

end Fittings

/-- What calls leave on a bench: the taint, what each key already answered, whether bytes left for
a public host, and how often the net was asked. -/
structure ToolBench (κ : Type) where
  taint : TaintSet
  seen : List (κ × ToolReply)
  priorPublicEgress : Bool
  commits : Nat

inductive BenchOutcome where
  | ran (outcome : ToolOutcome) (checkpointed : Option (List Char)) (wrote : Writes)
  | refused (refusal : AxError)
  | duplicate (outcome : ToolOutcome)

/-- A call that was let through, and what its answer is recorded under. -/
structure Ticket (κ : Type) where
  key : κ
  name : ToolName
  effect : ToolEffect
  checkpointed : Option (List Char)
  wrote : Writes

inductive Clearance (κ : Type) where
  | answered (decided : BenchOutcome)
  | cleared (ticket : Ticket κ)

namespace ToolBench

variable {κ : Type}

def new : ToolBench κ := { taint := [], seen := [], priorPublicEgress := false, commits := 0 }

/-- What one gate's verdict means to the bench. -/
def settled : GateOutcome → Option BenchOutcome
  | .allow => none
  | .deny refusal => some (.refused refusal)
  | .ask question => some (.refused question)

/-- What one egress verdict means to the bench; the first public egress is remembered. -/
def crossed (outcome : EgressOutcome) : Effect AxError (ToolBench κ) (Option BenchOutcome) :=
  match outcome with
  | .allow first => do
      Effect.update fun bench =>
        { bench with priorPublicEgress := first || bench.priorPublicEgress }
      return none
  | .deny refusal => return some (.refused refusal)

def subjectNotFor (name : ToolName) (subject : GateSubject) (doing : String) : AxError :=
  let called := String.ofList name.text
  let answered := subject.spell
  .failure .invalidArgs "invoke tool" s!"`{called}` declares {doing} and its `subject` answered {answered}"
    ("report this against the tool: `Tool::subject` and `ToolMeta::effect` disagree, "
      ++ "and the bench reads the subject the tool answers with")

def bytesTarget (gates : Gates) (name : ToolName) (subject : GateSubject) (doing : String) :
    Except AxError EgressTarget :=
  match subject with
  | .host host => .ok (gates.targetOf host)
  | .none => .ok .loopback
  | .area _ | .room _ | .scope _ => .error (subjectNotFor name subject doing)

/-- The egress door, for a call whose bytes go to `target`. -/
def leaves (gates : Gates) (call : ToolCall) (target : EgressTarget) :
    Effect AxError (ToolBench κ) (Option BenchOutcome) := do
  let bench ← Effect.look
  let verdict ← Effect.lift (gates.egress call target bench.priorPublicEgress)
  crossed verdict

def governing (name : ToolName) (scope : List Char) : AxError :=
  let called := String.ofList name.text
  let asked := String.ofList scope
  .failure .gateDenied "invoke tool"
    s!"`{called}` declares Govern, and a run may not change what governs it ({asked})"
    "edit the scope's `CONFIG.toml`, or the building's `RULES.toml`, and dispatch again"

def spending (name : ToolName) : AxError :=
  let called := String.ofList name.text
  .failure .toolUnavailable "invoke tool"
    s!"`{called}` declares Spend, which no tool in this build carries"
    "do this work with a tool that spends nothing; no tool in this build can move money"

/-- The door the call's effect names; `some` is the door's own answer. -/
def admitOne (gates : Gates) (call : ToolCall) (effect : ToolEffect) (subject : GateSubject) :
    Effect AxError (ToolBench κ) (Option BenchOutcome) :=
  match effect with
  | .read | .spawn => return none
  | .write area => do
      let bench ← Effect.look
      match settled (gates.reach area bench.taint) with
      | some answered => return some answered
      | none =>
        match subject.named with
        | some at_ => return settled (gates.reach at_ bench.taint)
        | none => return none
  | .connector label => do
      match ← leaves gates call (.connector label) with
      | some answered => return some answered
      | none =>
        let bench ← Effect.look
        return settled (gates.undoable label call.name bench.taint)
  | .egress => do
      let target ← Effect.lift (bytesTarget gates call.name subject "send bytes out")
      match gates.listed target with
      | some refusal => return some (.refused refusal)
      | none => leaves gates call target
  | .attachUserBrowser address =>
    match settled (gates.attach (address.map gates.targetOf)) with
    | some answered => return some answered
    | none => do
        let page ← Effect.lift (bytesTarget gates call.name subject "drive a browser")
        match gates.listed page with
        | some refusal => return some (.refused refusal)
        | none => leaves gates call page
  | .govern =>
    match subject with
    | .scope scope => Effect.refuse (governing call.name scope)
    | .area _ | .room _ | .host _ | .none =>
      Effect.refuse (subjectNotFor call.name subject "change what governs")
  | .spend => Effect.refuse (spending call.name)

def unregistered (name : ToolName) : AxError :=
  let called := String.ofList name.text
  .failure .toolUnavailable "invoke tool" s!"no tool named `{called}` is registered"
    "call one of the tools listed in your catalog"

def unprotected (pattern : List Char) : AxError :=
  let suspected := String.ofList pattern
  .failure .toolUnavailable "invoke tool"
    s!"`{suspected}` may discard files and no checkpoint net is configured"
    "configure the checkpoint net, or run a command that does not delete"

/-- The command door, which stands before the forecast. -/
def commandDoor (gates : Gates) (call : ToolCall) (bench : ToolBench κ) : Option BenchOutcome :=
  if call.name = .exec then settled (gates.command bench.taint) else none

/-- A command that may discard is checkpointed first. -/
def forecastNet (fittings : Fittings) (call : ToolCall) :
    Effect AxError (ToolBench κ) (Option (List Char)) :=
  if call.name = .exec then
    match fittings.forecast call with
    | none => return none
    | some pattern =>
      match fittings.net with
      | none => Effect.refuse (unprotected pattern)
      | some wavePre => do
          let bench ← Effect.look
          Effect.update fun bench => { bench with commits := bench.commits + 1 }
          Effect.lift (wavePre bench.commits)
  else return none

/-- The doors and the forecast's checkpoint, for a call of a registered tool. -/
def clearFor (fittings : Fittings) (tool : BenchTool) (call : ToolCall) (key : κ) :
    Effect AxError (ToolBench κ) (Clearance κ) := do
  let effect ← Effect.lift (tool.effectOf call)
  let subject ← Effect.lift (tool.subject call)
  let bench ← Effect.look
  match commandDoor fittings.gates call bench with
  | some answered => return .answered answered
  | none =>
    let checkpointed ← forecastNet fittings call
    match ← admitOne fittings.gates call effect subject with
    | some answered => return .answered answered
    | none =>
      return .cleared
        { key, name := call.name, effect, checkpointed, wrote := tool.writes call }

/-- Everything that decides whether a call may run. -/
def clear [DecidableEq κ] (fittings : Fittings) (call : ToolCall) (key : κ) :
    Effect AxError (ToolBench κ) (Clearance κ) := do
  let bench ← Effect.look
  match bench.seen.lookup key with
  | some (.ok outcome) => return .answered (.duplicate outcome)
  | some (.error refused) => Effect.refuse refused
  | none =>
    match fittings.toolNamed call.name with
    | none => Effect.refuse (unregistered call.name)
    | some tool => clearFor fittings tool call key

def unheld (name : ToolName) : AxError :=
  let called := String.ofList name.text
  .failure .toolUnavailable "invoke tool" s!"no tool named `{called}` is registered"
    "call one of the tools listed beside this error; those are the tools this run holds"

/-- The tool a cleared call runs on. -/
def toolFor (fittings : Fittings) (ticket : Ticket κ) : Except AxError Tool :=
  match fittings.toolNamed ticket.name with
  | some tool => .ok tool.invoke
  | none => .error (unheld ticket.name)

def unlabelled : AxError :=
  .failure .configInvalid "mark the taint of outside content" "the taint source label is empty"
    "give the connector a non-empty server label"

/-- The taint a run carries once an answer produced under `effect` has entered it. -/
def entered (effect : ToolEffect) (taint : TaintSet) : Except AxError TaintSet :=
  let marked := fun (label : List Char) =>
    if label.isEmpty then .error unlabelled else .ok (taint.union label)
  match effect with
  | .connector label => marked ("mcp:".toList ++ label.text)
  | .egress => marked "web".toList
  | .attachUserBrowser _ => marked "web:browser".toList
  | .read | .write _ | .spawn | .govern | .spend => .ok taint

/-- Records what a cleared call answered. -/
def account (ticket : Ticket κ) (ran : ToolReply) : Effect AxError (ToolBench κ) BenchOutcome := do
  let bench ← Effect.look
  let answered : Except AxError (ToolOutcome × TaintSet) := do
    let outcome ← ran
    let taint ← entered ticket.effect bench.taint
    return (outcome, taint)
  match answered with
  | .ok (outcome, taint) =>
    Effect.update fun bench =>
      { bench with taint, seen := (ticket.key, .ok outcome) :: bench.seen }
    return .ran outcome ticket.checkpointed ticket.wrote
  | .error refused =>
    Effect.update fun bench => { bench with seen := (ticket.key, .error refused) :: bench.seen }
    Effect.refuse refused

section Doors

/-- A door that answers for a call refuses it. -/
def Refusing (answered : Option BenchOutcome) : Prop :=
  ∀ decided ∈ answered, ∃ refusal, decided = .refused refusal

theorem refusing_none : Refusing none := by
  intro decided found
  cases found

theorem refusing_some (refusal : AxError) : Refusing (some (.refused refusal)) := by
  intro decided found
  cases found
  exact ⟨refusal, rfl⟩

theorem refusing_settled (outcome : GateOutcome) : Refusing (settled outcome) := by
  cases outcome with
  | allow => exact refusing_none
  | deny refusal => exact refusing_some refusal
  | ask question => exact refusing_some question

theorem yields_leaves (gates : Gates) (call : ToolCall) (target : EgressTarget) :
    Effect.Yields Refusing
      (leaves gates call target : Effect AxError (ToolBench κ) (Option BenchOutcome)) := by
  unfold leaves
  apply yields_then
  intro bench
  apply yields_then
  intro verdict
  cases verdict with
  | allow first =>
    apply yields_then
    intro _
    exact yields_pure refusing_none
  | deny refusal => exact yields_pure (refusing_some refusal)

theorem yields_refuse {α : Type} {fact : α → Prop} (reason : AxError) :
    Effect.Yields fact (Effect.refuse reason : Effect AxError (ToolBench κ) α) := by
  intro state value after done
  cases done

theorem yields_listed (gates : Gates) (call : ToolCall) (target : EgressTarget) :
    Effect.Yields Refusing (match gates.listed target with
      | some refusal => return some (.refused refusal)
      | none => leaves gates call target :
        Effect AxError (ToolBench κ) (Option BenchOutcome)) := by
  cases gates.listed target with
  | some refusal => exact yields_pure (refusing_some refusal)
  | none => exact yields_leaves gates call target

theorem yields_admitOne (gates : Gates) (call : ToolCall) (effect : ToolEffect)
    (subject : GateSubject) :
    Effect.Yields Refusing
      (admitOne gates call effect subject : Effect AxError (ToolBench κ) (Option BenchOutcome)) := by
  cases effect with
  | read => exact yields_pure refusing_none
  | spawn => exact yields_pure refusing_none
  | spend => exact yields_refuse _
  | write area =>
    apply yields_then
    intro bench
    cases reached : settled (gates.reach area bench.taint) with
    | some answered =>
      have refusing := refusing_settled (gates.reach area bench.taint)
      rw [reached] at refusing
      exact yields_pure refusing
    | none =>
      cases subject.named with
      | some at_ => exact yields_pure (refusing_settled _)
      | none => exact yields_pure refusing_none
  | connector label =>
    refine yields_bind (yields_leaves gates call (.connector label)) ?_
    intro crossed refusing
    cases crossed with
    | some answered => exact yields_pure refusing
    | none =>
      apply yields_then
      intro bench
      exact yields_pure (refusing_settled _)
  | egress =>
    apply yields_then
    intro target
    exact yields_listed gates call target
  | attachUserBrowser address =>
    cases attached : settled (gates.attach (address.map gates.targetOf)) with
    | some answered =>
      have refusing := refusing_settled (gates.attach (address.map gates.targetOf))
      rw [attached] at refusing
      simp only [admitOne, attached]
      exact yields_pure refusing
    | none =>
      simp only [admitOne, attached]
      apply yields_then
      intro page
      exact yields_listed gates call page
  | govern => cases subject <;> exact yields_refuse _

end Doors

section Tickets

variable {fittings : Fittings} {call : ToolCall} {key : κ}

/-- What a ticket says of the call it clears. -/
structure Clears (fittings : Fittings) (call : ToolCall) (key : κ) (ticket : Ticket κ) : Prop where
  key : ticket.key = key
  name : ticket.name = call.name
  tool : ∃ tool, fittings.toolNamed call.name = some tool ∧
    tool.effectOf call = .ok ticket.effect ∧ ticket.wrote = tool.writes call

/-- What `clear` answers with: a ticket for the call, or no answer of a tool that ran now. -/
def Sound (fittings : Fittings) (call : ToolCall) (key : κ) : Clearance κ → Prop
  | .cleared ticket => Clears fittings call key ticket
  | .answered decided => ∀ outcome checkpointed wrote, decided ≠ .ran outcome checkpointed wrote

theorem sound_of_refusing {decided : BenchOutcome} (refusing : Refusing (some decided)) :
    Sound fittings call key (.answered decided) := by
  obtain ⟨refusal, rfl⟩ := refusing decided rfl
  intro outcome checkpointed wrote other
  cases other

theorem yields_clearFor {tool : BenchTool} (named : fittings.toolNamed call.name = some tool) :
    Effect.Yields (Sound fittings call key) (clearFor fittings tool call key) := by
  unfold clearFor
  refine yields_bind (Effect.yields_lift fun _ same => same) ?_
  intro effect declared
  apply yields_then
  intro subject
  apply yields_then
  intro bench
  have refusing : Refusing (commandDoor fittings.gates call bench) := by
    unfold commandDoor
    split
    · exact refusing_settled _
    · exact refusing_none
  cases asked : commandDoor fittings.gates call bench with
  | some decided =>
    rw [asked] at refusing
    exact yields_pure (sound_of_refusing refusing)
  | none =>
    apply yields_then
    intro checkpointed
    refine yields_bind (yields_admitOne _ _ _ _) ?_
    intro admitted refusing
    cases admitted with
    | some decided => exact yields_pure (sound_of_refusing refusing)
    | none =>
      apply yields_pure
      exact ⟨rfl, rfl, tool, named, declared, rfl⟩

theorem yields_clear [DecidableEq κ] :
    Effect.Yields (Sound fittings call key) (clear fittings call key) := by
  unfold clear
  apply yields_then
  intro bench
  cases bench.seen.lookup key with
  | some reply =>
    cases reply with
    | ok outcome =>
      apply yields_pure
      intro other checkpointed wrote same
      cases same
    | error refused => exact yields_refuse refused
  | none =>
    cases named : fittings.toolNamed call.name with
    | none => exact yields_refuse _
    | some tool => exact yields_clearFor named

end Tickets

end ToolBench

end Sprawling
