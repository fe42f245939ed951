import Sprawling.Base.Effect
import Sprawling.Runtime.Conversation

namespace Sprawling

namespace CheckpointPolicy

/-- What goes up before one wave. -/
inductive WaveCheckpoint where
  | skip
  | stage
deriving DecidableEq

/-- What one wave is about to do to the tree, by its calls' declared effects. -/
inductive Wave where
  | empty
  | readOnly
  | mayWrite

namespace Wave

def of (calls : List ToolCall) (writes : ToolCall → Writes) : Wave :=
  match calls with
  | [] => .empty
  | _ :: _ => if calls.all fun call => writes call = .nothing then .readOnly else .mayWrite

end Wave

/-- What the run's tree is, measured against the last checkpoint the run put up. -/
inductive SinceCheckpoint where
  | notYet
  | checkpointed
  | changed

end CheckpointPolicy

/-- Decides the checkpoint for each wave of one run. -/
structure CheckpointPolicy where
  since : CheckpointPolicy.SinceCheckpoint

namespace CheckpointPolicy

def opening : CheckpointPolicy := ⟨.notYet⟩

def forWave (policy : CheckpointPolicy) (wave : Wave) : WaveCheckpoint :=
  match policy.since, wave with
  | .changed, _ => .stage
  | .notYet, .mayWrite => .stage
  | .checkpointed, _ => .skip
  | .notYet, .empty => .skip
  | .notYet, .readOnly => .skip

/-- Records the wave about to run. -/
def recordWave (policy : CheckpointPolicy) (checkpoint : WaveCheckpoint) (wave : Wave) :
    CheckpointPolicy :=
  match wave, checkpoint with
  | .mayWrite, _ => ⟨.changed⟩
  | .empty, .stage | .readOnly, .stage => ⟨.checkpointed⟩
  | .empty, .skip | .readOnly, .skip => policy

variable {policy : CheckpointPolicy}

theorem forWave_of_checkpointed (settled : policy.since = .checkpointed)
    (wave : Wave) : policy.forWave wave = .skip := by
  cases policy
  cases settled
  cases wave <;> rfl

theorem forWave_of_changed (changed : policy.since = .changed)
    (wave : Wave) : policy.forWave wave = .stage := by
  cases policy
  cases changed
  cases wave <;> rfl

theorem forWave_mayWrite (opening : policy.since = .notYet) :
    policy.forWave .mayWrite = .stage := by
  cases policy
  cases opening
  rfl

end CheckpointPolicy

end Sprawling

namespace Sprawling

/-- The place of a record in the ledger. -/
structure RunEventRef where
  seq : Nat

/-- A refused wave: how many of its lines are durable all the same, and a reason no event of a run
carries. A wave refused for a draft that makes no record, under a code that events carry, is left
out. -/
structure Refusal where
  kept : Nat
  reason : AxError
  fatal : reason.code.carried = false

/-- What a ledger does with one wave of lines: what other writers put down before it, and whether
it refuses the wave. -/
structure Fate where
  others : List EventDraft
  refusal : Option Refusal

/-- The ledger as a run meets it: its durable records, and what it will do with each wave. -/
structure Book where
  records : List EventDraft
  fates : List Fate

namespace Book

def fate (book : Book) : Fate := book.fates.headD { others := [], refusal := none }

/-- The lines of a wave that are durable once the ledger has answered it. -/
def landed (book : Book) (drafts : List EventDraft) : List EventDraft :=
  match book.fate.refusal with
  | none => drafts
  | some refusal => drafts.take refusal.kept

def appendAll (book : Book) (drafts : List EventDraft) : Except AxError (List RunEventRef) × Book :=
  let standing := book.records ++ book.fate.others
  let after : Book := { records := standing ++ book.landed drafts, fates := book.fates.tail }
  match book.fate.refusal with
  | none => (.ok ((List.range drafts.length).map fun place => ⟨standing.length + place⟩), after)
  | some refusal => (.error refusal.reason, after)

end Book

/-- A line a run appended, by its place among the run's lines. -/
structure Entry where
  place : Nat

/-- A run's lines: those held until the next barrier, and the refs of those already durable. -/
structure HeldLines where
  run : RunId
  who : List Char
  held : List EventDraft
  refs : List RunEventRef

namespace HeldLines

def open_ (run : RunId) (who : List Char) : HeldLines := { run, who, held := [], refs := [] }

def draft (lines : HeldLines) (addr : Option Address) (line : Line) : EventDraft :=
  { run := lines.run, who := lines.who, addr, line }

def entry (lines : HeldLines) : Entry := ⟨lines.refs.length + lines.held.length⟩

def hold (lines : HeldLines) (addr : Option Address) (line : Line) : HeldLines :=
  { lines with held := lines.held ++ [lines.draft addr line] }

/-- The ref of a line already made durable. -/
def durable (lines : HeldLines) (entry : Entry) : Except AxError RunEventRef :=
  match lines.refs[entry.place]? with
  | some found => .ok found
  | none => .error (.failure .invalidArgs "read a run line's ref" "the line is not durable yet"
      ("report this against runtime::turn::ledger: a ref was asked for "
        ++ "before the barrier that carries its line"))

/-- Every held line through one `append_all`; a refused wave's lines are dropped. -/
def barrier (lines : HeldLines) (book : Book) : Except AxError Unit × HeldLines × Book :=
  if lines.held.isEmpty then (.ok (), lines, book)
  else
    match book.appendAll lines.held with
    | (.ok echoes, after) => (.ok (), { lines with held := [], refs := lines.refs ++ echoes }, after)
    | (.error reason, after) => (.error reason, { lines with held := [] }, after)

end HeldLines

/-- What a safe point hands the driver. -/
inductive Interrupt where
  | none
  | cancel
  | steer (speaker : Speaker) (text : List Char)
  | policy (policy : RunPolicy)
deriving DecidableEq

/-- What a run does, in the order it does it. -/
inductive Deed where
  /-- A line joins the held ones, under the entry it is asked for by. -/
  | held (entry : Entry) (draft : EventDraft)
  /-- The ledger took every held line. -/
  | carried (drafts : List EventDraft)
  /-- The ledger refused the held lines, of which `landed` are durable. -/
  | refused (drafts landed : List EventDraft)
  /-- A request goes out. -/
  | sent (request : List ChatMessage)
  /-- A checkpoint of the tree under `scope` is committed. -/
  | staged (scope : List (List Char))
  /-- A wave's resolved calls, before the first of them runs. -/
  | wave (calls : List ToolCall)
  /-- A tool is invoked, under the effect it declared. -/
  | invoked (call : ToolCall) (declared : Option ToolEffect)
  /-- What a cleared call's tool answered is accounted. -/
  | accounted (call : ToolCall) (reply : ToolReply)
  /-- A user text reaches the conversation. -/
  | arrived (text : List Char)
  /-- A turn's exchange reaches the conversation. -/
  | closed (calls : Nat) (assistant results : List ContentBlock)

/-- What a run has in hand: its lines, the ledger, the bench its tools stand on, its conversation,
the policy change that waits for a wave, the prompt it last recorded, the checkpoints it owes, and
all it did. -/
structure Floor (β : Type) where
  lines : HeldLines
  book : Book
  bench : β
  conversation : Conversation
  arrived : Option RunPolicy
  prompt : Option Json
  checkpoint : CheckpointPolicy
  deeds : List Deed

/-- A step of a run: it answers or refuses, and what it did stays either way. -/
abbrev Act (β α : Type) : Type := Effect AxError (Floor β) α

namespace Floor

variable {β : Type}

def noted (floor : Floor β) (deed : Deed) : Floor β := { floor with deeds := floor.deeds ++ [deed] }

/-- The floor with one more line held. -/
def appended (floor : Floor β) (addr : Option Address) (line : Line) : Floor β :=
  { floor with lines := floor.lines.hold addr line }.noted
    (.held floor.lines.entry (floor.lines.draft addr line))

/-- The floor once the ledger took every held line. -/
def flushed (floor : Floor β) : Floor β :=
  { floor with
    lines := (floor.lines.barrier floor.book).2.1
    book := (floor.lines.barrier floor.book).2.2 }.noted (.carried floor.lines.held)

/-- The floor once the ledger refused the held lines. -/
def dropped (floor : Floor β) : Floor β :=
  { floor with
    lines := (floor.lines.barrier floor.book).2.1
    book := (floor.lines.barrier floor.book).2.2 }.noted
      (.refused floor.lines.held (floor.book.landed floor.lines.held))

/-- The floor once a user text reached the conversation. -/
def told (floor : Floor β) (text : List Char) : Floor β :=
  { floor.noted (.arrived text) with conversation := floor.conversation.pushUserText text }

end Floor

namespace Act

variable {β : Type}

def note (deed : Deed) : Act β Unit :=
  Effect.update fun floor => { floor with deeds := floor.deeds ++ [deed] }

def append (addr : Option Address) (line : Line) : Act β Entry := do
  let floor ← Effect.look
  Effect.update fun floor => { floor with lines := floor.lines.hold addr line }
  note (.held floor.lines.entry (floor.lines.draft addr line))
  return floor.lines.entry

def appendAuthored (line : Line) : Act β Entry := append none line

def appendRedacted (scan : Line → Line) (line : Line) : Act β Entry := append none (scan line)

def barrier : Act β Unit := do
  let floor ← Effect.look
  match floor.lines.barrier floor.book with
  | (.ok _, lines, book) =>
    Effect.update fun floor => { floor with lines, book }
    if floor.lines.held.isEmpty then return ()
    note (.carried floor.lines.held)
  | (.error reason, lines, book) =>
    Effect.update fun floor => { floor with lines, book }
    note (.refused floor.lines.held (floor.book.landed floor.lines.held))
    Effect.refuse reason

/-- The one interrupt consumer: whether the turn ends here. -/
def consumeBoundary (interrupt : Interrupt) : Act β Bool :=
  match interrupt with
  | .none | .policy _ => return false
  | .cancel => do
      let _ ← appendAuthored .cancelReceived
      barrier
      return true
  | .steer speaker text => do
      let _ ← appendAuthored (.steerReceived speaker.recorded text)
      return false

/-- A user text, noted as it reaches the conversation. -/
def tell (text : List Char) : Act β Unit := do
  note (.arrived text)
  Effect.update fun floor =>
    { floor with conversation := floor.conversation.pushUserText text }

/-- A steer joins the window, a policy change waits in the cell. -/
def foldArrival (interrupt : Interrupt) : Act β Unit :=
  match interrupt with
  | .steer speaker text => tell (speaker.render text)
  | .policy policy => Effect.update fun floor => { floor with arrived := some policy }
  | .none | .cancel => return ()

@[simp] theorem run_note (deed : Deed) (floor : Floor β) :
    Effect.run (note deed) floor = (.ok (), floor.noted deed) := rfl

@[simp] theorem run_append (addr : Option Address) (line : Line) (floor : Floor β) :
    Effect.run (append addr line) floor = (.ok floor.lines.entry, floor.appended addr line) := rfl

@[simp] theorem run_tell (text : List Char) (floor : Floor β) :
    Effect.run (tell text) floor = (.ok (), floor.told text) := rfl

variable {floor : Floor β}

theorem run_barrier_nothing (nothing : floor.lines.held = []) :
    Effect.run barrier floor = (.ok (), floor) := by
  simp [barrier, Effect.run_bind, HeldLines.barrier, nothing]

theorem run_barrier_carried (something : floor.lines.held ≠ [])
    (carried : floor.book.fate.refusal = none) :
    Effect.run barrier floor = (.ok (), floor.flushed) := by
  simp [barrier, Effect.run_bind, HeldLines.barrier, something, Book.appendAll, carried,
    Floor.flushed]

theorem run_barrier_refused {refusal : Refusal}
    (something : floor.lines.held ≠ []) (refused : floor.book.fate.refusal = some refusal) :
    Effect.run barrier floor = (.error refusal.reason, floor.dropped) := by
  simp [barrier, Effect.run_bind, HeldLines.barrier, something, Book.appendAll, refused,
    Floor.dropped]

theorem flushed_held (something : floor.lines.held ≠ [])
    (carried : floor.book.fate.refusal = none) : floor.flushed.lines.held = [] := by
  simp [Floor.flushed, Floor.noted, HeldLines.barrier, something, Book.appendAll, carried]

end Act

end Sprawling
