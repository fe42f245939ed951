import Sprawling.Kernel.Address
import Sprawling.Kernel.NodeId
import Sprawling.Kernel.RunId
import Sprawling.Accounting.Health

/-! Plan claims decided on the accounting thread, in the order the lanes send them. -/

namespace Sprawling

/-- A node of a building's plan. -/
structure PlanPlace where
  building : Address
  node : NodeId

namespace PlanPlace

instance : Ord PlanPlace :=
  ⟨fun first second => compare [first.building.text, first.node.text] [second.building.text, second.node.text]⟩

theorem compare_def (first second : PlanPlace) : compare first second =
    compare [first.building.text, first.node.text] [second.building.text, second.node.text] := rfl

instance : Std.TransOrd PlanPlace := OrdMap.transOrd_of_key compare_def

instance : Std.LawfulEqOrd PlanPlace := OrdMap.lawfulEqOrd_of_key compare_def fun first second same => by
  cases first
  cases second
  simp only [List.cons.injEq, and_true] at same
  rw [Address.ext_text same.1, NodeId.ext_text same.2]

end PlanPlace

/-- One node booked for a run in flight, and the line that gives it back. -/
structure Booked (π : Type) where
  run : RunId
  putBack : π

/-- One claim, its line, the line that would hand the node back, the mark its desk read the plan at, and
the lane its answer goes back to. -/
structure ClaimAsk (κ α π : Type) where
  building : Address
  node : NodeId
  line : α
  putBack : π
  read : UInt64
  back : κ

/-- Which run holds which node while those runs are in flight, each node a stop line ended with the mark
that line set, and how many stop lines have been shown. -/
structure ClaimBook (π : Type) where
  held : OrdMap PlanPlace (Booked π)
  stopped : OrdMap PlanPlace UInt64
  stops : UInt64

namespace ClaimBook

variable {κ α π ρ : Type}

def new : ClaimBook π := ⟨∅, ∅, 0⟩

/-- Why the book itself refuses a claim, if it does. -/
def refuse (runOf : α → RunId) (book : ClaimBook π) (ask : ClaimAsk κ α π) : Option AxError :=
  let key : PlanPlace := ⟨ask.building, ask.node⟩
  if (book.stopped[key]?).any fun stop => ask.read < stop then
    some (.failure .invalidArgs "claim a plan node"
      s!"{ask.node} ended after this run read the plan; the history holds its end"
      "list the plan and claim a node that is ready")
  else
    match (book.held[key]?).map Booked.run with
    | some holder =>
      if holder = runOf ask.line then none
      else some (.failure .invalidArgs "claim a plan node"
        s!"{ask.node} was claimed by {String.ofList holder.display}, which is still working on it"
        "list the plan and claim a node that is ready")
    | none => none

/-- Appends the claim's line and books the node for the asking run, or refuses; the answer goes back to
the lane, and the line is handed on when the ledger took it. `appended` is what the ledger answers when
it is asked. -/
def answer (runOf : α → RunId) (book : ClaimBook π) (ask : ClaimAsk κ α π) (appended : Except AxError ρ) :
    Except AxError Unit × Option (α × ρ) × ClaimBook π :=
  match book.refuse runOf ask with
  | some err => (.error err, none, book)
  | none =>
    match appended with
    | .ok ref =>
      (.ok (), some (ask.line, ref),
        { book with held := book.held.insert ⟨ask.building, ask.node⟩ ⟨runOf ask.line, ask.putBack⟩ })
    | .error err => (.error err, none, book)

/-- What the ledger took of a claim is its line. -/
theorem answer_line {runOf : α → RunId} {book : ClaimBook π} {ask : ClaimAsk κ α π}
    {appended : Except AxError ρ} {line : α} {ref : ρ}
    (taken : (book.answer runOf ask appended).2.1 = some (line, ref)) : line = ask.line := by
  unfold answer at taken
  cases refused : book.refuse runOf ask with
  | some err =>
    rw [refused] at taken
    cases taken
  | none =>
    rw [refused] at taken
    cases appended with
    | error err => cases taken
    | ok _ =>
      cases taken
      rfl

end ClaimBook

end Sprawling

/-! The crossing between the driving lanes and the one writer: what is queued, and how it is served. -/

namespace Sprawling

/-- One batch of appends, the lane its answer goes back to, and when the lane queued it. -/
structure RelayRequest (κ α : Type) where
  drafts : List α
  back : κ
  queued : Nat

/-- Everything that wakes the accounting thread, on the one queue it blocks on: the requests of lanes,
and what is only handed on. -/
inductive Wake (κ α π γ η θ : Type) where
  | relay (request : RelayRequest κ α)
  | claim (ask : ClaimAsk κ α π)
  | goal (ask : γ)
  | home (arrival : η)
  | answered (answer : θ)
  | command
  | close

/-- What one look at the queue leaves the accounting thread. -/
structure Drained (α γ θ : Type) where
  /-- Every line the ledger took, in ledger order. -/
  written : List α
  goals : List γ
  answers : List θ

/-- What a lane that asked is answered. -/
inductive Reply (κ ρ : Type) where
  | relayed (back : κ) (answer : Except AxError (List ρ))
  | claimed (back : κ) (answer : Except AxError Unit)

/-- What the ledger does with a wave: it takes every draft, with a ref each, and tells some of the refs in
the order of the drafts; or it refuses, having taken some of the drafts before the refusal. -/
inductive Wave (ρ : Type) where
  | took (refs : Nat → ρ) (told : Nat)
  | refused (err : AxError) (kept : Nat) (refs : Nat → ρ)

/-- What the world answers during one look at the queue: the clock before and after the sleep and as each
wake is taken, the ledger for each claim, and the ledger for the wave. -/
structure Outside (ρ : Type) where
  asleep : Nat
  awake : Nat
  clock : Nat → Nat
  appended : Nat → Except AxError ρ
  wave : Wave ρ

namespace RelayGate

variable {κ α π γ η θ ρ : Type}

/-- The one refusal this crossing owns. -/
def gone (why : String) : AxError :=
  .failure .storageFatal "append through the relay" why
    "the city is closing; resume it and the run replays from its last line"

def stamped (drafts : List α) (refs : Nat → ρ) : List (α × ρ) := drafts.mapIdx fun place draft => (draft, refs place)

/-- A wave of drafts, answered positionally. -/
def appendAll (wave : Wave ρ) (lines : List (α × ρ)) (drafts : List α) :
    Except AxError (List ρ) × List (α × ρ) :=
  match wave with
  | .took refs told => (.ok (((stamped drafts refs).map Prod.snd).take told), lines ++ stamped drafts refs)
  | .refused err kept refs => (.error err, lines ++ (stamped drafts refs).take kept)

/-- A wave appended one draft at a time: the first refusal ends it. -/
def appendEach (appended : Nat → Except AxError ρ) :
    Nat → List (α × ρ) → List α → Except AxError (List ρ) × List (α × ρ)
  | _, lines, [] => (.ok [], lines)
  | place, lines, draft :: drafts =>
    match appended place with
    | .error err => (.error err, lines)
    | .ok ref =>
      let (answer, lines) := appendEach appended (place + 1) (lines ++ [(draft, ref)]) drafts
      (answer.map (ref :: ·), lines)

/-- What the loop over the queue has come to. -/
structure Draining (κ α π γ η θ ρ : Type) where
  book : ClaimBook π
  health : Health
  lines : List (α × ρ)
  homes : List η
  sent : List (Reply κ ρ)
  written : List α
  goals : List γ
  answers : List θ
  drafts : List α
  senders : List κ
  sizes : List Nat

/-- One wake taken off the queue. -/
def drainWake (runOf : α → RunId) (world : Outside ρ) (place : Nat) (state : Draining κ α π γ η θ ρ) :
    Wake κ α π γ η θ → Draining κ α π γ η θ ρ
  | .relay request =>
    { state with
      health := state.health.queueWaited (world.clock place - request.queued)
      sizes := state.sizes ++ [request.drafts.length]
      drafts := state.drafts ++ request.drafts
      senders := state.senders ++ [request.back] }
  | .claim ask =>
    let (answer, taken, book) := state.book.answer runOf ask (world.appended place)
    { state with
      book
      lines := state.lines ++ taken.toList
      sent := state.sent ++ [.claimed ask.back answer]
      written := state.written ++ taken.toList.map Prod.fst }
  | .goal ask => { state with goals := state.goals ++ [ask] }
  | .home arrival => { state with homes := state.homes ++ [arrival] }
  | .answered answer => { state with answers := state.answers ++ [answer] }
  | .command | .close => state

def drain (runOf : α → RunId) (world : Outside ρ) :
    Nat → List (Wake κ α π γ η θ) → Draining κ α π γ η θ ρ → Draining κ α π γ η θ ρ
  | _, [], state => state
  | place, wake :: wakes, state => drain runOf world (place + 1) wakes (drainWake runOf world place state wake)

/-- Cuts the refs of a wave apart again: each request takes the next of them, as many as it sent drafts,
and a short answer leaves it told it was refused. -/
def answerEach : List κ → List Nat → List ρ → List (Reply κ ρ)
  | back :: senders, size :: sizes, echoes =>
    let theirs := echoes.take size
    let answer := if theirs.length = size then .ok theirs
      else .error (gone "the ledger answered a batch with fewer refs than drafts")
    .relayed back answer :: answerEach senders sizes (echoes.drop size)
  | _, _, _ => []

/-- What a look at the queue comes to: what it leaves the thread, the book and the counts, the ledger's
lines, the runs home, and the answers sent. -/
structure Served (κ α π γ η θ ρ : Type) where
  drained : Drained α γ θ
  book : ClaimBook π
  health : Health
  lines : List (α × ρ)
  homes : List η
  sent : List (Reply κ ρ)

/-- Takes every wake queued, writes what the lanes sent as one wave, and answers each of them. -/
def serve (runOf : α → RunId) (world : Outside ρ) (book : ClaimBook π) (health : Health)
    (lines : List (α × ρ)) (homes : List η) (wakes : List (Wake κ α π γ η θ)) : Served κ α π γ η θ ρ :=
  let state := drain runOf world 0 wakes
    ⟨book, health.slept (world.awake - world.asleep), lines, homes, [], [], [], [], [], [], []⟩
  if state.senders.isEmpty then
    ⟨⟨state.written, state.goals, state.answers⟩, state.book, state.health, state.lines, state.homes, state.sent⟩
  else
    let batch := UInt64.ofNat (min state.senders.length (2 ^ 64 - 1))
    let health := (state.health.taken batch).answered batch
    match appendAll world.wave state.lines state.drafts with
    | (.ok echoes, lines) =>
      ⟨⟨state.written ++ state.drafts, state.goals, state.answers⟩, state.book, health, lines, state.homes,
        state.sent ++ answerEach state.senders state.sizes echoes⟩
    | (.error refused, lines) =>
      ⟨⟨state.written, state.goals, state.answers⟩, state.book, health, lines, state.homes,
        state.sent ++ state.senders.map fun back => .relayed back (.error refused)⟩

end RelayGate

end Sprawling
