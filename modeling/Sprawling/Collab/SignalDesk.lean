import Sprawling.Base.Effect
import Sprawling.Collab.Inbox

/-! The run's side of the city's signal traffic, and the table of the rooms' queues. -/

namespace Sprawling

inductive WaitEnd where
  | reply (id : List Char)
  | timeout
  | left
deriving DecidableEq

/-- One line of the city's signal traffic. -/
inductive SignalEffect where
  | enqueued (signal : Signal)
  | consumed (signal : Signal) (reader : List Char)
  | waitStarted (on_ : Address) (signal : List Char) (deadlineMs : Nat)
  | waitEnded (signal : List Char) (how : WaitEnd)
deriving DecidableEq

/-- One run's wait for a reply. -/
structure ReplyWait where
  on_ : Address
  signal : List Char
  deadline : Option Nat
  kept : Option Signal

namespace ReplyWait

def patienceMs : Nat := 240000

def asked (on_ : Address) (signal : List Char) : ReplyWait :=
  { on_, signal, deadline := none, kept := none }

def answers (wait : ReplyWait) (signal : Signal) (room : Address) : Bool :=
  signal.from_ = wait.on_.text && signal.room = room

def deadlineAt (now : Nat) : Nat := min (now + patienceMs) (2 ^ 64 - 1)

end ReplyWait

/-- The run's side of the city's signal traffic: its room's queue on loan, the slot the city drops
new signals into, and the signals it has taken that no recorded answer has read yet. -/
structure SignalDesk where
  run : RunId
  room : Address
  who : List Char
  inbox : Inbox
  slot : List Signal
  held : List Signal
  waiting : Option ReplyWait
  unread : List Signal

/-- A desk at work: what it posted, and what the post answers the next lines with. -/
structure AtDesk where
  desk : SignalDesk
  lines : List SignalEffect
  answers : List (Option AxError)

inductive WaitTurn where
  | idle
  | waiting
  | replied (letter : Collab.Letter)
  | timedOut (text : String)

namespace SignalDesk

abbrev Desk := Effect AxError AtDesk

def change (alter : SignalDesk → SignalDesk) : Desk Unit :=
  Effect.update fun here => { here with desk := alter here.desk }

/-- Posts a line; the post may refuse it. -/
def post (line : SignalEffect) : Desk Unit := do
  let here ← Effect.look
  Effect.update fun here => { here with answers := here.answers.tail }
  match here.answers with
  | some refusal :: _ => Effect.refuse refusal
  | _ => Effect.update fun here => { here with lines := here.lines ++ [line] }

/-- Everything in the slot, in the order it arrived. -/
def takeSlot : Desk (List Signal) := do
  let here ← Effect.look
  change fun desk => { desk with slot := [] }
  return here.desk.slot

/-- Puts one signal out of the slot into the lent queue. -/
def admitOne (signal : Signal) : Desk Unit := do
  let here ← Effect.look
  let delivered := here.desk.inbox.deliver signal
  change fun desk => { desk with inbox := delivered.2 }
  match delivered.1 with
  | .admitted => return ()
  | .shed =>
    let room := String.ofList here.desk.room.text
    let id := String.ofList signal.id
    Effect.refuse (.failure .backpressureShed "deliver a signal to a running room"
      s!"room {room} shed signal {id}"
      "the queue is full; pull what is waiting, then ask again")

/-- Whether a wait keeps a signal, as the first reply to arrive. -/
def keeps (desk : SignalDesk) (signal : Signal) : Bool :=
  match desk.waiting with
  | some wait => wait.kept.isNone && wait.answers signal desk.room
  | none => false

def setKept (signal : Signal) (desk : SignalDesk) : SignalDesk :=
  { desk with waiting := desk.waiting.map fun wait => { wait with kept := some signal } }

def collectAll : List Signal → Desk Unit
  | [] => return ()
  | signal :: rest => do
      let here ← Effect.look
      if here.desk.keeps signal then change (setKept signal) else admitOne signal
      collectAll rest

/-- Moves what the city dropped into the slot into the lent queue. -/
def collect : Desk Unit := do
  let arrived ← takeSlot
  collectAll arrived

/-- Takes one steer waiting for this run. -/
def takeSteer : Desk (Option Collab.Letter) := do
  collect
  let here ← Effect.look
  match here.desk.inbox.takeSteer with
  | none => return none
  | some (signal, inbox) => do
      change fun desk => { desk with inbox }
      match Collab.Letter.fromSignal signal with
      | .ok steer => do
          change fun desk => { desk with held := desk.held ++ [signal] }
          return some steer
      | .error unreadable => do
          post (.consumed signal here.desk.who)
          Effect.refuse unreadable

def answerAll (who : List Char) : List Signal → Desk Unit
  | [] => return ()
  | signal :: rest => do
      change fun desk => { desk with held := signal :: rest }
      post (.consumed signal who)
      change fun desk => { desk with held := rest }
      answerAll who rest

/-- Records that a model answer has read every signal now held. -/
def answered : Desk Unit := do
  let here ← Effect.look
  answerAll here.desk.who here.desk.held

/-- One row of what a pull shows the model. -/
structure PulledRow where
  from_ : List Char
  kind : SignalKind
  text : List Char
  sender : Option SenderState

def pull : Desk (List PulledRow) := do
  collect
  let here ← Effect.look
  let taken := here.desk.inbox.pull
  change fun desk => { desk with inbox := taken.2, held := desk.held ++ taken.1 }
  return taken.1.map fun signal =>
    { from_ := signal.from_, kind := signal.kind, text := signal.text, sender := signal.sender }

/-- The room's queue, with every signal this run held unread put back at the front. -/
def takeInbox : Desk Inbox := do
  let here ← Effect.look
  let unread := here.desk.held ++ (here.desk.waiting.bind (·.kept)).toList ++ here.desk.slot
  change fun desk => { desk with
    held := []
    waiting := desk.waiting.map fun wait => { wait with kept := none }
    slot := []
    unread
    inbox := .new 0 1 }
  return here.desk.inbox.giveBack unread

/-- The slot's signals while the run waits: the first reply, and the others into the queue. -/
def sortSlot (wait : ReplyWait) : Option Signal → List Signal → Desk (Option Signal)
  | reply, [] => return reply
  | reply, signal :: rest => do
      let here ← Effect.look
      if reply.isNone && wait.answers signal here.desk.room then sortSlot wait (some signal) rest
      else do
        admitOne signal
        sortSlot wait reply rest

/-- The wait starts at its first safe point, and the line says so. -/
def park (wait : ReplyWait) (now : Nat) : Desk (Nat × ReplyWait) :=
  match wait.deadline with
  | some deadline => return (deadline, wait)
  | none => do
      let deadline := ReplyWait.deadlineAt now
      let wait := { wait with deadline := some deadline }
      post (.waitStarted wait.on_ wait.signal deadline)
      change fun desk => { desk with waiting := some wait }
      return (deadline, wait)

/-- Ends the wait with its reply, which is held like a steer. -/
def replied (wait : ReplyWait) (reply : Signal) : Desk WaitTurn := do
  post (.waitEnded wait.signal (.reply reply.id))
  change fun desk => { desk with waiting := none, held := desk.held ++ [reply] }
  return .replied (Collab.Letter.reply reply)

/-- Advances this run's wait: a reply in the slot ends it, then the deadline does. -/
def waitOut (now : Nat) : Desk WaitTurn := do
  let here ← Effect.look
  match here.desk.waiting with
  | none => return .idle
  | some wait => do
      let (deadline, wait) ← park wait now
      let arrived ← takeSlot
      match ← sortSlot wait wait.kept arrived with
      | some reply => replied wait reply
      | none =>
        if now < deadline then return .waiting
        else do
          post (.waitEnded wait.signal .timeout)
          change fun desk => { desk with waiting := none }
          let room := String.ofList wait.on_.text
          return .timedOut s!"no reply came from {room} within 240 s; go on without it"

/-- Ends this run's wait because the run is leaving its room. -/
def waitLeft : Desk Unit := do
  let here ← Effect.look
  match here.desk.waiting with
  | none => return ()
  | some wait => do
      change fun desk => { desk with waiting := none, inbox := desk.inbox.giveBack wait.kept.toList }
      match wait.deadline with
      | some _ => post (.waitEnded wait.signal .left)
      | none => return ()

/-- Posts a signal that was built, and asks for the wait the send wants. -/
def send (signal : Signal) (wait : Option Address) : Desk Unit := do
  let here ← Effect.look
  if wait.isSome && here.desk.waiting.isSome then
    Effect.refuse (.failure .invalidArgs "send a signal" "this run already waits for a reply"
      "send without `wait`; the wait you started ends on its own")
  else do
    post (.enqueued signal)
    match wait with
    | none => return ()
    | some on_ => change fun desk => { desk with waiting := some (.asked on_ signal.id) }

/-- The signals a desk has, its slot apart. -/
def inHand (desk : SignalDesk) : List Signal :=
  desk.inbox.contents ++ desk.held ++ (desk.waiting.bind (·.kept)).toList

end SignalDesk

/-- One room's queue, and where it is: at home, or lent to a run at a desk. -/
inductive RoomQueue where
  | home (inbox : Inbox)
  | lent (to_ : RunId) (desk : Nat)

/-- The desks of all runs, the rooms' queues, the queues on their way home, and every line. -/
structure Mail where
  capacity : Nat
  bandwidth : Nat
  desks : List SignalDesk
  rooms : List (Address × RoomQueue)
  loose : List (RunId × Inbox)
  lines : List SignalEffect
  /-- The ids of the signals a room or a slot admitted. -/
  admitted : List (List Char)

inductive MailOp where
  /-- A run is lent the queue of a room. -/
  | lend (room : Address) (run : RunId) (who : List Char)
  | deliver (signal : Signal)
  /-- A queue a desk gave up is offered to the room at an address. -/
  | giveBack (place : Nat) (room : Address)
  | takeSteer (desk : Nat) (answers : List (Option AxError))
  | pull (desk : Nat) (answers : List (Option AxError))
  | waitOut (desk : Nat) (now : Nat) (answers : List (Option AxError))
  | answered (desk : Nat) (answers : List (Option AxError))
  | waitLeft (desk : Nat) (answers : List (Option AxError))
  | takeInbox (desk : Nat)
  | send (desk : Nat) (signal : Signal) (wait : Option Address) (answers : List (Option AxError))

namespace Mail

/-- Where a room stands in the table. -/
def roomAt (mail : Mail) (room : Address) : Option Nat :=
  mail.rooms.findIdx? fun entry => entry.1 = room

def queueAt (mail : Mail) (room : Address) : Option RoomQueue :=
  (mail.roomAt room).bind fun place => (mail.rooms[place]?).map Prod.snd

def setRoom (mail : Mail) (room : Address) (queue : RoomQueue) : Mail :=
  match mail.roomAt room with
  | some place => { mail with rooms := mail.rooms.set place (room, queue) }
  | none => { mail with rooms := mail.rooms ++ [(room, queue)] }

def newInbox (mail : Mail) : Inbox := .new mail.capacity mail.bandwidth

def newDesk (run : RunId) (room : Address) (who : List Char) (inbox : Inbox) : SignalDesk :=
  { run, room, who, inbox, slot := [], held := [], waiting := none, unread := [] }

/-- Lends the queue of a room, or a spare when another run is already reading there. -/
def lend (mail : Mail) (room : Address) (run : RunId) (who : List Char) : Mail :=
  let desks inbox := mail.desks ++ [newDesk run room who inbox]
  match mail.queueAt room with
  | some (.lent _ _) => { mail with desks := desks mail.newInbox }
  | some (.home inbox) =>
    { mail.setRoom room (.lent run mail.desks.length) with desks := desks inbox }
  | none => { mail.setRoom room (.lent run mail.desks.length) with desks := desks mail.newInbox }

def noteAdmitted (mail : Mail) (signal : Signal) (admits : Admits) : Mail :=
  match admits with
  | .admitted => { mail with admitted := mail.admitted ++ [signal.id] }
  | .shed => mail

/-- Drops a signal into a desk's slot, or sheds it once the slot is full. -/
def dropIn (mail : Mail) (desk : Nat) (signal : Signal) : Mail :=
  match mail.desks[desk]? with
  | none => mail
  | some found =>
    if found.slot.length ≥ mail.capacity then mail
    else { mail with
      desks := mail.desks.set desk { found with slot := found.slot ++ [signal] }
      admitted := mail.admitted ++ [signal.id] }

/-- Delivers one signal to the room it names, whether or not a run is reading there. -/
def deliver (mail : Mail) (signal : Signal) : Mail :=
  match mail.queueAt signal.room with
  | some (.lent _ desk) => mail.dropIn desk signal
  | some (.home inbox) =>
    let taken := inbox.deliver signal
    (mail.setRoom signal.room (.home taken.2)).noteAdmitted signal taken.1
  | none =>
    let taken := mail.newInbox.deliver signal
    (mail.setRoom signal.room (.home taken.2)).noteAdmitted signal taken.1

/-- Delivers what waited in a slot, up to the first signal the queue sheds. -/
def deliverAll (inbox : Inbox) : List Signal → Inbox
  | [] => inbox
  | signal :: rest =>
    let taken := inbox.deliver signal
    match taken.1 with
    | .admitted => deliverAll taken.2 rest
    | .shed => taken.2

/-- Takes the queue of a room back from the run it is lent to. -/
def giveBack (mail : Mail) (place : Nat) (room : Address) : Mail :=
  match mail.loose[place]? with
  | none => mail
  | some (from_, returned) =>
    let rest := { mail with loose := mail.loose.eraseIdx place }
    match rest.queueAt room with
    | some (.lent to_ desk) =>
      if to_ = from_ then
        match rest.desks[desk]? with
        | none => rest.setRoom room (.home returned)
        | some found =>
          { rest.setRoom room (.home (deliverAll returned found.slot)) with
            desks := rest.desks.set desk { found with slot := [] } }
      else rest
    | _ => rest

/-- One call at a desk. -/
def atDesk {α : Type} (mail : Mail) (place : Nat) (answers : List (Option AxError))
    (call : SignalDesk.Desk α) : Mail :=
  match mail.desks[place]? with
  | none => mail
  | some desk =>
    let done := Effect.run call { desk, lines := mail.lines, answers }
    { mail with desks := mail.desks.set place done.2.desk, lines := done.2.lines }

/-- A desk gives its queue up. -/
def takeInbox (mail : Mail) (place : Nat) : Mail :=
  match mail.desks[place]? with
  | none => mail
  | some desk =>
    let done := Effect.run SignalDesk.takeInbox { desk, lines := mail.lines, answers := [] }
    match done.1 with
    | .ok inbox => { mail with
        desks := mail.desks.set place done.2.desk
        loose := mail.loose ++ [(desk.run, inbox)] }
    | .error _ => mail

def step (mail : Mail) : MailOp → Mail
  | .lend room run who => mail.lend room run who
  | .deliver signal => mail.deliver signal
  | .giveBack place room => mail.giveBack place room
  | .takeSteer desk answers => mail.atDesk desk answers SignalDesk.takeSteer
  | .pull desk answers => mail.atDesk desk answers SignalDesk.pull
  | .waitOut desk now answers => mail.atDesk desk answers (SignalDesk.waitOut now)
  | .answered desk answers => mail.atDesk desk answers SignalDesk.answered
  | .waitLeft desk answers => mail.atDesk desk answers SignalDesk.waitLeft
  | .takeInbox desk => mail.takeInbox desk
  | .send desk signal wait answers => mail.atDesk desk answers (SignalDesk.send signal wait)

/-- A city before its first signal. -/
def opening (capacity bandwidth : Nat) : Mail :=
  { capacity, bandwidth, desks := [], rooms := [], loose := [], lines := [], admitted := [] }

def play (mail : Mail) (ops : List MailOp) : Mail := ops.foldl step mail

end Mail

end Sprawling
