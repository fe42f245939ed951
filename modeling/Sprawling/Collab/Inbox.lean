import Sprawling.Base.Json
import Sprawling.Kernel.Address
import Sprawling.Kernel.RunId

/-! Signals between residents, and the queues a room holds them in. -/

namespace Sprawling

inductive SignalKind where
  | steer
  | mention
  | thread
  | broadcast
deriving DecidableEq

def SignalKind.asStr : SignalKind → String
  | .steer => "steer"
  | .mention => "mention"
  | .thread => "thread"
  | .broadcast => "broadcast"

inductive SignalLane where
  | urgent
  | ordinary
deriving DecidableEq

/-- Where the run that sent a signal stood when the city delivered it. -/
inductive SenderState where
  | running
  | frozen
  | cancelled
deriving DecidableEq

/-- One communication between residents. -/
structure Signal where
  id : List Char
  kind : SignalKind
  from_ : List Char
  named : from_ ≠ []
  room : Address
  payload : Json
  at_ : Nat
  sender : Option SenderState
  run : Option RunId
deriving DecidableEq

namespace Signal

def lane (signal : Signal) : SignalLane :=
  match signal.kind with
  | .steer => .urgent
  | .mention | .thread | .broadcast => .ordinary

def text (signal : Signal) : List Char := ((signal.payload.get "text").bind Json.asStr).getD []

end Signal

namespace Collab

inductive LetterKind where
  | steer
  | reply

/-- What a run reads of a signal. -/
structure Letter where
  from_ : List Char
  run : Option RunId
  kind : LetterKind
  sender : Option SenderState
  text : List Char

namespace Letter

/-- The reply a wait ended with; an empty one still ends it. -/
def reply (signal : Signal) : Letter where
  from_ := signal.from_
  run := signal.run
  kind := .reply
  sender := signal.sender
  text := Text.trim signal.text

/-- A steer, as its run reads it. -/
def fromSignal (signal : Signal) : Except AxError Letter :=
  if signal.kind ≠ .steer then
    .error (.failure .invalidArgs "read a signal as a steer" signal.kind.asStr
      "only a steer-kind signal overtakes; deliver the rest to the inbox")
  else if (Text.trim signal.text).isEmpty then
    .error (.failure .invalidArgs "build a steer" "empty text"
      "say what should change; a steer with no words costs a turn")
  else .ok { reply signal with kind := .steer }

end Letter

end Collab

/-- Whether a queue takes an item. -/
inductive Admits where
  | admitted
  | shed
deriving DecidableEq

/-- One line of a room's queue: what waits, oldest first, and the keys it was asked to take, each
with the moment it was admitted. A key is derived from a signal's id and stands for it. -/
structure EventQueue where
  items : List Signal
  seen : List (List Char × Nat)
  capacity : Nat

namespace EventQueue

/-- How long an admitted key stays recognisable as one, in milliseconds. -/
def idemWindowMs : Nat := 6 * 60 * 60 * 1000

def new (capacity : Nat) : EventQueue := { items := [], seen := [], capacity }

/-- The keys admitted no longer ago than the window. -/
def forgetStale (queue : EventQueue) (now : Nat) : EventQueue :=
  if now < idemWindowMs then queue
  else { queue with seen := queue.seen.filter fun entry => entry.2 > now - idemWindowMs }

/-- Whether the queue still knows the signal when it is asked to take it. -/
def Knows (queue : EventQueue) (signal : Signal) : Prop :=
  signal.id ∈ (queue.forgetStale signal.at_).seen.map Prod.fst

instance (queue : EventQueue) (signal : Signal) : Decidable (queue.Knows signal) :=
  inferInstanceAs (Decidable (_ ∈ _))

/-- Admission first, then storage; a key that is known is admitted and ignored. -/
def enqueue (queue : EventQueue) (signal : Signal) : Admits × EventQueue :=
  let pruned := queue.forgetStale signal.at_
  if queue.Knows signal then (.admitted, pruned)
  else if queue.items.length + 1 ≤ queue.capacity then
    (.admitted, { pruned with
      items := queue.items ++ [signal]
      seen := pruned.seen ++ [(signal.id, signal.at_)] })
  else (.shed, pruned)

/-- Takes the oldest item; its key stays known. -/
def consume (queue : EventQueue) : Option (Signal × EventQueue) :=
  match queue.items with
  | [] => none
  | signal :: rest => some (signal, { queue with items := rest })

end EventQueue

/-- The receiving side: two lines, what a leaving run gave back, and a bandwidth. -/
structure Inbox where
  urgent : EventQueue
  ordinary : EventQueue
  returned : List Signal
  bandwidth : Nat

namespace Inbox

def new (capacity bandwidth : Nat) : Inbox where
  urgent := .new capacity
  ordinary := .new capacity
  returned := []
  bandwidth := max bandwidth 1

/-- The line a signal is delivered into. -/
def lineOf (inbox : Inbox) (signal : Signal) : EventQueue :=
  match signal.lane with
  | .urgent => inbox.urgent
  | .ordinary => inbox.ordinary

def deliver (inbox : Inbox) (signal : Signal) : Admits × Inbox :=
  match signal.lane with
  | .urgent =>
    let taken := inbox.urgent.enqueue signal
    (taken.1, { inbox with urgent := taken.2 })
  | .ordinary =>
    let taken := inbox.ordinary.enqueue signal
    (taken.1, { inbox with ordinary := taken.2 })

/-- Puts signals back ahead of everything still queued. -/
def giveBack (inbox : Inbox) (signals : List Signal) : Inbox :=
  { inbox with returned := signals ++ inbox.returned }

/-- One signal: what was given back first, then urgent, then ordinary. -/
def takeOne (inbox : Inbox) : Option (Signal × Inbox) :=
  match inbox.returned with
  | signal :: rest => some (signal, { inbox with returned := rest })
  | [] =>
    match inbox.urgent.consume with
    | some (signal, urgent) => some (signal, { inbox with urgent })
    | none =>
      (inbox.ordinary.consume).map fun taken => (taken.1, { inbox with ordinary := taken.2 })

def pullUpTo : Nat → Inbox → List Signal × Inbox
  | 0, inbox => ([], inbox)
  | room + 1, inbox =>
    match inbox.takeOne with
    | none => ([], inbox)
    | some (signal, rest) =>
      let taken := pullUpTo room rest
      (signal :: taken.1, taken.2)

def pull (inbox : Inbox) : List Signal × Inbox := pullUpTo inbox.bandwidth inbox

/-- Takes one urgent signal. -/
def takeSteer (inbox : Inbox) : Option (Signal × Inbox) :=
  match inbox.returned.find? fun signal => signal.lane = .urgent with
  | some signal => some (signal, { inbox with
      returned := inbox.returned.eraseP fun signal => signal.lane = .urgent })
  | none => (inbox.urgent.consume).map fun taken => (taken.1, { inbox with urgent := taken.2 })

/-- Every signal that waits. -/
def contents (inbox : Inbox) : List Signal :=
  inbox.urgent.items ++ inbox.ordinary.items ++ inbox.returned

end Inbox

end Sprawling
