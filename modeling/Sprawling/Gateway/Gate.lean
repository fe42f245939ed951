import Sprawling.Base.OrdMap
import Sprawling.Base.Word
import Sprawling.Kernel.Digest
import Sprawling.Kernel.Error

/-! One endpoint's gate: its permits, the tickets that wait for them, and the prefix hold. Instants
and durations are nanoseconds; `horizon` is the last instant the clock can hold. -/

namespace Sprawling

open Word

/-- The largest `max_in_flight` an endpoint may be configured with. -/
def inFlightMax : Nat := 256

def widenAfter : Nat := 8

/-- A configured concurrency ceiling. -/
structure MaxInFlight where
  value : Nat
  lower : 1 ≤ value
  upper : value ≤ inFlightMax

def MaxInFlight.tryFrom (value : Nat) : Except AxError MaxInFlight :=
  if within : 1 ≤ value ∧ value ≤ inFlightMax then .ok ⟨value, within.1, within.2⟩
  else .error (.failure .configInvalid "set an endpoint's max_in_flight"
    s!"{value} is outside 1 to {inFlightMax}"
    (s!"give max_in_flight a whole number from 1 to {inFlightMax}, " ++
      "or leave it out to take the default"))

/-- What one attempt to take a permit answers. -/
inductive Take where
  | granted
  | full
  | waitUntil (instant : Nat)
deriving DecidableEq

/-- One endpoint's permit state. -/
structure Permits where
  cap : MaxInFlight
  limit : Nat
  inUse : Nat
  streak : Nat
  holdUntil : Option Nat

namespace Permits

def new (cap : MaxInFlight) : Permits :=
  { cap, limit := cap.value, inUse := 0, streak := 0, holdUntil := none }

/-- Takes a permit when one is free and the provider has not asked to hold off. -/
def take (permits : Permits) (now : Nat) : Take × Permits :=
  match permits.holdUntil.filter (now < ·) with
  | some instant => (.waitUntil instant, permits)
  | none =>
    if permits.inUse < permits.limit then
      (.granted, { permits with inUse := Word.saturatingAdd u32Values permits.inUse 1 })
    else (.full, permits)

def giveBack (permits : Permits) : Permits := { permits with inUse := permits.inUse - 1 }

/-- The provider answered 429: halve the limit and hold off as long as it said. -/
def rateLimited (horizon : Nat) (permits : Permits) (now : Nat) (retryAfter : Option Nat) :
    Permits :=
  let narrowed := { permits with limit := max (permits.limit / 2) 1, streak := 0 }
  match retryAfter.bind (checkedAdd horizon now) with
  | some instant =>
    { narrowed with
      holdUntil := some ((permits.holdUntil.map fun held => max held instant).getD instant) }
  | none => narrowed

/-- A call succeeded: enough of them in a row widen the limit. -/
def succeeded (permits : Permits) (now : Nat) : Permits :=
  let streak := Word.saturatingAdd u32Values permits.streak 1
  if streak < widenAfter then { permits with streak }
  else if permits.holdUntil.all (· ≤ now) && permits.limit < permits.cap.value then
    { permits with limit := Word.saturatingAdd u32Values permits.limit 1, streak := 0 }
  else permits

end Permits

/-- The permits and the tickets in arrival order. -/
structure Queue where
  permits : Permits
  next : Nat
  waiting : List Nat

/-- What one ticket's attempt answers: a permit, or how long to wait for it. -/
inductive Turn where
  | granted
  | wait (instant : Option Nat)

namespace Queue

def over_ (permits : Permits) : Queue := { permits, next := 0, waiting := [] }

/-- Issues the next ticket and puts it at the back of the queue. -/
def arrive (queue : Queue) : Nat × Queue :=
  (queue.next,
    { queue with
      next := Word.saturatingAdd u64Values queue.next 1
      waiting := queue.waiting ++ [queue.next] })

/-- Takes a permit for a ticket when it is at the head of the queue. -/
def tryTake (queue : Queue) (ticket now : Nat) : Turn × Queue :=
  if queue.waiting.head? ≠ some ticket then (.wait none, queue)
  else
    match queue.permits.take now with
    | (.granted, permits) => (.granted, { queue with permits, waiting := queue.waiting.tail })
    | (.full, permits) => (.wait none, { queue with permits })
    | (.waitUntil instant, permits) => (.wait (some instant), { queue with permits })

def shed (queue : Queue) (ticket : Nat) : Queue :=
  { queue with waiting := queue.waiting.filter (· ≠ ticket) }

end Queue

def holdMax : Nat := 30 * 10 ^ 9

def cacheLifetime : Nat := 300 * 10 ^ 9

/-- What one call's shared prefix is cached under. -/
structure PrefixKey where
  digest : B3Hash
deriving DecidableEq

namespace PrefixKey

instance : Ord PrefixKey := ⟨fun first second => compare first.digest.bytes second.digest.bytes⟩

theorem compare_def (first second : PrefixKey) :
    compare first second = compare first.digest.bytes second.digest.bytes := rfl

instance : Std.TransOrd PrefixKey := OrdMap.transOrd_of_key compare_def

instance : Std.LawfulEqOrd PrefixKey := OrdMap.lawfulEqOrd_of_key compare_def fun first second same => by
  cases first
  cases second
  exact congrArg PrefixKey.mk (Digest.ext_bytes same)

end PrefixKey

/-- One pre-warm, by number. -/
structure Prewarm where
  number : Nat
deriving DecidableEq

inductive PrewarmEnd where
  | answered
  | refused
  | timedOut
  | abandoned

/-- What a call that reached the hold does next. -/
inductive Arrival where
  | go
  | wait (on_ : Prewarm) (until_ : Nat)
  | send (prewarm : Prewarm) (until_ : Nat)

/-- Until when a key is warm, and the pre-warm whose end last warmed it. -/
structure Warm where
  until_ : Nat
  by_ : Option (Prewarm × PrewarmEnd)

/-- A pre-warm in flight, and when it was sent. -/
structure Warming where
  prewarm : Prewarm
  since : Nat

/-- One endpoint's prefix hold. -/
structure Holds where
  next : Nat
  warm : OrdMap PrefixKey Warm
  warming : OrdMap PrefixKey Warming

namespace Holds

def empty : Holds := { next := 0, warm := ∅, warming := ∅ }

variable (horizon : Nat)

/-- A call with a key reached the gate: a warm key goes on and stays warm, a key with a pre-warm in
flight waits for it, any other key sends one. -/
def arrive (holds : Holds) (key : PrefixKey) (now : Nat) : Arrival × Holds :=
  match holds.warm[key]?.filter (now < ·.until_) with
  | some warm =>
    match checkedAdd horizon now cacheLifetime with
    | some until_ => (.go, { holds with warm := holds.warm.insert key { warm with until_ } })
    | none => (.go, holds)
  | none =>
    match holds.warming[key]? with
    | some warming =>
      match checkedAdd horizon warming.since holdMax with
      | some until_ => (.wait warming.prewarm until_, holds)
      | none => (.go, holds)
    | none =>
      match checkedAdd horizon now holdMax with
      | none => (.go, holds)
      | some until_ =>
        (.send ⟨holds.next⟩ until_,
          { holds with
            next := wrappingAdd u64Values holds.next 1
            warming := holds.warming.insert key ⟨⟨holds.next⟩, now⟩ })

/-- The calls with a key left the gate, released by a pre-warm's end. -/
def warmed (holds : Holds) (key : PrefixKey) (by_ : Prewarm × PrewarmEnd) (now : Nat) : Holds :=
  match checkedAdd horizon now cacheLifetime with
  | some until_ => { holds with warm := holds.warm.insert key { until_, by_ := some by_ } }
  | none => { holds with warm := holds.warm.erase key }

/-- The pre-warm of a key no longer holds, and the key is warm. -/
def takeOff (holds : Holds) (key : PrefixKey) (by_ : Prewarm × PrewarmEnd) (now : Nat) : Holds :=
  warmed horizon { holds with warming := holds.warming.erase key } key by_ now

/-- The key the first pre-warm of that number is in flight under. -/
def keyOf (holds : Holds) (prewarm : Prewarm) : Option PrefixKey :=
  (holds.warming.toList.find? (·.2.prewarm = prewarm)).map Prod.fst

/-- A pre-warm came back: every call that waits for it goes on. -/
def settle (holds : Holds) (prewarm : Prewarm) (ended : PrewarmEnd) (now : Nat) : Holds :=
  match holds.keyOf prewarm with
  | some key => holds.takeOff horizon key (prewarm, ended) now
  | none => holds

/-- The pre-warms sent so long ago that they no longer hold. -/
def lapsed (holds : Holds) (now : Nat) : List (PrefixKey × Prewarm) :=
  (holds.warming.toList.filter fun entry =>
    (checkedAdd horizon entry.2.since holdMax).all (· ≤ now)).map fun entry =>
      (entry.1, entry.2.prewarm)

/-- Every lapsed pre-warm releases its calls, and a warm mark that ran out is forgotten. -/
def expire (holds : Holds) (now : Nat) : Holds :=
  (holds.lapsed horizon now).foldl
    (fun holds entry => holds.takeOff horizon entry.1 (entry.2, .timedOut) now)
    { holds with warm := holds.warm.filter fun _ warm => now < warm.until_ }

/-- Whether a pre-warm still holds the calls that wait for it. -/
def waits (holds : Holds) (prewarm : Prewarm) : Bool :=
  holds.warming.toList.any (·.2.prewarm = prewarm)

/-- How a pre-warm ended, read off its key's warm mark. -/
def ended (holds : Holds) (key : PrefixKey) (prewarm : Prewarm) : Option PrewarmEnd :=
  ((holds.warm[key]?.bind (·.by_)).filter (·.1 = prewarm)).map Prod.snd

end Holds

/-- What can go wrong between the city and a provider, as far as the gate asks. -/
inductive ProviderFailureKind where
  | exchange
  | cut
  | silence
  | refused (status : Nat)
  | quota (status : Nat)
  | overflow (status : Nat)
  | unreadable
  | reported
  | unbuilt
deriving DecidableEq

/-- The status a provider answers when it wants fewer calls at once. -/
def tooManyRequests : Nat := 429

/-- What the gate reads of a call's outcome. -/
inductive CallOutcome where
  | answered
  | failed (provider : Option ProviderFailureKind) (retryAfterMs : Option Nat)

/-- One endpoint's permits and the tickets waiting for them, with the hold a call passes first. -/
structure Gate where
  queue : Queue
  holds : Holds

/-- What one pass of a call through the queue comes to. -/
inductive Pass where
  | admitted
  | refused (error : AxError)
  | sleep (wait : Nat)

namespace Gate

/-- A gate that lets `ceiling` calls be in flight at once. -/
def admitting (ceiling : MaxInFlight) : Gate :=
  { queue := .over_ (.new ceiling), holds := .empty }

def shedError (endpoint : String) (waited : Nat) : AxError :=
  .failure .backpressureShed "wait for a permit to call this endpoint"
    s!"{endpoint} after {waited / 10 ^ 9} s in its queue"
    ("this endpoint allows fewer calls at once than the runs that want it: raise its " ++
      "max_in_flight in the endpoint settings, or dispatch fewer runs at once")

/-- One pass of a waiting call: refused once it has waited its bound, else it tries its ticket. -/
def pass (gate : Gate) (ticket arrived bound now : Nat) (endpoint : String) : Pass × Gate :=
  let waited := now - arrived
  if bound ≤ waited then
    (.refused (shedError endpoint waited), { gate with queue := gate.queue.shed ticket })
  else
    let left := bound - waited
    match gate.queue.tryTake ticket now with
    | (.granted, queue) => (.admitted, { gate with queue })
    | (.wait until_, queue) =>
      (.sleep ((until_.map fun instant => min (instant - now) left).getD left),
        { gate with queue })

variable (horizon : Nat)

/-- A call with a key reached the hold; lapsed pre-warms are taken off first. -/
def arrive (gate : Gate) (key : PrefixKey) (now : Nat) : Arrival × Gate :=
  let (arrival, holds) := (gate.holds.expire horizon now).arrive horizon key now
  (arrival, { gate with holds })

/-- One pass of a call that waits for a pre-warm: how it ended, unless it still holds. -/
def waitFor (gate : Gate) (key : PrefixKey) (on_ : Prewarm) (now : Nat) :
    Option PrewarmEnd × Gate :=
  let holds := gate.holds.expire horizon now
  if !holds.waits on_ then (some ((holds.ended key on_).getD .timedOut), { gate with holds })
  else (none, { gate with holds })

def settlePrewarm (gate : Gate) (prewarm : Prewarm) (ended : PrewarmEnd) (now : Nat) : Gate :=
  { gate with holds := gate.holds.settle horizon prewarm ended now }

/-- Tells the permits how an admitted call went. -/
def settle (gate : Gate) (outcome : CallOutcome) (now : Nat) : Gate :=
  match outcome with
  | .answered => { gate with queue := { gate.queue with permits := gate.queue.permits.succeeded now } }
  | .failed provider retryAfterMs =>
    if provider = some (.refused tooManyRequests) then
      { gate with
        queue :=
          { gate.queue with
            permits := gate.queue.permits.rateLimited horizon now
              (retryAfterMs.map (· * 10 ^ 6)) } }
    else gate

/-- An admitted call's guard is dropped. -/
def giveBack (gate : Gate) : Gate :=
  { gate with queue := { gate.queue with permits := gate.queue.permits.giveBack } }

end Gate

end Sprawling
