import Sprawling.Base.Word

/-! The accounting thread's health, as counts other threads can read. -/

namespace Sprawling

/-- Appends that wait or are not yet durable, and the waits kept, in microseconds and oldest first. -/
structure Health where
  queued : UInt64
  unflushed : UInt64
  idleUs : UInt64
  relayQueue : List Nat
  laneWait : List Nat

namespace Health

def relayQueueKept : Nat := 65536

def micros (span : Nat) : Nat := min (span / 1000) (Word.u64Values - 1)

/-- Keeps one wait, dropping the oldest once `relayQueueKept` are held. -/
def keep (waits : List Nat) (waited : Nat) : List Nat :=
  (if waits.length < relayQueueKept then waits else waits.tail) ++ [micros waited]

def lower (count n : UInt64) : UInt64 := if n ≤ count then count - n else 0

def new : Health := ⟨0, 0, 0, [], []⟩

def asked (health : Health) : Health := { health with queued := health.queued + 1 }

/-- The accounting thread took `n` appends into one batch. -/
def taken (health : Health) (n : UInt64) : Health :=
  { health with queued := lower health.queued n, unflushed := health.unflushed + n }

/-- The batch of `n` is durable and its answers are sent. -/
def answered (health : Health) (n : UInt64) : Health :=
  { health with unflushed := lower health.unflushed n }

/-- The accounting thread took one relay request so long after its lane queued it. -/
def queueWaited (health : Health) (waited : Nat) : Health :=
  { health with relayQueue := keep health.relayQueue waited }

/-- The driving pool opened a staged run's lane so long after the run was staged. -/
def laneWaited (health : Health) (waited : Nat) : Health :=
  { health with laneWait := keep health.laneWait waited }

/-- The accounting thread slept on its queue. -/
def slept (health : Health) (span : Nat) : Health :=
  { health with idleUs := health.idleUs + UInt64.ofNat (micros span) }

end Health

end Sprawling
