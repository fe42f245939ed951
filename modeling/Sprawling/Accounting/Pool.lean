import Sprawling.Accounting.Health
import Sprawling.Kernel.RunId

/-! The driving lanes: one thread per run in flight, and the runs that wait for memory. -/

namespace Sprawling

namespace DrivingPool

/-- Physical memory and how much of it the platform could hand out now, in bytes. -/
structure Memory where
  physical : UInt64
  available : UInt64

/-- The share of physical memory a new run leaves free: one part in this many. -/
def reserveShare : UInt64 := 10

/-- Whether one more run may start: no run is driving, or the machine keeps a tenth of its physical
memory free. -/
def admits (inFlight : UInt32) (memory : Memory) : Bool :=
  let tight := memory.available < memory.physical / reserveShare
  inFlight = 0 || !tight

/-- One staged dispatch: the run it is for, and all its lane will be given. -/
structure Staged (β : Type) where
  run : RunId
  work : β

/-- One staged dispatch that waits, and when it was staged. -/
structure Waiting (β : Type) where
  staged : Staged β
  stagedAt : Nat

/-- One run, home from its lane. -/
structure Arrival (γ : Type) where
  run : RunId
  flown : γ

/-- What the pool reads off the machine around one start: its memory, its monotonic clock, and the
refusal of the operating system to start a thread, if it refuses. -/
structure Moment where
  memory : Memory
  now : Nat
  refuses : Option String

/-- What has become of a lane's thread. -/
inductive LaneEnd where
  | going
  | ended
  | panicked
deriving DecidableEq

end DrivingPool

open DrivingPool in
/-- The lanes a city drives in. A lane is known by its place among the threads asked for. -/
structure DrivingPool (β : Type) where
  /-- One entry per run still driving. -/
  running : OrdMap RunId Nat
  /-- The lanes whose run came home and that have not finished. -/
  trailing : List (RunId × Nat)
  /-- Drives prepared while memory was tight, oldest first. -/
  waiting : List (Waiting β)
  /-- Where each run's wait for a lane is kept. -/
  health : Health
  /-- The threads asked of the operating system, and whether each was started. -/
  asked : List (Staged β × Bool)

namespace DrivingPool

variable {β γ : Type}

def empty : DrivingPool β where
  running := ∅
  trailing := []
  waiting := []
  health := .new
  asked := []

def inFlight (pool : DrivingPool β) : UInt32 := UInt32.ofNat (min pool.running.size (2 ^ 32 - 1))

/-- Whether a new run waits: memory is tight while another run is driving. -/
def full (pool : DrivingPool β) (memory : Memory) : Bool := !admits pool.inFlight memory

/-- Opens the thread one run is prepared and driven on. -/
def openLane (pool : DrivingPool β) (refuses : Option String) (staged : Staged β) :
    Except AxError Unit × DrivingPool β :=
  match refuses with
  | some source =>
    (.error (.failure .storageFatal "start a driving lane" source
      "check process thread limits, or drive fewer runs at once"),
      { pool with asked := pool.asked ++ [(staged, false)] })
  | none =>
    (.ok (),
      { pool with
        asked := pool.asked ++ [(staged, true)]
        running := pool.running.insert staged.run pool.asked.length })

/-- Whether the run is driving or waiting. -/
def holds (pool : DrivingPool β) (run : RunId) : Bool :=
  run ∈ pool.running || pool.waiting.any fun queued => queued.staged.run = run

/-- Takes one drive into a lane of its own, or into the queue while memory is tight. -/
def start (pool : DrivingPool β) (staged : Staged β) (moment : Moment) :
    Except AxError Unit × DrivingPool β :=
  if pool.holds staged.run then
    (.error (.failure .invalidArgs "take a drive into a lane"
      s!"{String.ofList staged.run.display} is already driving" "report this: one run drives once"), pool)
  else if pool.full moment.memory then
    (.ok (), { pool with waiting := pool.waiting ++ [⟨staged, moment.now⟩] })
  else
    openLane { pool with health := pool.health.laneWaited 0 } moment.refuses staged

/-- Starts the drives of a queue, oldest first, until memory is tight; each turn reads the machine
anew. Returns each run whose lane would not start, with the refusal. -/
def startEach (moments : Nat → Moment) :
    Nat → List (Waiting β) → DrivingPool β → List (RunId × AxError) × DrivingPool β
  | _, [], pool => ([], { pool with waiting := [] })
  | turn, oldest :: queued, pool =>
    let moment := moments turn
    if pool.full moment.memory then ([], { pool with waiting := oldest :: queued })
    else
      let pool := { pool with health := pool.health.laneWaited (moment.now - oldest.stagedAt) }
      match pool.openLane moment.refuses oldest.staged with
      | (.ok _, pool) => startEach moments (turn + 1) queued pool
      | (.error err, pool) =>
        let (refused, pool) := startEach moments (turn + 1) queued pool
        ((oldest.staged.run, err) :: refused, pool)

/-- Starts the drives that waited for memory, oldest first, until memory is tight again. -/
def startWaiting (pool : DrivingPool β) (moments : Nat → Moment) :
    List (RunId × AxError) × DrivingPool β :=
  startEach moments 0 pool.waiting pool

/-- Joins finished lanes one after another, up to the first that ended abnormally. -/
def joinLanes (ends : Nat → LaneEnd) : List (RunId × Nat) → Except AxError Unit
  | [] => .ok ()
  | (run, lane) :: rest =>
    if ends lane = .panicked then
      .error (.failure .storageFatal "close a driving lane"
        s!"the lane that drove {String.ofList run.display} ended abnormally"
        "restart this city; its history is verified on the way back up")
    else joinLanes ends rest

/-- Takes the run an arrival carries off the driving table, and closes every lane that has finished
since. -/
def landed (pool : DrivingPool β) (arrival : Arrival γ) (ends : Nat → LaneEnd) :
    Except AxError (Arrival γ) × DrivingPool β :=
  let trailing := match pool.running[arrival.run]? with
    | some lane => pool.trailing ++ [(arrival.run, lane)]
    | none => pool.trailing
  let finished := trailing.filter fun lane => ends lane.2 ≠ .going
  let going := trailing.filter fun lane => ends lane.2 = .going
  ((joinLanes ends finished).map fun _ => arrival,
    { pool with running := pool.running.erase arrival.run, trailing := going })

theorem inFlight_eq_zero (pool : DrivingPool β) : pool.inFlight = 0 ↔ pool.running.size = 0 := by
  rw [inFlight, ← UInt32.toNat_inj, UInt32.toNat_ofNat']
  change min pool.running.size (2 ^ 32 - 1) % 2 ^ 32 = 0 ↔ _
  omega

theorem not_empty_of_full {pool : DrivingPool β} {memory : Memory} (full : pool.full memory = true) :
    pool.running.size ≠ 0 := by
  intro none_driving
  rw [DrivingPool.full, admits, (inFlight_eq_zero pool).mpr none_driving] at full
  simp at full

end DrivingPool

end Sprawling
