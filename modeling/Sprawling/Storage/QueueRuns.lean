import Sprawling.Base.Word
import Sprawling.Base.Json
import Sprawling.Base.Machine
import Sprawling.Kernel.Idem

/-! The one admission decision every queue asks. -/

namespace Sprawling

namespace Backpressure

/-- A queue's occupancy. -/
structure QueueStats where
  depth : Nat
  capacity : Nat

/-- What taking an item would cost. -/
structure ItemMeta where
  cost : Nat

inductive ShedReason where
  | capacityExhausted
deriving DecidableEq

inductive Admission where
  | admitted
  | shed (reason : ShedReason)
deriving DecidableEq

/-- Whether the queue takes one more item; a sum past the last word sheds. -/
def admission (stats : QueueStats) (item : ItemMeta) : Admission :=
  match Word.checkedAdd (Word.u64Values - 1) stats.depth item.cost with
  | some total => if total ≤ stats.capacity then .admitted else .shed .capacityExhausted
  | none => .shed .capacityExhausted

theorem admission_admitted {stats : QueueStats} {item : ItemMeta}
    (passed : admission stats item = .admitted) : stats.depth + item.cost ≤ stats.capacity ∧
      stats.depth + item.cost ≤ Word.u64Values - 1 := by
  unfold admission at passed
  split at passed
  · next total sum =>
      obtain ⟨same, bounded⟩ := Word.checkedAdd_eq_some.mp sum
      split at passed
      · next fits => omega
      · cases passed
  · cases passed

end Backpressure

end Sprawling

/-! The queue behind the three lanes: admission before storage, deduplication before consumption. -/

namespace Sprawling.Storage

/-- How long an admitted key stays recognisable as one, in milliseconds: six hours. -/
def idemWindowMs : Nat := 6 * 60 * 60 * 1000

inductive QueueLane where
  | signal
  | approval
  | repair

structure QueueItem where
  id : Nat
  key : IdemKey
  payload : Json
  enqueuedT : Nat

/-- The items that wait under their ids, and each admitted key against the moment it was
admitted. -/
structure EventQueue where
  lane : QueueLane
  items : OrdMap Nat QueueItem
  nextId : Nat
  seen : OrdMap IdemKey Nat
  capacity : Nat
  shed : Nat
  duplicates : Nat

namespace EventQueue

def new (lane : QueueLane) (capacity : Nat) : EventQueue where
  lane
  items := ∅
  nextId := 0
  seen := ∅
  capacity
  shed := 0
  duplicates := 0

def len (queue : EventQueue) : Nat := min queue.items.size (Word.u64Values - 1)

def stats (queue : EventQueue) : Backpressure.QueueStats where
  depth := queue.len
  capacity := queue.capacity

def saturatingSucc (count : Nat) : Nat := Word.saturatingAdd Word.u64Values count 1

/-- Drops the keys admitted longer ago than the window. -/
def forgetStale (queue : EventQueue) (now : Nat) : EventQueue :=
  if now < idemWindowMs then queue
  else { queue with seen := queue.seen.filter fun _ admitted => now - idemWindowMs < admitted }

/-- Admission first, then storage. A duplicate is admitted and ignored. -/
def enqueue (queue : EventQueue) (key : IdemKey) (payload : Json) (now : Nat) :
    Backpressure.Admission × EventQueue :=
  let queue := queue.forgetStale now
  if key ∈ queue.seen then
    (.admitted, { queue with duplicates := saturatingSucc queue.duplicates })
  else
    match Backpressure.admission queue.stats { cost := 1 } with
    | .shed reason => (.shed reason, { queue with shed := saturatingSucc queue.shed })
    | .admitted =>
      let item := { id := queue.nextId, key, payload, enqueuedT := now }
      (.admitted, { queue with
        nextId := saturatingSucc queue.nextId
        seen := queue.seen.insert key now
        items := queue.items.insert queue.nextId item })

/-- Takes the oldest item; its key stays known. -/
def consume (queue : EventQueue) : Option QueueItem × EventQueue :=
  match queue.items.keys.head? with
  | none => (none, queue)
  | some id => (queue.items[id]?, { queue with items := queue.items.erase id })

def waiting (queue : EventQueue) : List QueueItem := queue.items.toList.map Prod.snd

/-- Whether asking for this key now stores a new item. -/
def Takes (queue : EventQueue) (key : IdemKey) (now : Nat) : Prop :=
  key ∉ (queue.forgetStale now).seen ∧ Backpressure.admission queue.stats { cost := 1 } = .admitted

instance (queue : EventQueue) (key : IdemKey) (now : Nat) : Decidable (queue.Takes key now) :=
  inferInstanceAs (Decidable (_ ∧ _))

end EventQueue

/-- One call on the queue. -/
inductive QueueOp where
  | enqueue (key : IdemKey) (payload : Json) (now : Nat)
  | consume

/-- A queue with what it has been asked so far: the latest clock reading, the items it admitted and
the items it handed out, in order. -/
structure QueueRun where
  queue : EventQueue
  clock : Nat
  admitted : List QueueItem
  handed : List QueueItem

namespace QueueRun

def start (lane : QueueLane) (capacity : Nat) : QueueRun where
  queue := .new lane capacity
  clock := 0
  admitted := []
  handed := []

def step (run : QueueRun) : QueueOp → QueueRun
  | .enqueue key payload now =>
    { run with
      queue := (run.queue.enqueue key payload now).2
      clock := now
      admitted :=
        if run.queue.Takes key now then
          run.admitted ++
            [{ id := run.queue.nextId, key, payload, enqueuedT := now }]
        else run.admitted }
  | .consume =>
    { run with
      queue := run.queue.consume.2
      handed := run.handed ++ run.queue.consume.1.toList }

/-- The clock does not step backwards. -/
def InTime (run : QueueRun) : QueueOp → Prop
  | .enqueue _ _ now => run.clock ≤ now
  | .consume => True

instance (run : QueueRun) : (op : QueueOp) → Decidable (run.InTime op)
  | .enqueue _ _ now => inferInstanceAs (Decidable (run.clock ≤ now))
  | .consume => isTrue trivial

end QueueRun

end Sprawling.Storage

namespace Sprawling.Storage

open List

namespace EventQueue

section Calls

variable (queue : EventQueue) (key : IdemKey) (payload : Json) (now : Nat)

@[simp] theorem forgetStale_items : (queue.forgetStale now).items = queue.items := by
  unfold forgetStale
  split <;> rfl

@[simp] theorem forgetStale_nextId : (queue.forgetStale now).nextId = queue.nextId := by
  unfold forgetStale
  split <;> rfl

@[simp] theorem forgetStale_capacity : (queue.forgetStale now).capacity = queue.capacity := by
  unfold forgetStale
  split <;> rfl

@[simp] theorem forgetStale_stats : (queue.forgetStale now).stats = queue.stats := by
  simp [stats, len]

theorem forgetStale_seen (other : IdemKey) (t : Nat) :
    (queue.forgetStale now).seen[other]? = some t ↔
      queue.seen[other]? = some t ∧ (now < t + idemWindowMs) := by
  unfold forgetStale
  split
  · next early => simp; omega
  · next late =>
      simp only [Std.ExtTreeMap.getElem?_filter', Option.filter_eq_some_iff, decide_eq_true_eq]
      apply and_congr_right
      intro _
      omega

theorem enqueue_cases :
    (¬ queue.Takes key now ∧ queue.enqueue key payload now =
      (.admitted, { queue.forgetStale now with duplicates := EventQueue.saturatingSucc queue.duplicates })) ∨
    (¬ queue.Takes key now ∧ queue.enqueue key payload now =
      (.shed .capacityExhausted,
        { queue.forgetStale now with shed := EventQueue.saturatingSucc queue.shed })) ∨
    (queue.Takes key now ∧ queue.enqueue key payload now =
      (.admitted,
        { queue.forgetStale now with
          nextId := EventQueue.saturatingSucc queue.nextId
          seen := (queue.forgetStale now).seen.insert key now
          items := queue.items.insert queue.nextId
            { id := queue.nextId, key, payload, enqueuedT := now } })) := by
  have counts : (queue.forgetStale now).duplicates = queue.duplicates ∧
      (queue.forgetStale now).shed = queue.shed := by
    unfold forgetStale
    split <;> exact ⟨rfl, rfl⟩
  unfold enqueue
  by_cases known : key ∈ (queue.forgetStale now).seen
  · left
    refine ⟨fun takes => takes.1 known, ?_⟩
    simp only [if_pos known, counts.1]
  · right
    cases verdict : Backpressure.admission queue.stats { cost := 1 } with
    | admitted =>
      right
      refine ⟨⟨known, verdict⟩, ?_⟩
      simp only [if_neg known, forgetStale_stats, verdict, forgetStale_nextId, forgetStale_items]
    | shed reason =>
      left
      refine ⟨fun takes => ?_, ?_⟩
      · rw [Takes, verdict] at takes
        cases takes.2
      · cases reason
        simp only [if_neg known, forgetStale_stats, verdict, counts.2]

theorem consume_cases :
    (queue.waiting = [] ∧ queue.consume = (none, queue)) ∨
    ∃ id item rest, queue.items.toList = (id, item) :: rest ∧
      queue.consume = (some item, { queue with items := queue.items.erase id }) := by
  cases shape : queue.items.toList with
  | nil =>
    left
    have none : queue.items.keys.head? = none := by
      rw [← Std.ExtTreeMap.map_fst_toList_eq_keys, shape]
      rfl
    exact ⟨by rw [waiting, shape]; rfl, by rw [consume, none]⟩
  | cons entry rest =>
    right
    obtain ⟨id, item⟩ := entry
    have first : queue.items.keys.head? = some id := by
      rw [← Std.ExtTreeMap.map_fst_toList_eq_keys, shape]
      rfl
    have held : queue.items[id]? = some item := by
      rw [← Std.ExtTreeMap.mem_toList_iff_getElem?_eq_some, shape]
      exact mem_cons_self
    exact ⟨id, item, rest, rfl, by rw [consume, first]; simp only [held]⟩

end Calls

theorem le_saturatingSucc {count : Nat} (bounded : count ≤ Word.u64Values - 1) :
    count ≤ EventQueue.saturatingSucc count ∧ EventQueue.saturatingSucc count ≤ Word.u64Values - 1 := by
  unfold EventQueue.saturatingSucc Word.saturatingAdd
  omega

end EventQueue

namespace QueueRun

open Storage.EventQueue

/-- Of two admissions of one key the later one is past the window of the earlier. -/
def Spaced (first second : QueueItem) : Prop :=
  first.key = second.key → first.enqueuedT + idemWindowMs ≤ second.enqueuedT

/-- What every run on the queue keeps. -/
structure Kept (capacity : Nat) (run : QueueRun) : Prop where
  order : (run.handed ++ run.queue.waiting).Sublist run.admitted
  whole : run.queue.nextId < Word.u64Values - 1 →
    run.handed ++ run.queue.waiting = run.admitted ∧
      ∀ id : Nat, id ∈ run.queue.items → id < run.queue.nextId
  ids : ∀ id : Nat, id ∈ run.queue.items → id ≤ run.queue.nextId
  counter : run.queue.nextId ≤ Word.u64Values - 1
  sized : run.queue.capacity = capacity
  room : run.queue.items.size ≤ capacity
  spaced : run.admitted.Pairwise Spaced
  known : ∀ item ∈ run.admitted,
    (∃ t, run.queue.seen[item.key]? = some t ∧ item.enqueuedT ≤ t) ∨
      item.enqueuedT + idemWindowMs ≤ run.clock

theorem kept_start (lane : QueueLane) (capacity : Nat) : Kept capacity (start lane capacity) where
  order := List.Sublist.refl []
  whole _ := ⟨rfl, fun id member => absurd member Std.ExtTreeMap.not_mem_empty⟩
  ids id member := absurd member Std.ExtTreeMap.not_mem_empty
  counter := Nat.zero_le _
  sized := rfl
  room := Nat.zero_le _
  spaced := List.Pairwise.nil
  known item member := by cases member

variable {capacity now : Nat} {run : QueueRun}

theorem Kept.known_forgetStale (kept : Kept capacity run) (later : run.clock ≤ now) :
    ∀ item ∈ run.admitted,
      (∃ t, (run.queue.forgetStale now).seen[item.key]? = some t ∧ item.enqueuedT ≤ t) ∨
        item.enqueuedT + idemWindowMs ≤ now := by
  intro item member
  rcases kept.known item member with ⟨t, held, since⟩ | past
  · by_cases stillOpen : now < t + idemWindowMs
    · exact Or.inl ⟨t, (forgetStale_seen _ _ _ _).mpr ⟨held, stillOpen⟩, since⟩
    · right
      omega
  · right
    omega

variable {queue : EventQueue}

theorem Kept.unstored (kept : Kept capacity run) (later : run.clock ≤ now)
    (items : queue.items = run.queue.items) (nextId : queue.nextId = run.queue.nextId)
    (sized : queue.capacity = run.queue.capacity)
    (seen : queue.seen = (run.queue.forgetStale now).seen) :
    Kept capacity { run with queue, clock := now } where
  order := by
    rw [waiting, items]
    exact kept.order
  whole := by
    rw [nextId, waiting, items]
    exact kept.whole
  ids := by
    rw [nextId, items]
    exact kept.ids
  counter := by
    rw [nextId]
    exact kept.counter
  sized := by
    rw [sized]
    exact kept.sized
  room := by
    rw [items]
    exact kept.room
  spaced := kept.spaced
  known := by
    rw [seen]
    exact kept.known_forgetStale later

variable {payload : Json} {key : IdemKey}

theorem Kept.stored (kept : Kept capacity run)
    (later : run.clock ≤ now) (takes : run.queue.Takes key now) :
    Kept capacity { run with
      queue := { run.queue.forgetStale now with
        nextId := EventQueue.saturatingSucc run.queue.nextId
        seen := (run.queue.forgetStale now).seen.insert key now
        items := run.queue.items.insert run.queue.nextId
          { id := run.queue.nextId, key, payload, enqueuedT := now } }
      clock := now
      admitted := run.admitted ++
        [{ id := run.queue.nextId, key, payload, enqueuedT := now }] } := by
  have notPast : ∀ other : Nat, other ∈ run.queue.items →
      compare other run.queue.nextId ≠ .gt := by
    intro other member
    have below := kept.ids other member
    rw [ne_eq, Nat.compare_eq_gt]
    omega
  have listed := OrdMap.toList_insert_last notPast
    ({ id := run.queue.nextId, key, payload, enqueuedT := now } : QueueItem)
  have grows := le_saturatingSucc kept.counter
  have mine : ∀ item ∈ run.admitted, item.key = key → item.enqueuedT + idemWindowMs ≤ now := by
    intro item member same
    rcases kept.known_forgetStale later item member with ⟨t, held, -⟩ | past
    · rw [same] at held
      exact absurd ((OrdMap.mem_iff_get _ _).mpr ⟨t, held⟩) takes.1
    · exact past
  have fits := Backpressure.admission_admitted takes.2
  constructor
  case order =>
    simp only [waiting, listed, map_append, map_cons, map_nil, ← append_assoc]
    refine List.Sublist.append (List.Sublist.trans ?_ kept.order) (List.Sublist.refl _)
    exact (List.Sublist.refl _).append (filter_sublist.map _)
  case whole =>
    intro small
    have still : EventQueue.saturatingSucc run.queue.nextId < Word.u64Values - 1 := small
    have notFull : run.queue.nextId < Word.u64Values - 1 := by omega
    obtain ⟨all, strict⟩ := kept.whole notFull
    have untouched : run.queue.items.toList.filter (fun entry => entry.1 ≠ run.queue.nextId) =
        run.queue.items.toList := by
      rw [filter_eq_self]
      intro entry member
      have held := Std.ExtTreeMap.mem_toList_iff_getElem?_eq_some.mp member
      have below := strict entry.1 ((OrdMap.mem_iff_get _ _).mpr ⟨entry.2, held⟩)
      simp only [ne_eq, decide_not, Bool.not_eq_true', decide_eq_false_iff_not]
      omega
    refine ⟨?_, fun id member => ?_⟩
    · simp only [waiting, listed, untouched, map_append, map_cons, map_nil, ← append_assoc]
      rw [← all]
      rfl
    · have next : EventQueue.saturatingSucc run.queue.nextId = run.queue.nextId + 1 := by
        unfold EventQueue.saturatingSucc Word.saturatingAdd
        omega
      show id < EventQueue.saturatingSucc run.queue.nextId
      rw [Std.ExtTreeMap.mem_insert, Nat.compare_eq_eq] at member
      rcases member with same | member
      · omega
      · have below := strict id member
        omega
  case ids =>
    intro id member
    show id ≤ EventQueue.saturatingSucc run.queue.nextId
    rw [Std.ExtTreeMap.mem_insert, Nat.compare_eq_eq] at member
    rcases member with same | member
    · omega
    · have below := kept.ids id member
      omega
  case counter => exact grows.2
  case sized =>
    show (run.queue.forgetStale now).capacity = capacity
    rw [forgetStale_capacity, kept.sized]
  case room =>
    have larger := Std.ExtTreeMap.size_insert_le (t := run.queue.items) (k := run.queue.nextId)
      (v := ({ id := run.queue.nextId, key, payload, enqueuedT := now } : QueueItem))
    simp only [stats, len, kept.sized] at fits
    show (run.queue.items.insert _ _).size ≤ capacity
    omega
  case spaced =>
    rw [pairwise_append]
    refine ⟨kept.spaced, pairwise_singleton _ _, fun item member last alone same => ?_⟩
    rw [List.mem_singleton.mp alone] at same ⊢
    exact mine item member same
  case known =>
    intro item member
    show (∃ t, ((run.queue.forgetStale now).seen.insert key now)[item.key]? = some t ∧ _) ∨ _
    rw [OrdMap.get_insert]
    rcases mem_append.mp member with member | alone
    · by_cases same : key = item.key
      · exact Or.inr (mine item member same.symm)
      · rw [if_neg same]
        exact kept.known_forgetStale later item member
    · rw [List.mem_singleton.mp alone]
      exact Or.inl ⟨now, by simp, Nat.le_refl now⟩

theorem Kept.step {op : QueueOp} (kept : Kept capacity run) (inTime : run.InTime op) :
    Kept capacity (run.step op) := by
  cases op with
  | enqueue key payload now =>
    have later : run.clock ≤ now := inTime
    rcases enqueue_cases run.queue key payload now with
      ⟨known, result⟩ | ⟨full, result⟩ | ⟨takes, result⟩
    · simp only [QueueRun.step, result, if_neg known]
      exact kept.unstored later (by simp) (by simp) (by simp) rfl
    · simp only [QueueRun.step, result, if_neg full]
      exact kept.unstored later (by simp) (by simp) (by simp) rfl
    · simp only [QueueRun.step, result, if_pos takes]
      exact kept.stored later takes
  | consume =>
    rcases consume_cases run.queue with ⟨-, result⟩ | ⟨id, item, rest, listed, result⟩
    · simp only [QueueRun.step, result, Option.toList_none, append_nil]
      exact kept
    · have left := OrdMap.toList_erase_head listed
      have before : run.queue.waiting = item :: rest.map Prod.snd := by
        rw [waiting, listed]
        rfl
      have same : (run.handed ++ [item]) ++ rest.map Prod.snd =
          run.handed ++ run.queue.waiting := by
        rw [before, append_assoc]
        rfl
      have fewer : ∀ other : Nat, other ∈ run.queue.items.erase id → other ∈ run.queue.items :=
        fun other member => (Std.ExtTreeMap.mem_erase.mp member).2
      simp only [QueueRun.step, result, Option.toList_some]
      exact {
        order := by
          simp only [waiting, left]
          rw [same]
          exact kept.order
        whole := fun small => by
          simp only [waiting, left]
          rw [same]
          exact ⟨(kept.whole small).1, fun other member =>
            (kept.whole small).2 other (fewer other member)⟩
        ids := fun other member => kept.ids other (fewer other member)
        counter := kept.counter
        sized := kept.sized
        room := Nat.le_trans Std.ExtTreeMap.size_erase_le kept.room
        spaced := kept.spaced
        known := kept.known }

/-- A refused call counts itself, forgets the keys whose window is closed, and touches nothing else
of the queue. -/
structure OnlySheds (before after : EventQueue) (now : Nat) : Prop where
  lane : after.lane = before.lane
  items : after.items = before.items
  nextId : after.nextId = before.nextId
  duplicates : after.duplicates = before.duplicates
  capacity : after.capacity = before.capacity
  shed : after.shed = EventQueue.saturatingSucc before.shed
  seen : ∀ (key : IdemKey) (t : Nat),
    after.seen[key]? = some t ↔ before.seen[key]? = some t ∧ now < t + idemWindowMs

theorem onlySheds_of_shed {reason : Backpressure.ShedReason}
    (refused : (queue.enqueue key payload now).1 = .shed reason) :
    OnlySheds queue (queue.enqueue key payload now).2 now := by
  rcases enqueue_cases queue key payload now with
    ⟨-, result⟩ | ⟨-, result⟩ | ⟨-, result⟩
  · rw [result] at refused
    cases refused
  · have counts : (queue.forgetStale now).lane = queue.lane ∧
        (queue.forgetStale now).duplicates = queue.duplicates := by
      unfold forgetStale
      split <;> exact ⟨rfl, rfl⟩
    rw [result]
    exact ⟨counts.1, by simp, by simp, counts.2, by simp, rfl, forgetStale_seen queue now⟩
  · rw [result] at refused
    cases refused

/-- What holds of a queue after any calls. -/
structure QueueLaws (capacity : Nat) (run : QueueRun) : Prop where
  ordered : run.handed.Sublist run.admitted
  whole : run.queue.nextId < Word.u64Values - 1 →
    run.handed ++ run.queue.waiting = run.admitted
  apart : (run.handed ++ run.queue.waiting).Pairwise Spaced
  bounded : run.queue.len ≤ capacity
  refusals : ∀ (key : IdemKey) (payload : Json) (now : Nat) (reason : Backpressure.ShedReason),
    (run.queue.enqueue key payload now).1 = .shed reason →
      OnlySheds run.queue (run.queue.enqueue key payload now).2 now

theorem queue_laws (lane : QueueLane) (capacity : Nat) (ops : List QueueOp)
    (inTime : Machine.Meets step InTime (start lane capacity) ops) :
    QueueLaws capacity (ops.foldl step (start lane capacity)) := by
  have kept : Kept capacity (ops.foldl step (start lane capacity)) :=
    Machine.run_keeps (fun _ _ held meets => Kept.step held meets) (kept_start lane capacity) inTime
  refine ⟨?_, fun small => (kept.whole small).1, kept.spaced.sublist kept.order, ?_,
    fun key payload now reason => onlySheds_of_shed⟩
  · exact (sublist_append_left _ _).trans kept.order
  · exact Nat.le_trans (Nat.min_le_left _ _) kept.room

theorem replicate_sized (byte : UInt8) : (List.replicate 16 byte).length = 16 :=
  length_replicate

def idemKey (byte : UInt8) : IdemKey := ⟨⟨List.replicate 16 byte, replicate_sized byte⟩⟩

/-- A key asked for at the start and again as its window closes. -/
def repeatedKey : List QueueOp :=
  [.enqueue (idemKey 1) .null 0, .enqueue (idemKey 1) .null idemWindowMs]

/-- Three keys come to a queue of two and one is handed out before the first comes again. -/
def fullQueue : List QueueOp :=
  [.enqueue (idemKey 1) .null 0, .enqueue (idemKey 2) .null 1, .enqueue (idemKey 3) .null 2, .consume,
    .enqueue (idemKey 1) .null idemWindowMs]

theorem queue_laws_repeatedKey :
    QueueLaws 2 (repeatedKey.foldl step (start .signal 2)) ∧
      QueueLaws 2 (fullQueue.foldl step (start .signal 2)) ∧
      (fullQueue.foldl step (start .signal 2)).queue.shed = 1 ∧
      (fullQueue.foldl step (start .signal 2)).handed.map QueueItem.key = [idemKey 1] :=
  ⟨queue_laws .signal 2 repeatedKey (by decide +kernel),
    queue_laws .signal 2 fullQueue (by decide +kernel), by decide +kernel, by decide +kernel⟩

/-- Two items of one key wait together once its window has closed, and a refused call forgets a key
whose window has closed. -/
theorem repeatedKey_waits_twice :
    ¬ (∀ (lane : QueueLane) (capacity : Nat) (ops : List QueueOp),
      Machine.Meets step InTime (start lane capacity) ops →
        ((ops.foldl step (start lane capacity)).queue.waiting.map QueueItem.key).Nodup) ∧
    ¬ ∀ (lane : QueueLane) (capacity : Nat) (ops : List QueueOp)
      (key : IdemKey) (payload : Json) (now : Nat),
      Machine.Meets step InTime (start lane capacity) (ops ++ [.enqueue key payload now]) →
        let queue := (ops.foldl step (start lane capacity)).queue
        (queue.enqueue key payload now).1 = .shed .capacityExhausted →
          (queue.enqueue key payload now).2.seen = queue.seen := by
  constructor
  · intro alone
    have twice := alone .signal 2 repeatedKey (by decide +kernel)
    have keys : ((repeatedKey.foldl step (start .signal 2)).queue.waiting.map QueueItem.key) =
        [idemKey 1, idemKey 1] := by decide +kernel
    rw [keys] at twice
    revert twice
    decide +kernel
  · intro kept
    have same := kept .signal 1 [.enqueue (idemKey 1) .null 0] (idemKey 2) .null idemWindowMs
      (by decide +kernel) (by decide +kernel)
    have sizes := congrArg Std.ExtTreeMap.size same
    revert sizes
    decide +kernel

end QueueRun

end Sprawling.Storage
