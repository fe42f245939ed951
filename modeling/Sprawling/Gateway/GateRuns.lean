import Mathlib.Data.List.Induction
import Mathlib.Data.List.Sort
import Sprawling.Base.Machine
import Sprawling.Base.Trace
import Sprawling.Gateway.Gate

/-! What any interleaving of the calls through one gate keeps, whatever instants they read. -/

namespace Sprawling

open List Word Trace OrdMap

/-- What a step at the gate brought about. -/
inductive GateEvent where
  | issued (ticket : Nat)
  | granted (ticket now inUse limit : Nat)
  | shed (ticket : Nat)
  | gaveBack (ticket : Nat)
  | limited (until_ : Nat)
  | sent (key : PrefixKey) (prewarm : Prewarm) (since : Nat)
  | held (key : PrefixKey) (on_ : Prewarm) (now until_ : Nat)
  | settled (key : PrefixKey) (prewarm : Prewarm)
  | lapsed (key : PrefixKey) (prewarm : Prewarm) (now : Nat)
  | stayed (on_ : Prewarm) (now : Nat)
  | released (key : PrefixKey) (on_ : Prewarm) (ended : PrewarmEnd)

/-- One step of one call. -/
inductive GateOp where
  /-- The call enters `admit` and is issued a ticket. -/
  | enter
  /-- The call with this ticket goes round the loop of `admit`. -/
  | pass (ticket arrived bound now : Nat) (endpoint : String)
  /-- The admitted call of this ticket settles its outcome. -/
  | settle (ticket : Nat) (outcome : CallOutcome) (now : Nat)
  /-- The guard of this ticket is dropped. -/
  | drop (ticket : Nat)
  /-- The call reaches the hold. -/
  | arrive (key : PrefixKey) (now : Nat)
  /-- The call that waits for a pre-warm goes round the loop of `wait_for`. -/
  | waitFor (key : PrefixKey) (on_ : Prewarm) (now : Nat)
  /-- The call that sent a pre-warm settles it. -/
  | settlePrewarm (prewarm : Prewarm) (ended : PrewarmEnd) (now : Nat)

/-- A gate, the tickets of the guards that are alive, and what has happened. -/
structure Calls where
  gate : Gate
  guards : List Nat
  events : List GateEvent

namespace GateEvent

def isIssued : GateEvent → Bool
  | .issued _ => true
  | _ => false

def isGranted : GateEvent → Bool
  | .granted _ _ _ _ => true
  | _ => false

def isGaveBack : GateEvent → Bool
  | .gaveBack _ => true
  | _ => false

def isSent : GateEvent → Bool
  | .sent _ _ _ => true
  | _ => false

/-- The event is one of the queue's, not of the hold's. -/
def atQueue : GateEvent → Bool
  | .issued _ | .granted _ _ _ _ | .shed _ | .gaveBack _ | .limited _ => true
  | .sent _ _ _ | .held _ _ _ _ | .settled _ _ | .lapsed _ _ _ | .stayed _ _
  | .released _ _ _ => false

/-- What an event makes of the pre-warm of a key that is in flight. -/
def flies (key : PrefixKey) (warming : Option Warming) : GateEvent → Option Warming
  | .sent other prewarm since => if other = key then some ⟨prewarm, since⟩ else warming
  | .settled other _ => if other = key then none else warming
  | .lapsed other _ _ => if other = key then none else warming
  | _ => warming

/-- The pre-warm of a key that is in flight: sent, and neither settled nor lapsed since. -/
def flying (events : List GateEvent) (key : PrefixKey) : Option Warming :=
  events.foldl (flies key) none

/-- The event is an end of a pre-warm of a key. -/
def Ends (key : PrefixKey) (prewarm : Prewarm) : GateEvent → Prop
  | .settled other ended => other = key ∧ ended = prewarm
  | .lapsed other ended _ => other = key ∧ ended = prewarm
  | _ => False

/-- What each event owes to the events before it. -/
def Due (before : List GateEvent) : GateEvent → Prop
  | .issued ticket => ticket = min (before.countP isIssued) (u64Values - 1)
  | .granted ticket now inUse limit =>
    inUse ≤ limit ∧
    (∀ other at_ used lim, .granted other at_ used lim ∈ before → other ≤ ticket) ∧
    (∀ earlier < ticket, .issued earlier ∈ before →
      .shed earlier ∈ before ∨ ∃ at_ used lim, .granted earlier at_ used lim ∈ before) ∧
    ∀ until_, .limited until_ ∈ before → until_ ≤ now
  | .sent key prewarm _ =>
    flying before key = none ∧ prewarm.number = before.countP isSent % u64Values
  | .held key on_ now until_ =>
    ∃ since, flying before key = some ⟨on_, since⟩ ∧ until_ = holdMax + since ∧ now < until_
  | .settled key prewarm => ∃ since, flying before key = some ⟨prewarm, since⟩
  | .lapsed key prewarm now =>
    ∃ since, flying before key = some ⟨prewarm, since⟩ ∧ holdMax + since ≤ now
  | .stayed on_ now => ∃ key since, flying before key = some ⟨on_, since⟩ ∧ now < holdMax + since
  | .released key on_ _ =>
    (∀ other since, flying before other ≠ some ⟨on_, since⟩) ∧
    ∀ first now until_ later, before = first ++ .held key on_ now until_ :: later →
      ∃ event ∈ later, Ends key on_ event
  | .shed _ | .gaveBack _ | .limited _ => True

end GateEvent

namespace Calls

variable (horizon : Nat)

def start (ceiling : MaxInFlight) : Calls :=
  { gate := .admitting ceiling, guards := [], events := [] }

/-- The pre-warms that lapse, as events. -/
def lapses (holds : Holds) (now : Nat) : List GateEvent :=
  (holds.lapsed horizon now).map fun entry => .lapsed entry.1 entry.2 now

def enter (calls : Calls) : Calls :=
  let (ticket, queue) := calls.gate.queue.arrive
  { calls with
    gate := { calls.gate with queue }
    events := calls.events ++ [.issued ticket] }

def pass (calls : Calls) (ticket arrived bound now : Nat) (endpoint : String) : Calls :=
  match calls.gate.pass ticket arrived bound now endpoint with
  | (.admitted, gate) =>
    { gate
      guards := calls.guards ++ [ticket]
      events := calls.events ++
        [.granted ticket now gate.queue.permits.inUse gate.queue.permits.limit] }
  | (.refused _, gate) => { calls with gate, events := calls.events ++ [.shed ticket] }
  | (.sleep _, gate) => { calls with gate }

/-- The instant before which a provider asked for nothing to be sent. -/
def stated (outcome : CallOutcome) (now : Nat) : Option Nat :=
  match outcome with
  | .answered => none
  | .failed provider retryAfterMs =>
    if provider = some (.refused tooManyRequests) then
      (retryAfterMs.map (· * 10 ^ 6)).bind (checkedAdd horizon now)
    else none

def settle (calls : Calls) (ticket : Nat) (outcome : CallOutcome) (now : Nat) : Calls :=
  if ticket ∈ calls.guards then
    { calls with
      gate := calls.gate.settle horizon outcome now
      events := calls.events ++ (stated horizon outcome now).toList.map .limited }
  else calls

def drop (calls : Calls) (ticket : Nat) : Calls :=
  if ticket ∈ calls.guards then
    { gate := calls.gate.giveBack
      guards := calls.guards.erase ticket
      events := calls.events ++ [.gaveBack ticket] }
  else calls

def arrive (calls : Calls) (key : PrefixKey) (now : Nat) : Calls :=
  let expired := calls.events ++ lapses horizon calls.gate.holds now
  match calls.gate.arrive horizon key now with
  | (.go, gate) => { calls with gate, events := expired }
  | (.wait on_ until_, gate) =>
    { calls with gate, events := expired ++ [.held key on_ now until_] }
  | (.send prewarm _, gate) => { calls with gate, events := expired ++ [.sent key prewarm now] }

def waitFor (calls : Calls) (key : PrefixKey) (on_ : Prewarm) (now : Nat) : Calls :=
  let expired := calls.events ++ lapses horizon calls.gate.holds now
  match calls.gate.waitFor horizon key on_ now with
  | (none, gate) => { calls with gate, events := expired ++ [.stayed on_ now] }
  | (some ended, gate) => { calls with gate, events := expired ++ [.released key on_ ended] }

def settlePrewarm (calls : Calls) (prewarm : Prewarm) (ended : PrewarmEnd) (now : Nat) : Calls :=
  { calls with
    gate := calls.gate.settlePrewarm horizon prewarm ended now
    events := calls.events ++
      (calls.gate.holds.keyOf prewarm).toList.map (.settled · prewarm) }

def step (calls : Calls) : GateOp → Calls
  | .enter => calls.enter
  | .pass ticket arrived bound now endpoint => calls.pass ticket arrived bound now endpoint
  | .settle ticket outcome now => calls.settle horizon ticket outcome now
  | .drop ticket => calls.drop ticket
  | .arrive key now => calls.arrive horizon key now
  | .waitFor key on_ now => calls.waitFor horizon key on_ now
  | .settlePrewarm prewarm ended now => calls.settlePrewarm horizon prewarm ended now

/-- Any interleaving of the steps of any number of calls. -/
def run (ceiling : MaxInFlight) (ops : List GateOp) : Calls :=
  ops.foldl (step horizon) (start ceiling)

end Calls

namespace GateEvent

variable {events : List GateEvent} {event : GateEvent} {key : PrefixKey}

@[simp] theorem flying_concat :
    flying (events ++ [event]) key = flies key (flying events key) event := by
  unfold flying
  rw [foldl_append]
  rfl

theorem ended_or_flying (always : Trace.Always Due events) {first later : List GateEvent}
    {on_ : Prewarm} {now until_ : Nat}
    (place : events = first ++ .held key on_ now until_ :: later) :
    (∃ event ∈ later, Ends key on_ event) ∨ ∃ since, flying events key = some ⟨on_, since⟩ := by
  induction later using List.reverseRecOn generalizing events with
  | nil =>
    rw [place, always_concat] at always
    obtain ⟨since, flown, -⟩ := always.2
    right
    exact ⟨since, by rw [place, flying_concat, flown]; rfl⟩
  | append_singleton later event ih =>
    have split : events = (first ++ .held key on_ now until_ :: later) ++ [event] := by
      rw [place, append_assoc, cons_append]
    rw [split, always_concat] at always
    rcases ih always.1 rfl with ⟨ended, member, ends⟩ | ⟨since, flown⟩
    · exact Or.inl ⟨ended, mem_append_left _ member, ends⟩
    · -- The event keeps the pre-warm in flight unless it ends it.
      have due := always.2
      rw [split, flying_concat, flown]
      cases event with
      | sent other prewarm sentAt =>
        by_cases same : other = key
        · subst same
          rw [Due, flown] at due
          cases due.1
        · exact Or.inr ⟨since, if_neg same⟩
      | settled other prewarm =>
        by_cases same : other = key
        · subst same
          obtain ⟨_, again⟩ := due
          rw [flown] at again
          cases again
          exact Or.inl ⟨_, mem_append_right _ mem_cons_self, rfl, rfl⟩
        · exact Or.inr ⟨since, if_neg same⟩
      | lapsed other prewarm at_ =>
        by_cases same : other = key
        · subst same
          obtain ⟨_, again, -⟩ := due
          rw [flown] at again
          cases again
          exact Or.inl ⟨_, mem_append_right _ mem_cons_self, rfl, rfl⟩
        · exact Or.inr ⟨since, if_neg same⟩
      | issued | granted | shed | gaveBack | limited | held | stayed | released =>
        exact Or.inr ⟨since, rfl⟩

end GateEvent

/-- The hold's map is what the events say is in flight. -/
structure HoldKept (horizon : Nat) (holds : Holds) (events : List GateEvent) : Prop where
  flying : ∀ key, holds.warming[key]? = GateEvent.flying events key
  number : holds.next = events.countP GateEvent.isSent % u64Values
  bounded : ∀ (key : PrefixKey) (warming : Warming), holds.warming[key]? = some warming →
    holdMax + warming.since ≤ horizon

namespace HoldKept

open GateEvent

variable {horizon : Nat} {holds : Holds} {events : List GateEvent}

theorem still (kept : HoldKept horizon holds events) {event : GateEvent}
    (flies : ∀ key warming, GateEvent.flies key warming event = warming)
    (unsent : event.isSent = false) : HoldKept horizon holds (events ++ [event]) where
  flying key := by rw [flying_concat, flies, kept.flying]
  number := by simp [countP_append, unsent, kept.number]
  bounded := kept.bounded

@[simp] theorem takeOff_warming (key : PrefixKey) (by_ : Prewarm × PrewarmEnd) (now : Nat) :
    (holds.takeOff horizon key by_ now).warming = holds.warming.erase key := by
  simp only [Holds.takeOff, Holds.warmed]
  split <;> simp only

@[simp] theorem takeOff_next (key : PrefixKey) (by_ : Prewarm × PrewarmEnd) (now : Nat) :
    (holds.takeOff horizon key by_ now).next = holds.next := by
  simp only [Holds.takeOff, Holds.warmed]
  split <;> simp only

theorem takeOff (kept : HoldKept horizon holds events) (key : PrefixKey)
    (by_ : Prewarm × PrewarmEnd) (now : Nat) {event : GateEvent}
    (flies : ∀ other warming, GateEvent.flies other warming event =
      if key = other then none else warming) (unsent : event.isSent = false) :
    HoldKept horizon (holds.takeOff horizon key by_ now) (events ++ [event]) where
  flying other := by rw [flying_concat, flies, takeOff_warming, get_erase, kept.flying]
  number := by simp [countP_append, unsent, kept.number]
  bounded other warming found := by
    rw [takeOff_warming, get_erase] at found
    split at found
    · cases found
    · exact kept.bounded other warming found

variable {now : Nat}

theorem lapse_all {entries : List (PrefixKey × Prewarm)} (kept : HoldKept horizon holds events)
    (always : Trace.Always Due events) (distinct : (entries.map Prod.fst).Nodup)
    (old : ∀ entry ∈ entries, ∃ since, holds.warming[entry.1]? = some ⟨entry.2, since⟩ ∧ holdMax + since ≤ now) :
    Trace.Always Due (events ++ entries.map fun entry => .lapsed entry.1 entry.2 now) ∧
    HoldKept horizon
      (entries.foldl (fun holds entry => holds.takeOff horizon entry.1 (entry.2, .timedOut) now)
        holds)
      (events ++ entries.map fun entry => .lapsed entry.1 entry.2 now) ∧
    ∀ key, (entries.foldl
        (fun holds entry => holds.takeOff horizon entry.1 (entry.2, .timedOut) now)
        holds).warming[key]? =
      if key ∈ entries.map Prod.fst then none else holds.warming[key]? := by
  induction entries generalizing holds events with
  | nil => simpa using ⟨always, kept⟩
  | cons entry entries ih =>
    obtain ⟨since, found, aged⟩ := old entry mem_cons_self
    rw [map_cons, nodup_cons] at distinct
    have due : Due events (.lapsed entry.1 entry.2 now) := ⟨since, kept.flying _ ▸ found, aged⟩
    have next := ih
      (kept.takeOff entry.1 (entry.2, .timedOut) now (fun _ _ => rfl) rfl)
      (always_concat.mpr ⟨always, due⟩) distinct.2 ?_
    · rw [append_assoc] at next
      refine ⟨next.1, next.2.1, fun key => ?_⟩
      rw [foldl_cons, next.2.2 key, takeOff_warming, get_erase]
      simp only [map_cons, mem_cons]
      by_cases same : entry.1 = key
      · simp [same]
      · have other : ¬key = entry.1 := fun reversed => same reversed.symm
        simp only [same, other, if_false, false_or]
    · intro other member
      obtain ⟨since, found, aged⟩ := old other (mem_cons_of_mem _ member)
      refine ⟨since, ?_, aged⟩
      rw [takeOff_warming, get_erase, if_neg]
      · exact found
      · intro same
        exact distinct.1 (same ▸ mem_map_of_mem member)

variable {entry : PrefixKey × Prewarm}

theorem mem_lapsed :
    entry ∈ holds.lapsed horizon now ↔ ∃ since, holds.warming[entry.1]? = some ⟨entry.2, since⟩ ∧
      (checkedAdd horizon since holdMax).all (· ≤ now) = true := by
  simp only [Holds.lapsed, mem_map, mem_filter, Prod.exists,
    Std.ExtTreeMap.mem_toList_iff_getElem?_eq_some]
  constructor
  · rintro ⟨key, ⟨prewarm, since⟩, ⟨found, aged⟩, rfl⟩
    exact ⟨since, found, aged⟩
  · rintro ⟨since, found, aged⟩
    exact ⟨entry.1, ⟨entry.2, since⟩, ⟨found, aged⟩, rfl⟩

theorem lapsed_iff (kept : HoldKept horizon holds events) :
    entry ∈ holds.lapsed horizon now ↔
      ∃ since, holds.warming[entry.1]? = some ⟨entry.2, since⟩ ∧ holdMax + since ≤ now := by
  rw [mem_lapsed]
  apply exists_congr
  intro since
  apply and_congr_right
  intro found
  rw [checkedAdd_eq_some.mpr ⟨rfl, kept.bounded _ _ found⟩]
  simp

theorem nodup_lapsed (now : Nat) : ((holds.lapsed horizon now).map Prod.fst).Nodup := by
  have sub : ((holds.lapsed horizon now).map Prod.fst).Sublist
      (holds.warming.toList.map Prod.fst) := by
    rw [Holds.lapsed, map_map]
    exact filter_sublist.map _
  exact sub.nodup (nodup_fst_toList _)

/-- After the clock is read nothing in flight is `holdMax` old, and what lapsed was. -/
theorem expire (kept : HoldKept horizon holds events) (always : Trace.Always Due events)
    (now : Nat) :
    Trace.Always Due (events ++ Calls.lapses horizon holds now) ∧
    HoldKept horizon (holds.expire horizon now) (events ++ Calls.lapses horizon holds now) ∧
    ∀ (key : PrefixKey) (warming : Warming),
      (holds.expire horizon now).warming[key]? = some warming →
        holds.warming[key]? = some warming ∧ now < holdMax + warming.since := by
  have unmarked : HoldKept horizon
      { holds with warm := holds.warm.filter fun _ warm => now < warm.until_ } events :=
    ⟨kept.flying, kept.number, kept.bounded⟩
  have lapse := unmarked.lapse_all always (nodup_lapsed now) fun entry => kept.lapsed_iff.mp
  refine ⟨lapse.1, lapse.2.1, fun key warming found => ?_⟩
  rw [Holds.expire, lapse.2.2 key] at found
  split at found
  · cases found
  · next young =>
      refine ⟨found, ?_⟩
      by_contra old
      apply young
      apply mem_map_of_mem (a := (key, warming.prewarm))
      exact kept.lapsed_iff.mpr ⟨warming.since, found, by omega⟩

variable {prewarm : Prewarm}

theorem waits_iff :
    holds.waits prewarm = true ↔
      ∃ (key : PrefixKey) (since : Nat), holds.warming[key]? = some ⟨prewarm, since⟩ := by
  simp only [Holds.waits, any_eq_true, decide_eq_true_eq, Prod.exists,
    Std.ExtTreeMap.mem_toList_iff_getElem?_eq_some]
  constructor
  · rintro ⟨key, warming, found, rfl⟩
    exact ⟨key, warming.since, found⟩
  · rintro ⟨key, since, found⟩
    exact ⟨key, _, found, rfl⟩

theorem keyOf_eq_some {key : PrefixKey}
    (found : holds.keyOf prewarm = some key) :
    ∃ since, holds.warming[key]? = some ⟨prewarm, since⟩ := by
  simp only [Holds.keyOf, Option.map_eq_some_iff] at found
  obtain ⟨⟨listed, warming⟩, first, rfl⟩ := found
  have numbered : warming.prewarm = prewarm := by simpa using find?_some first
  have member := mem_of_find?_eq_some first
  rw [Std.ExtTreeMap.mem_toList_iff_getElem?_eq_some] at member
  exact ⟨warming.since, by rw [member, ← numbered]⟩

end HoldKept

/-- What the queue keeps of the tickets and permits the events tell of. -/
structure QueueKept (ceiling : MaxInFlight) (queue : Queue) (guards : List Nat)
    (events : List GateEvent) : Prop where
  cap : queue.permits.cap = ceiling
  lower : 1 ≤ queue.permits.limit
  upper : queue.permits.limit ≤ ceiling.value
  alive : guards.length = queue.permits.inUse
  taken : events.countP GateEvent.isGranted =
    events.countP GateEvent.isGaveBack + queue.permits.inUse
  limits : ∀ until_, .limited until_ ∈ events →
    ∃ instant ∈ queue.permits.holdUntil, until_ ≤ instant
  number : queue.next = min (events.countP GateEvent.isIssued) (u64Values - 1)
  sorted : queue.waiting.Pairwise (· ≤ ·)
  below : ∀ ticket ∈ queue.waiting, ticket ≤ queue.next
  granted : ∀ ticket now inUse limit, .granted ticket now inUse limit ∈ events →
    ticket ≤ queue.next ∧ ∀ other ∈ queue.waiting, ticket ≤ other
  issued : ∀ ticket, .issued ticket ∈ events →
    ticket ∈ queue.waiting ∨ .shed ticket ∈ events ∨
      ∃ now inUse limit, .granted ticket now inUse limit ∈ events

namespace QueueKept

open GateEvent

variable {ceiling : MaxInFlight} {queue : Queue} {guards : List Nat} {events : List GateEvent}

theorem still (kept : QueueKept ceiling queue guards events) {event : GateEvent}
    (aside : event.atQueue = false) : QueueKept ceiling queue guards (events ++ [event]) := by
  cases event with
  | issued | granted | shed | gaveBack | limited => cases aside
  | sent | held | settled | lapsed | stayed | released =>
    exact { kept with
      taken := by simpa [isGranted, isGaveBack] using kept.taken
      limits := by simpa using kept.limits
      number := by simpa [isIssued] using kept.number
      granted := by simpa using kept.granted
      issued := by simpa using kept.issued }

theorem stillAll (kept : QueueKept ceiling queue guards events) {more : List GateEvent}
    (aside : ∀ event ∈ more, event.atQueue = false) :
    QueueKept ceiling queue guards (events ++ more) := by
  induction more generalizing events with
  | nil => rwa [append_nil]
  | cons event more ih =>
    rw [← singleton_append, ← append_assoc]
    apply ih
    · exact kept.still (aside event mem_cons_self)
    · intro other member
      exact aside other (mem_cons_of_mem _ member)

theorem start : QueueKept ceiling (.over_ (.new ceiling)) [] [] where
  cap := rfl
  lower := ceiling.lower
  upper := Nat.le_refl _
  alive := rfl
  taken := rfl
  limits _ member := by cases member
  number := rfl
  sorted := List.Pairwise.nil
  below _ member := by cases member
  granted _ _ _ _ member := by cases member
  issued _ member := by cases member

/-- A ticket is issued at the back of the queue. -/
theorem arrive (kept : QueueKept ceiling queue guards events) :
    QueueKept ceiling queue.arrive.2 guards (events ++ [.issued queue.arrive.1]) where
  cap := kept.cap
  lower := kept.lower
  upper := kept.upper
  alive := kept.alive
  taken := by simpa [isGranted, isGaveBack, Queue.arrive] using kept.taken
  limits := by simpa [Queue.arrive] using kept.limits
  number := by
    have before := kept.number
    simp only [Queue.arrive, Word.saturatingAdd, countP_append, countP_singleton, isIssued, if_true]
    omega
  sorted := by
    refine pairwise_append.mpr ⟨kept.sorted, pairwise_singleton _ _, ?_⟩
    intro ticket member last isLast
    rw [mem_singleton.mp isLast]
    exact kept.below ticket member
  below ticket member := by
    have bound : queue.next ≤ u64Values - 1 := by
      rw [kept.number]
      exact Nat.min_le_right _ _
    have lower : ticket ≤ queue.next := by
      rcases mem_append.mp member with earlier | last
      · exact kept.below ticket earlier
      · rw [mem_singleton.mp last]
    simp only [Queue.arrive, Word.saturatingAdd]
    omega
  granted ticket now inUse limit member := by
    have bound : queue.next ≤ u64Values - 1 := by
      rw [kept.number]
      exact Nat.min_le_right _ _
    have earlier := kept.granted ticket now inUse limit (by simpa using member)
    refine ⟨?_, ?_⟩
    · simp only [Queue.arrive, Word.saturatingAdd]
      omega
    · intro other listed
      rcases mem_append.mp listed with before | last
      · exact earlier.2 other before
      · rw [mem_singleton.mp last]
        exact earlier.1
  issued ticket member := by
    rcases mem_append.mp member with earlier | last
    · rcases kept.issued ticket earlier with waits | gone
      · exact Or.inl (mem_append_left _ waits)
      · right
        simpa using gone
    · left
      cases mem_singleton.mp last
      exact mem_append_right _ mem_cons_self

variable {permits : Permits} {now : Nat} {after : Permits}

theorem take_granted (taken : permits.take now = (.granted, after)) :
    permits.inUse < permits.limit ∧ (∀ instant ∈ permits.holdUntil, instant ≤ now) ∧
      after = { permits with inUse := Word.saturatingAdd u32Values permits.inUse 1 } := by
  unfold Permits.take at taken
  split at taken
  · cases taken
  · next passed =>
      split at taken
      · next free =>
          cases taken
          refine ⟨free, fun instant held => ?_, rfl⟩
          rw [Option.filter_eq_none_iff] at passed
          have late := passed instant held
          simp only [decide_eq_true_eq] at late
          omega
      · cases taken

theorem take_refused {answer : Take}
    (taken : permits.take now = (answer, after)) (refused : answer ≠ .granted) :
    after = permits := by
  unfold Permits.take at taken
  split at taken
  · cases taken
    rfl
  · split at taken
    · cases taken
      exact absurd rfl refused
    · cases taken
      rfl

variable {after : Queue} {ticket : Nat}

theorem tryTake_granted (tried : queue.tryTake ticket now = (.granted, after)) :
    ∃ rest permits, queue.waiting = ticket :: rest ∧
      queue.permits.take now = (.granted, permits) ∧
      after = { queue with permits, waiting := rest } := by
  unfold Queue.tryTake at tried
  split at tried
  · cases tried
  · next head =>
      rw [not_not, head?_eq_some_iff] at head
      obtain ⟨rest, shape⟩ := head
      split at tried
      · next permits granted =>
          cases tried
          exact ⟨rest, permits, shape, granted, by rw [shape, tail_cons]⟩
      · cases tried
      · cases tried

theorem tryTake_wait {instant : Option Nat}
    (tried : queue.tryTake ticket now = (.wait instant, after)) : after = queue := by
  unfold Queue.tryTake at tried
  split at tried
  · cases tried
    rfl
  · split at tried
    · cases tried
    · next permits full =>
        cases tried
        rw [take_refused full (by decide)]
    · next until_ permits held =>
        cases tried
        rw [take_refused held (by simp)]

theorem grant (kept : QueueKept ceiling queue guards events)
    (tried : queue.tryTake ticket now = (.granted, after)) :
    QueueKept ceiling after (guards ++ [ticket])
      (events ++ [.granted ticket now after.permits.inUse after.permits.limit]) ∧
    Due events (.granted ticket now after.permits.inUse after.permits.limit) := by
  obtain ⟨rest, permits, shape, taken, rfl⟩ := tryTake_granted tried
  obtain ⟨free, passed, rfl⟩ := take_granted taken
  have sorted := kept.sorted
  rw [shape, pairwise_cons] at sorted
  have counted : Word.saturatingAdd u32Values queue.permits.inUse 1 =
      queue.permits.inUse + 1 := by
    apply saturatingAdd_of_lt
    have := kept.upper
    have := ceiling.upper
    simp only [inFlightMax, u32Values] at *
    omega
  constructor
  · exact
      { cap := kept.cap
        lower := kept.lower
        upper := kept.upper
        alive := by
          rw [length_append, kept.alive]
          exact counted.symm
        taken := by
          have before := kept.taken
          simp only [countP_append, countP_singleton, isGranted, isGaveBack, if_true, counted]
          simp
          omega
        limits := by simpa using kept.limits
        number := by simpa [isIssued] using kept.number
        sorted := sorted.2
        below := fun other member => kept.below other (shape ▸ mem_cons_of_mem _ member)
        granted := fun other at_ inUse limit member => by
          rcases mem_append.mp member with earlier | last
          · have before := kept.granted other at_ inUse limit earlier
            refine ⟨before.1, fun next listed => before.2 next ?_⟩
            rw [shape]
            exact mem_cons_of_mem _ listed
          · cases mem_singleton.mp last
            exact ⟨kept.below ticket (shape ▸ mem_cons_self), sorted.1⟩
        issued := fun other member => by
          rcases kept.issued other (by simpa using member) with waits | shed | ⟨at_, used, limit, before⟩
          · rw [shape] at waits
            rcases mem_cons.mp waits with rfl | later
            · exact Or.inr (Or.inr ⟨_, _, _, mem_append_right _ mem_cons_self⟩)
            · exact Or.inl later
          · exact Or.inr (Or.inl (mem_append_left _ shed))
          · exact Or.inr (Or.inr ⟨at_, used, limit, mem_append_left _ before⟩) }
  · refine ⟨?_, ?_, ?_, ?_⟩
    · show Word.saturatingAdd u32Values queue.permits.inUse 1 ≤ queue.permits.limit
      omega
    · intro other at_ used limit before
      apply (kept.granted other at_ used limit before).2
      rw [shape]
      exact mem_cons_self
    · intro earlier less member
      rcases kept.issued earlier member with waits | gone
      · rw [shape] at waits
        rcases mem_cons.mp waits with rfl | later
        · omega
        · have := sorted.1 earlier later
          omega
      · exact gone
    · intro until_ member
      obtain ⟨instant, held, bound⟩ := kept.limits until_ member
      have := passed instant held
      omega

/-- A ticket leaves the queue wherever it stands. -/
theorem shed (kept : QueueKept ceiling queue guards events) (ticket : Nat) :
    QueueKept ceiling (queue.shed ticket) guards (events ++ [.shed ticket]) where
  cap := kept.cap
  lower := kept.lower
  upper := kept.upper
  alive := kept.alive
  taken := by simpa [isGranted, isGaveBack, Queue.shed] using kept.taken
  limits := by simpa [Queue.shed] using kept.limits
  number := by simpa [isIssued, Queue.shed] using kept.number
  sorted := kept.sorted.filter _
  below other member := kept.below other (mem_of_mem_filter member)
  granted other now inUse limit member := by
    have before := kept.granted other now inUse limit (by simpa using member)
    exact ⟨before.1, fun next listed => before.2 next (mem_of_mem_filter listed)⟩
  issued other member := by
    rcases kept.issued other (by simpa using member) with waits | shed | ⟨now, used, limit, before⟩
    · by_cases same : other = ticket
      · subst same
        exact Or.inr (Or.inl (mem_append_right _ mem_cons_self))
      · left
        exact mem_filter.mpr ⟨waits, by simpa using same⟩
    · exact Or.inr (Or.inl (mem_append_left _ shed))
    · exact Or.inr (Or.inr ⟨now, used, limit, mem_append_left _ before⟩)

theorem rebound (kept : QueueKept ceiling queue guards events)
    (cap : permits.cap = queue.permits.cap) (used : permits.inUse = queue.permits.inUse)
    (lower : 1 ≤ permits.limit) (upper : permits.limit ≤ ceiling.value)
    (holds : ∀ instant ∈ queue.permits.holdUntil, ∃ later ∈ permits.holdUntil, instant ≤ later) :
    QueueKept ceiling { queue with permits } guards events :=
  { kept with
    cap := cap.trans kept.cap
    lower
    upper
    alive := kept.alive.trans used.symm
    taken := by rw [kept.taken, used]
    limits := fun until_ member => by
      obtain ⟨instant, held, bound⟩ := kept.limits until_ member
      obtain ⟨later, longer, after⟩ := holds instant held
      exact ⟨later, longer, by omega⟩ }

theorem limit (kept : QueueKept ceiling queue guards events) {until_ : Nat}
    (holds : ∃ instant ∈ queue.permits.holdUntil, until_ ≤ instant) :
    QueueKept ceiling queue guards (events ++ [.limited until_]) :=
  { kept with
    taken := by simpa [isGranted, isGaveBack] using kept.taken
    limits := fun other member => by
      rcases mem_append.mp member with earlier | last
      · exact kept.limits other earlier
      · cases mem_singleton.mp last
        exact holds
    number := by simpa [isIssued] using kept.number
    granted := by simpa using kept.granted
    issued := by simpa using kept.issued }

theorem succeeded (kept : QueueKept ceiling queue guards events) (now : Nat) :
    QueueKept ceiling { queue with permits := queue.permits.succeeded now } guards events := by
  have lower := kept.lower
  have upper := kept.upper
  have bound := ceiling.upper
  simp only [Permits.succeeded]
  split
  · exact kept.rebound rfl rfl lower upper fun instant held => ⟨instant, held, Nat.le_refl _⟩
  · split
    · next room =>
        simp only [Bool.and_eq_true, decide_eq_true_eq, kept.cap] at room
        apply kept.rebound
        · rfl
        · rfl
        · simp only [Word.saturatingAdd, u32Values]
          omega
        · simp only [Word.saturatingAdd]
          omega
        · exact fun instant held => ⟨instant, held, Nat.le_refl _⟩
    · exact kept

theorem rateLimited {horizon : Nat} (kept : QueueKept ceiling queue guards events) (now : Nat)
    (retryAfter : Option Nat) :
    QueueKept ceiling
      { queue with permits := queue.permits.rateLimited horizon now retryAfter } guards
      (events ++ (retryAfter.bind (checkedAdd horizon now)).toList.map .limited) := by
  have lower := kept.lower
  have upper := kept.upper
  unfold Permits.rateLimited
  cases retryAfter.bind (checkedAdd horizon now) with
  | none =>
    simp only [Option.toList_none, map_nil, append_nil]
    apply kept.rebound
    · rfl
    · rfl
    · exact Nat.le_max_right _ _
    · simp only
      omega
    · exact fun instant held => ⟨instant, held, Nat.le_refl _⟩
  | some instant =>
    simp only [Option.toList_some, map_cons, map_nil]
    apply limit
    · apply kept.rebound
      · rfl
      · rfl
      · exact Nat.le_max_right _ _
      · simp only
        omega
      · intro earlier held
        rw [Option.mem_def] at held
        exact ⟨max earlier instant, by simp [held], Nat.le_max_left _ _⟩
    · cases queue.permits.holdUntil with
      | none => exact ⟨instant, rfl, Nat.le_refl _⟩
      | some held => exact ⟨max held instant, rfl, Nat.le_max_right _ _⟩

/-- A dropped guard gives back the permit it held. -/
theorem giveBack (kept : QueueKept ceiling queue guards events) (alive : ticket ∈ guards) :
    QueueKept ceiling { queue with permits := queue.permits.giveBack } (guards.erase ticket)
      (events ++ [.gaveBack ticket]) := by
  have size := length_erase_of_mem alive
  have some_ := length_pos_of_mem alive
  have before := kept.taken
  have all := kept.alive
  exact
    { kept with
      alive := by
        simp only [Permits.giveBack]
        omega
      taken := by
        simp only [countP_append, countP_singleton, isGranted, isGaveBack, Permits.giveBack]
        simp
        omega
      limits := by simpa [Permits.giveBack] using kept.limits
      number := by simpa [isIssued] using kept.number
      granted := by simpa using kept.granted
      issued := by simpa using kept.issued }

end QueueKept

/-- What every interleaving keeps of the gate and of the trace. -/
structure GateKept (horizon : Nat) (ceiling : MaxInFlight) (calls : Calls) : Prop where
  queue : QueueKept ceiling calls.gate.queue calls.guards calls.events
  hold : HoldKept horizon calls.gate.holds calls.events
  due : Trace.Always GateEvent.Due calls.events

namespace GateKept

open GateEvent

variable {horizon : Nat} {ceiling : MaxInFlight} {calls : Calls}

theorem start : GateKept horizon ceiling (.start ceiling) where
  queue := .start
  hold :=
    { flying := fun key => Std.ExtTreeMap.getElem?_empty
      number := rfl
      bounded := fun key warming found => by
        rw [show (Calls.start ceiling).gate.holds.warming = ∅ from rfl,
          Std.ExtTreeMap.getElem?_empty] at found
        cases found }
  due := always_nil

theorem enter (kept : GateKept horizon ceiling calls) : GateKept horizon ceiling calls.enter where
  queue := kept.queue.arrive
  hold := kept.hold.still (fun _ _ => rfl) rfl
  due := always_concat.mpr ⟨kept.due, kept.queue.number⟩

theorem pass (kept : GateKept horizon ceiling calls) (ticket arrived bound now : Nat)
    (endpoint : String) :
    GateKept horizon ceiling (calls.pass ticket arrived bound now endpoint) := by
  unfold Calls.pass Gate.pass
  simp only
  by_cases late : bound ≤ now - arrived
  · rw [if_pos late]
    exact
      { queue := kept.queue.shed ticket
        hold := kept.hold.still (fun _ _ => rfl) rfl
        due := always_concat.mpr ⟨kept.due, trivial⟩ }
  · rw [if_neg late]
    cases tried : calls.gate.queue.tryTake ticket now with
    | mk turn queue =>
      cases turn with
      | granted =>
        have grant := kept.queue.grant tried
        exact
          { queue := grant.1
            hold := kept.hold.still (fun _ _ => rfl) rfl
            due := always_concat.mpr ⟨kept.due, grant.2⟩ }
      | wait instant =>
        cases QueueKept.tryTake_wait tried
        exact ⟨kept.queue, kept.hold, kept.due⟩

theorem settle (kept : GateKept horizon ceiling calls) (ticket : Nat) (outcome : CallOutcome)
    (now : Nat) : GateKept horizon ceiling (calls.settle horizon ticket outcome now) := by
  unfold Calls.settle Gate.settle Calls.stated
  split
  · cases outcome with
    | answered =>
      simp only [Option.toList_none, map_nil, append_nil]
      exact ⟨kept.queue.succeeded now, kept.hold, kept.due⟩
    | failed provider retryAfterMs =>
      simp only
      by_cases limited : provider = some (.refused tooManyRequests)
      · rw [if_pos limited, if_pos limited]
        have queue := @QueueKept.rateLimited _ _ _ _ horizon kept.queue now
          (retryAfterMs.map (· * 10 ^ 6))
        refine ⟨queue, ?_, ?_⟩
        · cases (retryAfterMs.map (· * 10 ^ 6)).bind (checkedAdd horizon now) with
          | none => simpa using kept.hold
          | some until_ => exact kept.hold.still (fun _ _ => rfl) rfl
        · cases (retryAfterMs.map (· * 10 ^ 6)).bind (checkedAdd horizon now) with
          | none => simpa using kept.due
          | some until_ => exact always_concat.mpr ⟨kept.due, trivial⟩
      · rw [if_neg limited, if_neg limited]
        simp only [Option.toList_none, map_nil, append_nil]
        exact kept
  · exact kept

theorem drop (kept : GateKept horizon ceiling calls) (ticket : Nat) :
    GateKept horizon ceiling (calls.drop ticket) := by
  unfold Calls.drop
  split
  · next alive =>
      exact
        { queue := kept.queue.giveBack alive
          hold := kept.hold.still (fun _ _ => rfl) rfl
          due := always_concat.mpr ⟨kept.due, trivial⟩ }
  · exact kept

theorem lapses_aside (holds : Holds) (now : Nat) :
    ∀ event ∈ Calls.lapses horizon holds now, event.atQueue = false := by
  intro event member
  obtain ⟨entry, -, rfl⟩ := mem_map.mp member
  rfl

theorem expire (kept : GateKept horizon ceiling calls) (now : Nat) :
    GateKept horizon ceiling
      { calls with
        gate := { calls.gate with holds := calls.gate.holds.expire horizon now }
        events := calls.events ++ Calls.lapses horizon calls.gate.holds now } := by
  have hold := kept.hold.expire kept.due now
  exact ⟨kept.queue.stillAll (lapses_aside _ now), hold.2.1, hold.1⟩

theorem note (kept : GateKept horizon ceiling calls) {event : GateEvent}
    (aside : event.atQueue = false) (flies : ∀ key warming, flies key warming event = warming)
    (unsent : event.isSent = false) (due : Due calls.events event) :
    GateKept horizon ceiling { calls with events := calls.events ++ [event] } where
  queue := kept.queue.still aside
  hold := kept.hold.still flies unsent
  due := always_concat.mpr ⟨kept.due, due⟩

theorem mark (kept : GateKept horizon ceiling calls) (warm : OrdMap PrefixKey Warm) :
    GateKept horizon ceiling
      { calls with gate := { calls.gate with holds := { calls.gate.holds with warm } } } :=
  ⟨kept.queue, ⟨kept.hold.flying, kept.hold.number, kept.hold.bounded⟩, kept.due⟩

/-- A key with nothing in flight sends its pre-warm under the next number. -/
theorem send (kept : GateKept horizon ceiling calls) {key : PrefixKey} {now : Nat}
    (none_ : calls.gate.holds.warming[key]? = none) (fits : holdMax + now ≤ horizon) :
    GateKept horizon ceiling
      { calls with
        gate :=
          { calls.gate with
            holds :=
              { calls.gate.holds with
                next := wrappingAdd u64Values calls.gate.holds.next 1
                warming := calls.gate.holds.warming.insert key ⟨⟨calls.gate.holds.next⟩, now⟩ } }
        events := calls.events ++ [.sent key ⟨calls.gate.holds.next⟩ now] } where
  queue := kept.queue.still rfl
  hold :=
    { flying := fun other => by
        rw [flying_concat, OrdMap.get_insert, kept.hold.flying]
        rfl
      number := by
        simp only [wrappingAdd, countP_append, countP_singleton, isSent, if_true]
        rw [kept.hold.number, Nat.mod_add_mod]
      bounded := fun other warming found => by
        rw [OrdMap.get_insert] at found
        split at found
        · cases found
          exact fits
        · exact kept.hold.bounded other warming found }
  due := always_concat.mpr ⟨kept.due, kept.hold.flying key ▸ none_, kept.hold.number⟩

theorem arrive (kept : GateKept horizon ceiling calls) (key : PrefixKey) (now : Nat) :
    GateKept horizon ceiling (calls.arrive horizon key now) := by
  have young := (kept.hold.expire kept.due now).2.2 key
  have expired := kept.expire now
  unfold Calls.arrive Gate.arrive Holds.arrive
  generalize calls.gate.holds.expire horizon now = holds at young expired ⊢
  generalize calls.events ++ Calls.lapses horizon calls.gate.holds now = events at expired ⊢
  simp only
  cases holds.warm[key]?.filter (now < ·.until_) with
  | some warm =>
    simp only
    cases checkedAdd horizon now cacheLifetime with
    | none => exact expired
    | some until_ => exact expired.mark _
  | none =>
    simp only
    cases found : holds.warming[key]? with
    | some warming =>
      have fits := expired.hold.bounded key warming found
      simp only [checkedAdd_eq_some.mpr ⟨rfl, fits⟩]
      apply expired.note rfl (fun _ _ => rfl) rfl
      exact ⟨warming.since, expired.hold.flying key ▸ found, rfl, (young warming found).2⟩
    | none =>
      simp only
      cases sum : checkedAdd horizon now holdMax with
      | none => exact expired
      | some until_ =>
        have fits := checkedAdd_eq_some.mp sum
        exact expired.send found (by omega)

theorem waitFor (kept : GateKept horizon ceiling calls) (key : PrefixKey) (on_ : Prewarm)
    (now : Nat) : GateKept horizon ceiling (calls.waitFor horizon key on_ now) := by
  have young := (kept.hold.expire kept.due now).2.2
  have expired := kept.expire now
  unfold Calls.waitFor Gate.waitFor
  generalize calls.gate.holds.expire horizon now = holds at young expired ⊢
  generalize calls.events ++ Calls.lapses horizon calls.gate.holds now = events at expired ⊢
  simp only
  cases waits : holds.waits on_ with
  | true =>
    obtain ⟨other, since, found⟩ := HoldKept.waits_iff.mp waits
    simp only [Bool.not_true, Bool.false_eq_true, if_false]
    apply expired.note rfl (fun _ _ => rfl) rfl
    exact ⟨other, since, expired.hold.flying other ▸ found, (young other _ found).2⟩
  | false =>
    simp only [Bool.not_false, if_true]
    have gone : ∀ other since, flying events other ≠ some ⟨on_, since⟩ := by
      intro other since flown
      have waited : holds.waits on_ = true :=
        HoldKept.waits_iff.mpr ⟨other, since, (expired.hold.flying other).trans flown⟩
      rw [waits] at waited
      cases waited
    apply expired.note rfl (fun _ _ => rfl) rfl
    refine ⟨gone, fun first at_ until_ later place => ?_⟩
    rcases ended_or_flying expired.due place with ended | ⟨since, flown⟩
    · exact ended
    · exact absurd flown (gone key since)

theorem settlePrewarm (kept : GateKept horizon ceiling calls) (prewarm : Prewarm)
    (ended : PrewarmEnd) (now : Nat) :
    GateKept horizon ceiling (calls.settlePrewarm horizon prewarm ended now) := by
  unfold Calls.settlePrewarm Gate.settlePrewarm Holds.settle
  cases found : calls.gate.holds.keyOf prewarm with
  | none => simpa using kept
  | some key =>
    obtain ⟨since, flown⟩ := HoldKept.keyOf_eq_some found
    exact
      { queue := kept.queue.still rfl
        hold := kept.hold.takeOff key _ now (fun _ _ => rfl) rfl
        due := always_concat.mpr ⟨kept.due, since, kept.hold.flying key ▸ flown⟩ }

theorem step (kept : GateKept horizon ceiling calls) (op : GateOp) :
    GateKept horizon ceiling (calls.step horizon op) := by
  cases op with
  | enter => exact kept.enter
  | pass ticket arrived bound now endpoint => exact kept.pass ticket arrived bound now endpoint
  | settle ticket outcome now => exact kept.settle ticket outcome now
  | drop ticket => exact kept.drop ticket
  | arrive key now => exact kept.arrive key now
  | waitFor key on_ now => exact kept.waitFor key on_ now
  | settlePrewarm prewarm ended now => exact kept.settlePrewarm prewarm ended now

theorem run (ops : List GateOp) : GateKept horizon ceiling (.run horizon ceiling ops) :=
  Machine.run_always (fun _ op kept => kept.step op) start ops

end GateKept

/-- Whatever the calls through a gate do, in whatever order and at whatever instants: the permits
granted and not given back are the ones in use, the limit stays within the ceiling, every event is
due, and once the clock is read nothing that is in flight was sent `holdMax` ago. -/
theorem gate_admits_in_order (horizon : Nat) (ceiling : MaxInFlight) (ops : List GateOp) :
    (Calls.run horizon ceiling ops).events.countP GateEvent.isGranted =
      (Calls.run horizon ceiling ops).events.countP GateEvent.isGaveBack +
        (Calls.run horizon ceiling ops).gate.queue.permits.inUse ∧
    1 ≤ (Calls.run horizon ceiling ops).gate.queue.permits.limit ∧
    (Calls.run horizon ceiling ops).gate.queue.permits.limit ≤ ceiling.value ∧
    Trace.Always GateEvent.Due (Calls.run horizon ceiling ops).events ∧
    (∀ key : PrefixKey, (Calls.run horizon ceiling ops).gate.holds.warming[key]? =
      GateEvent.flying (Calls.run horizon ceiling ops).events key) ∧
    ∀ (now : Nat) (key : PrefixKey) (warming : Warming),
      ((Calls.run horizon ceiling ops).gate.holds.expire horizon now).warming[key]? =
        some warming → now < holdMax + warming.since := by
  have kept : GateKept horizon ceiling (Calls.run horizon ceiling ops) := GateKept.run ops
  refine ⟨kept.queue.taken, kept.queue.lower, kept.queue.upper, kept.due, kept.hold.flying, ?_⟩
  intro now key warming found
  exact ((kept.hold.expire kept.due now).2.2 key warming found).2

end Sprawling
