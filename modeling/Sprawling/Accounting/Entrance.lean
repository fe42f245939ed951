import Sprawling.Base.Json
import Sprawling.Base.Machine
import Sprawling.Base.Trace
import Sprawling.Kernel.Error
import Sprawling.Kernel.Idem

/-! The door a command enters by: the key every command carries, read before anything is done about
it, and stamped on what the command writes. -/

namespace Sprawling

open List Trace

/-- The object a ledger line carries. -/
structure Payload where
  fields : List (String × Json)

namespace Payload

def get (data : Payload) (field : String) : Option Json := data.fields.lookup field

def insert (data : Payload) (field : String) (value : Json) : Payload :=
  ⟨(field, value) :: data.fields.filter fun entry => entry.1 ≠ field⟩

@[simp] theorem get_insert (data : Payload) (field : String) (value : Json) :
    (data.insert field value).get field = some value := by
  simp [get, insert]

end Payload

namespace Door

abbrev Answer := Except AxError Unit

def idemField : String := "idem"

/-- The keys this city has answered, the refusals among them, and the key of the command being
carried out right now. -/
structure Entrance where
  seen : List IdemKey
  refused : List (IdemKey × AxError)
  carrying : Option IdemKey

namespace Entrance

def empty : Entrance := ⟨[], [], none⟩

/-- What this city already answered to a key, if it answered at all. -/
def answered (entrance : Entrance) (key : IdemKey) : Option Answer :=
  if key ∈ entrance.seen then
    some (match entrance.refused.lookup key with
      | some err => .error err
      | none => .ok ())
  else none

def begin (entrance : Entrance) (key : IdemKey) : Entrance :=
  { entrance with carrying := some key }

/-- A refusal put in the place of an earlier one. -/
def refuse (entrance : Entrance) (key : IdemKey) (err : AxError) : Entrance :=
  { entrance with
    refused := (key, err) :: entrance.refused.filter fun entry => entry.1 ≠ key }

def see (entrance : Entrance) (key : IdemKey) : Entrance :=
  { entrance with seen := if key ∈ entrance.seen then entrance.seen else key :: entrance.seen }

/-- Remembers how the command in hand ended, and lets the key go. -/
def settle (entrance : Entrance) (outcome : Answer) : Entrance :=
  match entrance.carrying with
  | none => entrance
  | some key =>
    let settled := { entrance with carrying := none }.see key
    match outcome with
    | .error err => settled.refuse key err
    | .ok () => settled

def carry (entrance : Entrance) (key : Option IdemKey) : Entrance :=
  { entrance with carrying := key }

/-- Remembers a refusal as the answer to a key that was settled before. -/
def refusedLater (entrance : Entrance) (key : IdemKey) (err : AxError) : Entrance :=
  (entrance.see key).refuse key err

/-- Folds one line of the history back in. A key this build cannot read is skipped. -/
def absorb (entrance : Entrance) (data : Payload) : Entrance :=
  match data.get idemField with
  | none => entrance
  | some value =>
    match value.asStr.bind IdemKey.parse with
    | some key => entrance.see key
    | none => entrance

end Entrance

/-- The key of the command in flight put on the record it is writing. The value is a string, which
every payload takes. -/
def stamped (key : Option IdemKey) (data : Payload) : Payload :=
  match key with
  | none => data
  | some key => data.insert idemField (.str key.display)

/-! ### The worker at its door -/

/-- What the worker is in the middle of: a command it carries out, or one it finishes now that a
provider has answered, with the key that was carried before. -/
inductive InHand where
  | command (key : Option IdemKey)
  | finishing (key outer : Option IdemKey)

def InHand.key : InHand → Option IdemKey
  | .command key => key
  | .finishing key _ => key

/-- What an onlooker sees at the door. -/
inductive Seen where
  /-- A command is carried out. -/
  | began (key : Option IdemKey)
  /-- A record of the work in hand is on the ledger. -/
  | wrote (key : Option IdemKey) (data : Payload)
  /-- The command in hand ended with its first answer. -/
  | ended (key : Option IdemKey) (answer : Answer)
  /-- A command was answered as a repeat. -/
  | repeated (key : IdemKey) (answer : Answer)
  /-- A command that had left the door was refused. -/
  | later (key : Option IdemKey) (err : AxError)
  /-- The writer took no line, so the command was refused before its key was judged. -/
  | turnedAway (key : Option IdemKey) (err : AxError)
  | reopened

/-- The worker, with what was seen at its door. `out` holds the keys of the commands that sent a
request off the accounting thread. -/
structure Worker where
  entrance : Entrance
  ledger : List Payload
  inHand : Option InHand
  out : List (Option IdemKey)
  log : List Seen

namespace Worker

/-- A worker opened over a history. -/
def opened (ledger : List Payload) (log : List Seen) : Worker :=
  { entrance := ledger.foldl Entrance.absorb Entrance.empty
    ledger, inHand := none, out := [], log }

def see (worker : Worker) (seen : Seen) : Worker := { worker with log := worker.log ++ [seen] }

/-- One command from the desk, up to its being carried out. `refusal` is what the writer answers
when it takes no line. -/
def serveOne (worker : Worker) (key : Option IdemKey) (refusal : Option AxError) : Worker :=
  match worker.inHand, refusal with
  | some _, _ => worker
  | none, some err => worker.see (.turnedAway key err)
  | none, none =>
    match key with
    | none => { worker with inHand := some (.command none) }.see (.began none)
    | some key =>
      match worker.entrance.answered key with
      | some first => worker.see (.repeated key first)
      | none =>
        { worker with
          entrance := worker.entrance.begin key
          inHand := some (.command (some key)) }.see (.began (some key))

/-- The command in hand has been carried out: its key settles and its answer goes back. -/
def settleOne (worker : Worker) (outcome : Answer) : Worker :=
  match worker.inHand with
  | some (.command key) =>
    { worker with entrance := worker.entrance.settle outcome, inHand := none }.see
      (.ended key outcome)
  | some (.finishing _ _) | none => worker

/-- One record, of the city or of a run, which the ledger takes or does not. -/
def record (worker : Worker) (data : Payload) (taken : Bool) : Worker :=
  if taken then
    let data := stamped worker.entrance.carrying data
    { worker with ledger := worker.ledger ++ [data] }.see
      (.wrote (worker.inHand.bind InHand.key) data)
  else worker

/-- A provider request leaves the accounting thread. -/
def handOff (worker : Worker) : Worker :=
  { worker with out := worker.out ++ [worker.entrance.carrying] }

/-- An answer has come back, and the command that asked is finished under its own key. -/
def finish (worker : Worker) (place : Nat) : Worker :=
  match worker.inHand, worker.out[place]? with
  | none, some key =>
    { worker with
      entrance := worker.entrance.carry key
      inHand := some (.finishing key worker.entrance.carrying)
      out := worker.out.eraseIdx place }
  | _, _ => worker

/-- The work of finishing is done: the key carried before comes back, and a refusal is
remembered. -/
def finished (worker : Worker) (outcome : Answer) : Worker :=
  match worker.inHand with
  | some (.finishing key outer) =>
    let entrance := worker.entrance.carry outer
    match outcome, key with
    | .ok (), _ => { worker with entrance, inHand := none }
    | .error err, some key =>
      { worker with entrance := entrance.refusedLater key err, inHand := none }.see
        (.later (some key) err)
    | .error err, none => { worker with entrance, inHand := none }.see (.later none err)
  | some (.command _) | none => worker

end Worker

/-- What can happen at the door, one thing at a time. -/
inductive Op where
  | post (key : Option IdemKey) (refusal : Option AxError)
  | settle (outcome : Answer)
  | record (data : Payload) (taken : Bool)
  | handOff
  | finish (place : Nat)
  | finished (outcome : Answer)
  /-- A line written some other way, by a lane for instance. -/
  | other (data : Payload)
  /-- The process stops where it is, and the city is opened again from its ledger. -/
  | reopen

namespace Worker

def step (worker : Worker) : Op → Worker
  | .post key refusal => worker.serveOne key refusal
  | .settle outcome => worker.settleOne outcome
  | .record data taken => worker.record data taken
  | .handOff => worker.handOff
  | .finish place => worker.finish place
  | .finished outcome => worker.finished outcome
  | .other data => { worker with ledger := worker.ledger ++ [data] }
  | .reopen => opened worker.ledger (worker.log ++ [.reopened])

def run (worker : Worker) (ops : List Op) : Worker := ops.foldl step worker

end Worker

/-- One thing seen, as it changes what was last answered to a key by this process. -/
def answerAfter (key : IdemKey) (held : Option Answer) : Seen → Option Answer
  | .ended asked answer => if asked = some key then some answer else held
  | .later asked err => if asked = some key then some (.error err) else held
  | .reopened => none
  | .began _ | .wrote _ _ | .repeated _ _ | .turnedAway _ _ => held

/-- What this process answered to a key: the first answer, or the latest refusal after it. -/
def lastAnswer (key : IdemKey) (log : List Seen) : Option Answer :=
  log.foldl (answerAfter key) none

/-- A key was refused at some time. -/
def Refused (key : IdemKey) (log : List Seen) : Prop :=
  ∃ err, .ended (some key) (.error err) ∈ log ∨ .later (some key) err ∈ log

def Wrote (key : IdemKey) (log : List Seen) : Prop := ∃ data, .wrote (some key) data ∈ log

/-- A record carries a key. -/
def Carries (key : IdemKey) (data : Payload) : Prop :=
  data.get idemField = some (.str key.display)

/-! ### What the entrance remembers -/

namespace Entrance

variable {entrance : Entrance} {key asked : IdemKey}

@[simp] theorem mem_see : asked ∈ (entrance.see key).seen ↔ asked = key ∨ asked ∈ entrance.seen := by
  unfold see
  by_cases known : key ∈ entrance.seen
  · simp only [if_pos known]
    constructor
    · exact Or.inr
    · rintro (rfl | member)
      · exact known
      · exact member
  · simp only [if_neg known, mem_cons]

theorem lookup_refuse (err : AxError) :
    (entrance.refuse key err).refused.lookup asked =
      if asked = key then some err else entrance.refused.lookup asked := by
  by_cases same : asked = key
  · simp [refuse, same]
  · rw [if_neg same]
    have apart : (asked == key) = false := by simpa using same
    simp only [refuse, lookup_cons, apart]
    induction entrance.refused with
    | nil => rfl
    | cons entry rest ih =>
      by_cases dropped : entry.1 = key
      · have other : (asked == entry.1) = false := by
          rw [dropped]
          exact apart
        rw [filter_cons_of_neg (by simpa using dropped), ih, lookup_cons, other]
      · rw [filter_cons_of_pos (by simpa using dropped), lookup_cons,
          lookup_cons, ih]

theorem answered_refusedLater (err : AxError) :
    (entrance.refusedLater key err).answered asked =
      if asked = key then some (.error err) else entrance.answered asked := by
  have known : asked ∈ (entrance.refusedLater key err).seen ↔
      asked = key ∨ asked ∈ entrance.seen := mem_see
  have words : (entrance.refusedLater key err).refused.lookup asked =
      if asked = key then some err else entrance.refused.lookup asked := lookup_refuse err
  unfold answered
  by_cases same : asked = key
  · rw [if_pos same, if_pos (known.mpr (.inl same)), words, if_pos same]
  · rw [if_neg same, words, if_neg same]
    simp only [known, same, false_or]

theorem answered_settle {outcome : Answer} (carried : entrance.carrying = some key)
    (unsaid : entrance.refused.lookup key = none) :
    (entrance.settle outcome).answered asked =
      if asked = key then some outcome else entrance.answered asked := by
  unfold settle
  simp only [carried]
  cases outcome with
  | error err => exact answered_refusedLater err
  | ok value =>
    unfold answered
    simp only [mem_see]
    by_cases same : asked = key
    · have silent : (({ entrance with carrying := none } : Entrance).see key).refused.lookup asked =
          none := by
        rw [same]
        exact unsaid
      rw [if_pos same, if_pos (.inl same), silent]
    · simp only [same, false_or, if_false]
      rfl

variable {data : Payload}

theorem mem_seen_absorb (member : key ∈ entrance.seen) :
    key ∈ (entrance.absorb data).seen := by
  unfold absorb
  split
  · exact member
  · split
    · exact mem_see.mpr (.inr member)
    · exact member

theorem absorb_frame (data : Payload) :
    (entrance.absorb data).refused = entrance.refused ∧
      (entrance.absorb data).carrying = entrance.carrying := by
  unfold absorb
  split
  · exact ⟨rfl, rfl⟩
  · split
    · exact ⟨rfl, rfl⟩
    · exact ⟨rfl, rfl⟩

theorem foldl_absorb_frame (ledger : List Payload) (entrance : Entrance) :
    (ledger.foldl absorb entrance).refused = entrance.refused ∧
      (ledger.foldl absorb entrance).carrying = entrance.carrying := by
  induction ledger generalizing entrance with
  | nil => exact ⟨rfl, rfl⟩
  | cons data rest ih =>
    have first := @absorb_frame entrance data
    have later := ih (entrance.absorb data)
    exact ⟨later.1.trans first.1, later.2.trans first.2⟩

theorem mem_seen_foldl_absorb (ledger : List Payload) {entrance : Entrance}
    (member : key ∈ entrance.seen) : key ∈ (ledger.foldl absorb entrance).seen := by
  induction ledger generalizing entrance with
  | nil => exact member
  | cons data rest ih => exact ih (mem_seen_absorb member)

theorem seen_of_carries {ledger : List Payload} (carries : Carries key data)
    (member : data ∈ ledger) (entrance : Entrance) :
    key ∈ (ledger.foldl absorb entrance).seen := by
  induction ledger generalizing entrance with
  | nil => cases member
  | cons first rest ih =>
    rcases mem_cons.mp member with rfl | later
    · have read : (Json.str key.display).asStr.bind IdemKey.parse = some key :=
        IdemKey.parse_display key
      have now : key ∈ (entrance.absorb data).seen := by
        unfold absorb
        rw [carries]
        simp only [read]
        exact mem_see.mpr (.inl rfl)
      exact mem_seen_foldl_absorb rest now
    · exact ih later _

end Entrance

/-! ### What holds between any two steps -/

theorem lastAnswer_concat (key : IdemKey) (log : List Seen) (seen : Seen) :
    lastAnswer key (log ++ [seen]) = answerAfter key (lastAnswer key log) seen := by
  rw [lastAnswer, foldl_append]
  rfl

theorem Refused.concat {key : IdemKey} {log : List Seen} (refused : Refused key log) (seen : Seen) :
    Refused key (log ++ [seen]) := by
  obtain ⟨err, ended | later⟩ := refused
  · exact ⟨err, .inl (mem_append_left _ ended)⟩
  · exact ⟨err, .inr (mem_append_left _ later)⟩

/-- A key is known, or its command is in hand. -/
def Worker.Knows (worker : Worker) (key : IdemKey) : Prop :=
  key ∈ worker.entrance.seen ∨ worker.inHand = some (.command (some key))

structure Kept (worker : Worker) : Prop where
  carrying : worker.entrance.carrying = worker.inHand.bind InHand.key
  outer : ∀ {key outer}, worker.inHand = some (.finishing key outer) → outer = none
  fresh : ∀ {key}, worker.inHand = some (.command (some key)) → key ∉ worker.entrance.seen
  finishes : ∀ {key outer}, worker.inHand = some (.finishing (some key) outer) →
    key ∈ worker.entrance.seen
  leaves : ∀ {key}, some key ∈ worker.out → worker.Knows key
  answers : ∀ {key answer}, lastAnswer key worker.log = some answer →
    worker.entrance.answered key = some answer
  refuses : ∀ {key}, worker.entrance.refused.lookup key ≠ none →
    key ∈ worker.entrance.seen ∧ Refused key worker.log
  wrote : ∀ {key data}, .wrote (some key) data ∈ worker.log →
    Carries key data ∧ data ∈ worker.ledger ∧ worker.Knows key
  once : Trace.Always (fun before seen => ∀ key, seen = .began (some key) → ¬ Wrote key before)
    worker.log

namespace Kept

variable {worker : Worker}

/-- What is seen after a record leaves what is known of it. -/
theorem wroteBefore (kept : Kept worker) {seen : Seen} {key : IdemKey} {data : Payload}
    (member : .wrote (some key) data ∈ worker.log ++ [seen])
    (unwritten : ∀ key data, seen ≠ .wrote (some key) data) :
    Carries key data ∧ data ∈ worker.ledger ∧ worker.Knows key := by
  rcases mem_append.mp member with old | new
  · exact kept.wrote old
  · exact absurd (mem_singleton.mp new).symm (unwritten key data)

/-- The key of the work in hand is known. -/
theorem knowsBusy (kept : Kept worker) {key : IdemKey}
    (keyed : worker.inHand.bind InHand.key = some key) : worker.Knows key := by
  cases busy : worker.inHand with
  | none =>
    rw [busy] at keyed
    cases keyed
  | some work =>
    rw [busy] at keyed
    cases work with
    | command asked =>
      cases keyed
      exact .inr busy
    | finishing asked outer =>
      cases keyed
      exact .inl (kept.finishes busy)

theorem see (kept : Kept worker) {seen : Seen}
    (quiet : ∀ key held, answerAfter key held seen = held)
    (unwritten : ∀ key data, seen ≠ .wrote (some key) data)
    (unbegun : ∀ key, seen ≠ .began (some key)) : Kept (worker.see seen) where
  carrying := kept.carrying
  outer := kept.outer
  fresh := kept.fresh
  finishes := kept.finishes
  leaves := kept.leaves
  answers := by
    intro key answer last
    rw [Worker.see, lastAnswer_concat, quiet] at last
    exact kept.answers last
  refuses := by
    intro key held
    exact ⟨(kept.refuses held).1, (kept.refuses held).2.concat seen⟩
  wrote := fun member => kept.wroteBefore member unwritten
  once := always_concat.mpr ⟨kept.once, fun key same => absurd same (unbegun key)⟩

/-- An opened worker knows every key on its ledger. -/
theorem opened {ledger : List Payload} {log : List Seen}
    (silent : ∀ key, lastAnswer key log = none)
    (wrote : ∀ {key data}, .wrote (some key) data ∈ log → Carries key data ∧ data ∈ ledger)
    (once : Trace.Always (fun before seen => ∀ key, seen = .began (some key) → ¬ Wrote key before)
      log) : Kept (Worker.opened ledger log) where
  carrying := (Entrance.foldl_absorb_frame ledger _).2
  outer := nofun
  fresh := nofun
  finishes := nofun
  leaves := nofun
  answers := by
    intro key answer last
    rw [Worker.opened, silent key] at last
    cases last
  refuses := by
    intro key held
    rw [Worker.opened, (Entrance.foldl_absorb_frame ledger _).1] at held
    exact absurd rfl held
  wrote := by
    intro key data member
    obtain ⟨carries, present⟩ := wrote member
    exact ⟨carries, present, .inl (Entrance.seen_of_carries carries present _)⟩
  once := once

theorem reopen (kept : Kept worker) :
    Kept (Worker.opened worker.ledger (worker.log ++ [.reopened])) := by
  apply opened
  · intro key
    rw [lastAnswer_concat]
    rfl
  · intro key data member
    obtain ⟨carries, present, -⟩ := kept.wroteBefore member nofun
    exact ⟨carries, present⟩
  · exact always_concat.mpr ⟨kept.once, nofun⟩

variable {key : IdemKey}

theorem begin (kept : Kept worker) (idle : worker.inHand = none)
    (unanswered : worker.entrance.answered key = none) :
    Kept ({ worker with
      entrance := worker.entrance.begin key
      inHand := some (.command (some key)) }.see (.began (some key))) := by
  have unseen : key ∉ worker.entrance.seen := by
    intro known
    simp [Entrance.answered, known] at unanswered
  have knows : ∀ {other}, worker.Knows other → other ∈ worker.entrance.seen := by
    intro other known
    rcases known with seen | busy
    · exact seen
    · rw [idle] at busy
      cases busy
  refine ⟨rfl, nofun, ?_, nofun, ?_, ?_, ?_, ?_, ?_⟩
  · intro other same
    cases same
    exact unseen
  · intro other member
    exact .inl (knows (kept.leaves member))
  · intro other answer last
    rw [Worker.see, lastAnswer_concat] at last
    exact kept.answers last
  · intro other held
    exact ⟨(kept.refuses held).1, (kept.refuses held).2.concat _⟩
  · intro other data member
    obtain ⟨carries, present, known⟩ := kept.wroteBefore member nofun
    exact ⟨carries, present, .inl (knows known)⟩
  · refine always_concat.mpr ⟨kept.once, ?_⟩
    intro other same wrote
    cases same
    obtain ⟨data, member⟩ := wrote
    exact unseen (knows (kept.wrote member).2.2)

theorem serveOne (kept : Kept worker) (key : Option IdemKey) (refusal : Option AxError) :
    Kept (worker.serveOne key refusal) := by
  unfold Worker.serveOne
  cases busy : worker.inHand with
  | some work => exact kept
  | none =>
    cases refusal with
    | some err => exact kept.see (fun _ _ => rfl) nofun nofun
    | none =>
      cases key with
      | none =>
        have carried := kept.carrying
        rw [busy] at carried
        have held : Kept { worker with inHand := some (.command none) } := by
          refine ⟨carried, nofun, nofun, nofun, ?_, kept.answers, kept.refuses, ?_, kept.once⟩
          · intro other member
            rcases kept.leaves member with seen | impossible
            · exact .inl seen
            · rw [busy] at impossible
              cases impossible
          · intro other data member
            obtain ⟨carries, present, seen | impossible⟩ := kept.wrote member
            · exact ⟨carries, present, .inl seen⟩
            · rw [busy] at impossible
              cases impossible
        exact held.see (fun _ _ => rfl) nofun nofun
      | some key =>
        cases said : worker.entrance.answered key with
        | none =>
          simp only [said]
          exact kept.begin busy said
        | some first =>
          simp only [said]
          exact kept.see (fun _ _ => rfl) nofun nofun

variable {entrance : Entrance} {key asked : IdemKey} {outcome : Answer}

theorem mem_seen_settle (carried : entrance.carrying = some key) :
    asked ∈ (entrance.settle outcome).seen ↔ asked = key ∨ asked ∈ entrance.seen := by
  unfold Entrance.settle
  simp only [carried]
  cases outcome with
  | error err => exact Entrance.mem_see
  | ok value => exact Entrance.mem_see

theorem lookup_settle (carried : entrance.carrying = some key)
    (held : (entrance.settle outcome).refused.lookup asked ≠ none) :
    entrance.refused.lookup asked ≠ none ∨ asked = key ∧ ∃ err, outcome = .error err := by
  unfold Entrance.settle at held
  simp only [carried] at held
  cases outcome with
  | ok value => exact .inl held
  | error err =>
    by_cases same : asked = key
    · exact .inr ⟨same, err, rfl⟩
    · rw [Entrance.lookup_refuse, if_neg same] at held
      exact .inl held

theorem carrying_settle (entrance : Entrance) (outcome : Answer) :
    (entrance.settle outcome).carrying = none := by
  unfold Entrance.settle
  cases carried : entrance.carrying with
  | none => exact carried
  | some key => cases outcome <;> rfl

variable (kept : Kept worker)

include kept

theorem settleKeyed (busy : worker.inHand = some (.command (some key))) (outcome : Answer) :
    Kept ({ worker with entrance := worker.entrance.settle outcome, inHand := none }.see
      (.ended (some key) outcome)) := by
  have carried : worker.entrance.carrying = some key := by
    rw [kept.carrying, busy]
    rfl
  have unseen := kept.fresh busy
  have unsaid : worker.entrance.refused.lookup key = none := by
    by_contra held
    exact unseen (kept.refuses held).1
  have knows : ∀ {asked}, worker.Knows asked → asked ∈ (worker.entrance.settle outcome).seen := by
    intro asked known
    rw [mem_seen_settle carried]
    rcases known with seen | same
    · exact .inr seen
    · rw [busy] at same
      cases same
      exact .inl rfl
  refine ⟨carrying_settle _ _, nofun, nofun, nofun, ?_, ?_, ?_, ?_, ?_⟩
  · intro asked member
    exact .inl (knows (kept.leaves member))
  · intro asked answer last
    rw [Worker.see, lastAnswer_concat] at last
    show (worker.entrance.settle outcome).answered asked = some answer
    rw [Entrance.answered_settle carried unsaid]
    simp only [answerAfter, Option.some.injEq] at last
    by_cases same : asked = key
    · rw [if_pos same.symm] at last
      rw [if_pos same, last]
    · rw [if_neg (Ne.symm same)] at last
      rw [if_neg same]
      exact kept.answers last
  · intro asked held
    rcases lookup_settle carried held with old | ⟨rfl, err, rfl⟩
    · obtain ⟨seen, refused⟩ := kept.refuses old
      exact ⟨(mem_seen_settle carried).mpr (.inr seen), refused.concat _⟩
    · exact ⟨(mem_seen_settle carried).mpr (.inl rfl),
        err, .inl (mem_append_right _ mem_cons_self)⟩
  · intro asked data member
    obtain ⟨carries, present, known⟩ := kept.wroteBefore member nofun
    exact ⟨carries, present, .inl (knows known)⟩
  · exact always_concat.mpr ⟨kept.once, nofun⟩

theorem letGo (unkeyed : worker.inHand.bind InHand.key = none) :
    Kept { worker with inHand := none } := by
  have knows : ∀ {key}, worker.Knows key → ({ worker with inHand := none } : Worker).Knows key := by
    intro key known
    rcases known with seen | busy
    · exact .inl seen
    · rw [busy] at unkeyed
      cases unkeyed
  refine ⟨?_, nofun, nofun, nofun, fun member => knows (kept.leaves member), kept.answers,
    kept.refuses, ?_, kept.once⟩
  · rw [kept.carrying, unkeyed]
    rfl
  · intro key data member
    obtain ⟨carries, present, known⟩ := kept.wrote member
    exact ⟨carries, present, knows known⟩

theorem settleOne (outcome : Answer) : Kept (worker.settleOne outcome) := by
  unfold Worker.settleOne
  cases busy : worker.inHand with
  | none => exact kept
  | some work =>
    cases work with
    | finishing key outer => exact kept
    | command key =>
      cases key with
      | some key => exact kept.settleKeyed busy outcome
      | none =>
        have unkeyed : worker.inHand.bind InHand.key = none := by rw [busy]; rfl
        have silent : worker.entrance.settle outcome = worker.entrance := by
          unfold Entrance.settle
          rw [kept.carrying, unkeyed]
        simp only [silent]
        refine (kept.letGo unkeyed).see ?_ nofun nofun
        intro key held
        simp [answerAfter]

/-- A record of the work in hand carries that work's key. -/
theorem record (data : Payload) (taken : Bool) :
    Kept (worker.record data taken) := by
  unfold Worker.record
  cases taken with
  | false => exact kept
  | true =>
    rw [if_pos rfl]
    refine ⟨kept.carrying, kept.outer, kept.fresh, kept.finishes, kept.leaves, ?_, ?_, ?_, ?_⟩
    · intro key answer last
      rw [Worker.see, lastAnswer_concat] at last
      exact kept.answers last
    · intro key held
      exact ⟨(kept.refuses held).1, (kept.refuses held).2.concat _⟩
    · intro key written member
      rcases mem_append.mp member with old | new
      · obtain ⟨carries, present, known⟩ := kept.wrote old
        exact ⟨carries, mem_append_left _ present, known⟩
      · injection mem_singleton.mp new with keyed same
        have carried : worker.entrance.carrying = some key := by rw [kept.carrying, ← keyed]
        refine ⟨?_, ?_, ?_⟩
        · rw [same, carried]
          exact Payload.get_insert _ _ _
        · rw [same]
          exact mem_append_right _ mem_cons_self
        · exact kept.knowsBusy keyed.symm
    · exact always_concat.mpr ⟨kept.once, nofun⟩

theorem handOff : Kept worker.handOff := by
  refine ⟨kept.carrying, kept.outer, kept.fresh, kept.finishes, ?_, kept.answers, kept.refuses,
    kept.wrote, kept.once⟩
  intro key member
  rcases mem_append.mp member with old | new
  · exact kept.leaves old
  · apply kept.knowsBusy
    rw [← kept.carrying]
    exact (mem_singleton.mp new).symm

/-- A command that left the door is finished under its own key. -/
theorem finish (place : Nat) : Kept (worker.finish place) := by
  unfold Worker.finish
  split
  · next key idle asked =>
      have carried := kept.carrying
      rw [idle] at carried
      have knows : ∀ {other}, worker.Knows other → other ∈ worker.entrance.seen := by
        intro other known
        rcases known with seen | busy
        · exact seen
        · rw [idle] at busy
          cases busy
      refine ⟨rfl, ?_, nofun, ?_, ?_, kept.answers, kept.refuses, ?_, kept.once⟩
      · intro other outer same
        cases same
        exact carried
      · intro other outer same
        cases same
        exact knows (kept.leaves (mem_of_getElem? asked))
      · intro other member
        exact .inl (knows (kept.leaves (mem_of_mem_eraseIdx member)))
      · intro other data member
        obtain ⟨carries, present, known⟩ := kept.wrote member
        exact ⟨carries, present, .inl (knows known)⟩
  · exact kept

/-- The work of finishing is done, and a refusal is the key's answer from now on. -/
theorem finished (outcome : Answer) : Kept (worker.finished outcome) := by
  unfold Worker.finished
  cases busy : worker.inHand with
  | none => exact kept
  | some work =>
    cases work with
    | command key => exact kept
    | finishing key outer =>
      have alone := kept.outer busy
      have knows : ∀ {other}, worker.Knows other → other ∈ worker.entrance.seen := by
        intro other known
        rcases known with seen | same
        · exact seen
        · rw [busy] at same
          cases same
      have quiet : Kept { worker with entrance := worker.entrance.carry outer, inHand := none } := by
        refine ⟨alone, nofun, nofun, nofun, fun member => .inl (knows (kept.leaves member)),
          kept.answers, kept.refuses, ?_, kept.once⟩
        intro other data member
        obtain ⟨carries, present, known⟩ := kept.wrote member
        exact ⟨carries, present, .inl (knows known)⟩
      cases outcome with
      | ok value => exact quiet
      | error err =>
        cases key with
        | none =>
          refine quiet.see ?_ nofun nofun
          intro key held
          simp [answerAfter]
        | some key =>
          refine ⟨alone, nofun, nofun, nofun, ?_, ?_, ?_, ?_, ?_⟩
          · intro other member
            exact .inl (Entrance.mem_see.mpr (.inr (knows (kept.leaves member))))
          · intro other answer last
            change lastAnswer other (worker.log ++ [.later (some key) err]) = _ at last
            rw [lastAnswer_concat] at last
            show ((worker.entrance.carry outer).refusedLater key err).answered other = _
            rw [Entrance.answered_refusedLater]
            simp only [answerAfter, Option.some.injEq] at last
            by_cases same : other = key
            · rw [if_pos same.symm] at last
              rw [if_pos same, last]
            · rw [if_neg (Ne.symm same)] at last
              rw [if_neg same]
              exact kept.answers last
          · intro other held
            by_cases same : other = key
            · exact ⟨Entrance.mem_see.mpr (.inl same), err,
                .inr (same ▸ mem_append_right _ mem_cons_self)⟩
            · have old : worker.entrance.refused.lookup other ≠ none := by
                intro unsaid
                apply held
                show ((worker.entrance.carry outer).refusedLater key err).refused.lookup
                  other = none
                rw [Entrance.refusedLater, Entrance.lookup_refuse, if_neg same]
                exact unsaid
              obtain ⟨seen, refused⟩ := kept.refuses old
              exact ⟨Entrance.mem_see.mpr (.inr seen), refused.concat _⟩
          · intro other data member
            obtain ⟨carries, present, known⟩ := kept.wroteBefore member nofun
            exact ⟨carries, present, .inl (Entrance.mem_see.mpr (.inr (knows known)))⟩
          · exact always_concat.mpr ⟨kept.once, nofun⟩

theorem other (data : Payload) :
    Kept { worker with ledger := worker.ledger ++ [data] } := by
  refine ⟨kept.carrying, kept.outer, kept.fresh, kept.finishes, kept.leaves, kept.answers,
    kept.refuses, ?_, kept.once⟩
  intro key written member
  obtain ⟨carries, present, known⟩ := kept.wrote member
  exact ⟨carries, mem_append_left _ present, known⟩

theorem step (op : Op) : Kept (worker.step op) := by
  cases op with
  | post key refusal => exact kept.serveOne key refusal
  | settle outcome => exact kept.settleOne outcome
  | record data taken => exact kept.record data taken
  | handOff => exact kept.handOff
  | finish place => exact kept.finish place
  | finished outcome => exact kept.finished outcome
  | other data => exact kept.other data
  | reopen => exact kept.reopen

end Kept

theorem kept_run (past : List Payload) (ops : List Op) :
    Kept ((Worker.opened past []).run ops) := by
  have start : Kept (Worker.opened past []) := Kept.opened (fun _ => rfl) nofun always_nil
  exact Machine.run_always (fun _ op kept => kept.step op) start ops

/-- A command is carried out once and answered alike. What the work in hand writes carries its key,
a command that wrote a record is never carried out again under its key, a repeat in the same
process gets the first answer or the latest refusal after it, and a repeat of a command that wrote
a record and was never refused gets its answer after any number of restarts. -/
theorem command_carried_out_once (past : List Payload) (ops : List Op) :
    (∀ key data, .wrote (some key) data ∈ ((Worker.opened past []).run ops).log →
      Carries key data) ∧
    Trace.Always (fun before seen => ∀ key, seen = .began (some key) → ¬ Wrote key before)
      ((Worker.opened past []).run ops).log ∧
    (((Worker.opened past []).run ops).inHand = none → ∀ key,
      (∀ answer, lastAnswer key ((Worker.opened past []).run ops).log = some answer →
        ((Worker.opened past []).run (ops ++ [.post (some key) none])).log =
          ((Worker.opened past []).run ops).log ++ [.repeated key answer]) ∧
      (Wrote key ((Worker.opened past []).run ops).log →
        ¬ Refused key ((Worker.opened past []).run ops).log →
        ((Worker.opened past []).run (ops ++ [.post (some key) none])).log =
          ((Worker.opened past []).run ops).log ++ [.repeated key (.ok ())])) := by
  have kept := kept_run past ops
  refine ⟨fun key data member => (kept.wrote member).1, kept.once, ?_⟩
  intro idle key
  have posted : (Worker.opened past []).run (ops ++ [.post (some key) none]) =
      ((Worker.opened past []).run ops).serveOne (some key) none := by
    rw [Worker.run, foldl_append]
    rfl
  rw [posted]
  constructor
  · intro answer last
    simp only [Worker.serveOne, idle, kept.answers last, Worker.see]
  · intro wrote unrefused
    obtain ⟨data, member⟩ := wrote
    have seen : key ∈ ((Worker.opened past []).run ops).entrance.seen := by
      rcases (kept.wrote member).2.2 with seen | busy
      · exact seen
      · rw [idle] at busy
        cases busy
    have unsaid : ((Worker.opened past []).run ops).entrance.refused.lookup key = none := by
      by_contra held
      exact unrefused (kept.refuses held).2
    have said : ((Worker.opened past []).run ops).entrance.answered key = some (.ok ()) := by
      rw [Entrance.answered, if_pos seen, unsaid]
    simp only [Worker.serveOne, idle, said, Worker.see]

/-! ### One key, posted twice -/

def sampleKey : IdemKey := ⟨⟨List.replicate 16 7, rfl⟩⟩

def sampleRefusal : AxError :=
  .failure .pathNotFound "restore a discarded file" "lab/notes.md" "read the recycle bin again"

def unproven : AxError :=
  .failure .historyUnproven "append to the ledger"
    "the history this city opened from is still being proved"
    ("the city is still proving the history it opened from; send it again once the log says the "
      ++ "history is proved")

/-- A command refused before it wrote anything is carried out when it is repeated after a restart,
and so is one turned away before the history was proved. -/
theorem refusals_do_not_outlive_process :
    ((Worker.opened [] []).run
        [.post (some sampleKey) none, .settle (.error sampleRefusal), .other ⟨[]⟩, .reopen,
          .post (some sampleKey) none, .settle (.ok ())]).log =
      [.began (some sampleKey), .ended (some sampleKey) (.error sampleRefusal), .reopened,
        .began (some sampleKey), .ended (some sampleKey) (.ok ())] ∧
    ((Worker.opened [] []).run
        [.post (some sampleKey) (some unproven), .post (some sampleKey) none,
          .settle (.ok ())]).log =
      [.turnedAway (some sampleKey) unproven, .began (some sampleKey),
        .ended (some sampleKey) (.ok ())] :=
  ⟨rfl, rfl⟩

/-- A command that wrote a record is answered after a restart, and a refused one is refused alike
while the process lives. -/
theorem sample_repeats_answered :
    ((Worker.opened [] []).run
        [.post (some sampleKey) none, .record ⟨[]⟩ true, .settle (.ok ()), .reopen,
          .post (some sampleKey) none]).log.getLast? =
      some (.repeated sampleKey (.ok ())) ∧
    ((Worker.opened [] []).run
        [.post (some sampleKey) none, .settle (.error sampleRefusal),
          .post (some sampleKey) none]).log.getLast? =
      some (.repeated sampleKey (.error sampleRefusal)) := by
  have written := (command_carried_out_once [] [.post (some sampleKey) none, .record ⟨[]⟩ true,
    .settle (.ok ()), .reopen]).2.2 rfl sampleKey
  have refused := (command_carried_out_once [] [.post (some sampleKey) none,
    .settle (.error sampleRefusal)]).2.2 rfl sampleKey
  constructor
  · have clean : ¬ Refused sampleKey ((Worker.opened [] []).run [.post (some sampleKey) none,
        .record ⟨[]⟩ true, .settle (.ok ()), .reopen]).log := by
      rintro ⟨err, ended | later⟩
      · simp [Worker.run, Worker.step, Worker.serveOne, Worker.see, Worker.opened,
          Worker.settleOne, Worker.record, Entrance.answered, Entrance.empty] at ended
      · simp [Worker.run, Worker.step, Worker.serveOne, Worker.see, Worker.opened,
          Worker.settleOne, Worker.record, Entrance.answered, Entrance.empty] at later
    have wrote : Wrote sampleKey ((Worker.opened [] []).run [.post (some sampleKey) none,
        .record ⟨[]⟩ true, .settle (.ok ()), .reopen]).log :=
      ⟨stamped (some sampleKey) ⟨[]⟩, mem_cons_of_mem _ mem_cons_self⟩
    have last := written.2 wrote clean
    simp only [cons_append, nil_append] at last
    rw [last, getLast?_concat]
  · have last := refused.1 _ rfl
    simp only [cons_append, nil_append] at last
    rw [last, getLast?_concat]

end Door

end Sprawling
