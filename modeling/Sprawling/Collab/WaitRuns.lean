import Sprawling.Base.Trace
import Sprawling.Collab.MailRuns

/-! A run's waiting sends: what is recorded of each wait, over any run of its desk. -/

namespace Sprawling

open Effect SignalDesk List Trace Mail

/-- What happens at a desk, in order: a signal reaches its slot, or one of its calls records a line,
with the clock reading of a call that takes one. -/
inductive Moment where
  | arrived (signal : Signal)
  | wrote (line : SignalEffect) (clock : Option Nat)
deriving DecidableEq

namespace Moment

def sends (id : List Char) : Moment → Bool
  | .wrote (.enqueued signal) _ => signal.id = id
  | _ => false

def starts (id : List Char) : Moment → Bool
  | .wrote (.waitStarted _ signal _) _ => signal = id
  | _ => false

def ends (id : List Char) : Moment → Bool
  | .wrote (.waitEnded signal _) _ => signal = id
  | _ => false

end Moment

def SignalEffect.endsWait : SignalEffect → Bool
  | .waitEnded _ _ => true
  | _ => false

/-- A run at its desk: the desk, how many signal ids it has minted, and what happened. -/
structure Stay where
  desk : SignalDesk
  minted : Nat
  story : List Moment

/-- What can happen at a desk, in any order. A call's `answers` are what the post says to the lines
it writes. -/
inductive StayOp where
  /-- The city drops a signal into the slot. -/
  | arrive (signal : Signal)
  /-- The run sends the signal its arguments build, but for its id; `none` where they build none. -/
  | send (letter : Option Signal) (waits : Bool) (answers : List (Option AxError))
  | takeSteer (answers : List (Option AxError))
  | pull (answers : List (Option AxError))
  | answered (answers : List (Option AxError))
  | waitLeft (answers : List (Option AxError))
  /-- A safe point at `now`; `late` are the signals that reach the slot after the call emptied it
  and before the line that ends the wait, if it writes one. -/
  | waitOut (now : Nat) (late : List Signal) (answers : List (Option AxError))

namespace Stay

/-- The run's room when the run begins. -/
def opening (run : RunId) (room : Address) (who : List Char) (inbox : Inbox) : Stay :=
  { desk := newDesk run room who inbox, minted := 0, story := [] }

def mintedMax : Nat := 2 ^ 32 - 1

def mintedId (run : RunId) (count : Nat) : List Char :=
  run.display ++ "-s".toList ++ Text.decimal count

/-- A call at the desk. Of what arrives while it runs, the line that ends a wait comes last. -/
def call {α : Type} (stay : Stay) (clock : Option Nat) (late : List Signal)
    (answers : List (Option AxError)) (effect : Desk α) : Stay :=
  let after := (run effect { desk := stay.desk, lines := [], answers }).2
  let ending := after.lines.filter SignalEffect.endsWait
  let others := after.lines.filter fun line => !line.endsWait
  { stay with
    desk := { after.desk with slot := after.desk.slot ++ late }
    story := stay.story ++ others.map (.wrote · clock) ++ late.map .arrived
      ++ ending.map (.wrote · clock) }

/-- A send of a built signal. -/
def sendAs (stay : Stay) (signal : Signal) (waits : Bool) (answers : List (Option AxError)) : Stay :=
  stay.call none [] answers (SignalDesk.send signal (if waits then some signal.room else none))

/-- A send mints its id first, and keeps it minted if it is refused. -/
def send (stay : Stay) (letter : Option Signal) (waits : Bool) (answers : List (Option AxError)) :
    Stay :=
  if stay.minted < mintedMax then
    let stay := { stay with minted := stay.minted + 1 }
    match letter with
    | none => stay
    | some letter =>
      stay.sendAs { letter with id := mintedId stay.desk.run stay.minted } waits answers
  else stay

def step (stay : Stay) : StayOp → Stay
  | .arrive signal =>
    { stay with
      desk := { stay.desk with slot := stay.desk.slot ++ [signal] }
      story := stay.story ++ [.arrived signal] }
  | .send letter waits answers => stay.send letter waits answers
  | .takeSteer answers => stay.call none [] answers SignalDesk.takeSteer
  | .pull answers => stay.call none [] answers SignalDesk.pull
  | .answered answers => stay.call none [] answers SignalDesk.answered
  | .waitLeft answers => stay.call none [] answers SignalDesk.waitLeft
  | .waitOut now late answers => stay.call (some now) late answers (SignalDesk.waitOut now)

end Stay

/-- No reply to the send of `id` has arrived at the room since. -/
def Unreplied (room : Address) (before : List Moment) (id : List Char) : Prop :=
  ∀ earlier sent clock between, before = earlier ++ .wrote (.enqueued sent) clock :: between →
    sent.id = id → ∀ reply, .arrived reply ∈ between →
      ¬(reply.from_ = sent.room.text ∧ reply.room = room)

/-- What must hold when a line of a wait is written: a start is the first of its send, taken at a
clock reading that its deadline passes by no more than the patience; an end is the first of its
send and comes after its start; and a timeout is written at or past that deadline, and no reply has
arrived. -/
def WaitDue (room : Address) (before : List Moment) : Moment → Prop
  | .wrote (.waitStarted _ id deadline) clock =>
    (∃ sent ∈ before, sent.sends id = true) ∧
      (∀ other ∈ before, other.starts id = false ∧ other.ends id = false) ∧
      ∃ stop, clock = some stop ∧ deadline ≤ stop + ReplyWait.patienceMs
  | .wrote (.waitEnded id how) clock =>
    (∃ start ∈ before, start.starts id = true) ∧ (∀ other ∈ before, other.ends id = false) ∧
      (how = .timeout →
        (∃ now on_ deadline stop, clock = some now ∧
          .wrote (.waitStarted on_ id deadline) (some stop) ∈ before ∧ deadline ≤ now) ∧
        Unreplied room before id)
  | _ => True

/-- The queue takes what stands in the slot before the first reply, if there is one. -/
def SignalDesk.ReplyKept (desk : SignalDesk) : Prop :=
  ∀ wait ∈ desk.waiting, (replyIn wait desk.room desk.slot).isSome = true →
    desk.inbox.TakesAll
      (desk.slot.takeWhile fun signal => !(wait.kept.isNone && wait.answers signal desk.room))

/-- Whether a wait ends at a clock reading where no reply came. -/
def ReplyWait.over_ (wait : ReplyWait) (now : Nat) : Bool :=
  (wait.deadline.getD (ReplyWait.deadlineAt now)) ≤ now

/-- What a safe point needs: its first line is refused before the slot is emptied; or a reply it
takes out of the slot reaches its line, past a queue that takes the other signals and a post that
takes the line; and no reply arrives between the emptying and the line of a timeout. -/
def SignalDesk.Heard (desk : SignalDesk) (now : Nat) (late : List Signal)
    (answers : List (Option AxError)) : Prop :=
  ∀ wait ∈ desk.waiting, (wait.deadline = none ∧ Refuses answers) ∨
    (((replyIn wait desk.room desk.slot).isSome = true →
        desk.inbox.TakesAll (others wait desk.room desk.slot) ∧
          ¬Refuses (if wait.deadline.isNone then answers.tail else answers)) ∧
      (wait.kept = none → replyIn wait desk.room desk.slot = none → wait.over_ now = true →
        ∀ reply ∈ late, wait.answers reply desk.room = false))

/-- An operation that drops no reply of an open wait. -/
def Stay.Hears (stay : Stay) : StayOp → Prop
  | .takeSteer _ | .pull _ => stay.desk.ReplyKept
  | .waitOut now late answers => stay.desk.Heard now late answers
  | _ => True

instance (desk : SignalDesk) : Decidable desk.ReplyKept :=
  inferInstanceAs (Decidable (∀ wait ∈ desk.waiting, _ → _))

instance (desk : SignalDesk) (now : Nat) (late : List Signal) (answers : List (Option AxError)) :
    Decidable (desk.Heard now late answers) :=
  inferInstanceAs (Decidable (∀ wait ∈ desk.waiting, _ ∨ _))

instance (stay : Stay) : (op : StayOp) → Decidable (stay.Hears op)
  | .takeSteer _ | .pull _ => inferInstanceAs (Decidable stay.desk.ReplyKept)
  | .waitOut now late answers => inferInstanceAs (Decidable (stay.desk.Heard now late answers))
  | .arrive _ | .send _ _ _ | .answered _ | .waitLeft _ => isTrue trivial

/-- What is known of an open wait: its send stands in the story, no line ends it, its first line is
there once it has a deadline, and every reply that arrived since the send is kept or still in the
slot. -/
structure Open (stay : Stay) (wait : ReplyWait) : Prop where
  minted : ∃ count ≤ stay.minted, wait.signal = Stay.mintedId stay.desk.run count
  sent : ∃ sent ∈ stay.story, sent.sends wait.signal = true
  asked : ∀ sent clock, .wrote (.enqueued sent) clock ∈ stay.story → sent.id = wait.signal →
    sent.room = wait.on_
  unended : ∀ other ∈ stay.story, other.ends wait.signal = false
  unstarted : wait.deadline = none → ∀ other ∈ stay.story, other.starts wait.signal = false
  started : ∀ deadline, wait.deadline = some deadline → ∃ stop,
    .wrote (.waitStarted wait.on_ wait.signal deadline) (some stop) ∈ stay.story
  heard : wait.kept = none → ∀ earlier sent clock between,
    stay.story = earlier ++ .wrote (.enqueued sent) clock :: between → sent.id = wait.signal →
      ∀ reply, .arrived reply ∈ between → wait.answers reply stay.desk.room = true →
        reply ∈ stay.desk.slot

/-- What holds of the desk of a room after any run of it. -/
structure Sound (home : Address) (stay : Stay) : Prop where
  placed : stay.desk.room = home
  due : Trace.Always (WaitDue home) stay.story
  fresh : ∀ count, stay.minted < count → ∀ moment ∈ stay.story,
    moment.sends (Stay.mintedId stay.desk.run count) = false ∧
      moment.starts (Stay.mintedId stay.desk.run count) = false ∧
      moment.ends (Stay.mintedId stay.desk.run count) = false
  waits : ∀ wait, stay.desk.waiting = some wait → Open stay wait

section Steps

variable {stay : Stay} {home : Address}

theorem mintedId_injective {run : RunId} {first second : Nat}
    (same : Stay.mintedId run first = Stay.mintedId run second) : first = second := by
  unfold Stay.mintedId at same
  exact Text.decimal_injective (append_cancel_left same)

theorem sound_opening (run : RunId) (room : Address) (who : List Char) (inbox : Inbox) :
    Sound room (Stay.opening run room who inbox) where
  placed := rfl
  due := always_nil
  fresh _ _ moment member := by cases member
  waits wait waiting := by cases waiting

theorem Sound.still (sound : Sound home stay) {desk : SignalDesk} (room : desk.room = stay.desk.room)
    (run : desk.run = stay.desk.run)
    (waits : ∀ wait, desk.waiting = some wait → ∃ before kept, stay.desk.waiting = some before ∧
      wait = { before with kept } ∧ (kept = none → before.kept = none ∧
        ∀ reply ∈ stay.desk.slot, before.answers reply stay.desk.room = true → reply ∈ desk.slot)) :
    Sound home { stay with desk } where
  placed := room.trans sound.placed
  due := sound.due
  fresh := run ▸ sound.fresh
  waits wait waiting := by
    obtain ⟨before, kept, same, rfl, stays⟩ := waits wait waiting
    have open_ := sound.waits before same
    refine ⟨?_, open_.sent, open_.asked, open_.unended, open_.unstarted, open_.started, ?_⟩
    · exact run ▸ open_.minted
    · intro none_ earlier sent clock between story here reply member answers
      change ({ before with kept } : ReplyWait).answers reply desk.room = true at answers
      rw [room] at answers
      have unkept := stays none_
      exact unkept.2 reply
        (open_.heard unkept.1 earlier sent clock between story here reply member answers) answers

/-- A desk that waits for nothing has no wait to keep. -/
theorem Sound.rests (sound : Sound home stay) {desk : SignalDesk} (room : desk.room = stay.desk.room)
    (run : desk.run = stay.desk.run) (idle : desk.waiting = none) : Sound home { stay with desk } := by
  apply sound.still room run
  intro wait waiting
  rw [idle] at waiting
  cases waiting

variable {wait : ReplyWait}

/-- A moment that neither sends for the wait, nor starts or ends it, leaves it open: what arrives
stands in the slot. -/
theorem Open.grow {moment : Moment} {slot : List Signal} (open_ : Open stay wait)
    (sends : moment.sends wait.signal = false) (starts : moment.starts wait.signal = false)
    (ends : moment.ends wait.signal = false) (kept : stay.desk.slot ⊆ slot)
    (lands : ∀ signal, moment = .arrived signal → signal ∈ slot) :
    Open { stay with desk := { stay.desk with slot }, story := stay.story ++ [moment] } wait := by
  obtain ⟨sent, inside, sends_⟩ := open_.sent
  refine ⟨open_.minted, ⟨sent, mem_append_left _ inside, sends_⟩, ?_,
    forall_concat open_.unended ends, fun none_ => forall_concat (open_.unstarted none_) starts,
    ?_, ?_⟩
  · intro sent clock member here
    rcases mem_append.mp member with old | new
    · exact open_.asked sent clock old here
    · rw [← mem_singleton.mp new] at sends
      simp [Moment.sends, here] at sends
  · intro deadline at_
    obtain ⟨stop, member⟩ := open_.started deadline at_
    exact ⟨stop, mem_append_left _ member⟩
  · intro none_ earlier sent clock between story here reply member answers
    rcases place_concat story with ⟨empty, -, -⟩ | ⟨shorter, rfl, before⟩
    · rw [empty] at member
      cases member
    · rcases mem_append.mp member with old | new
      · exact kept (open_.heard none_ earlier sent clock shorter before here reply old answers)
      · exact lands reply (mem_singleton.mp new).symm

theorem Sound.arrive (sound : Sound home stay) (signal : Signal) :
    Sound home (stay.step (.arrive signal)) where
  placed := sound.placed
  due := always_concat.mpr ⟨sound.due, trivial⟩
  fresh count above := forall_concat (sound.fresh count above) ⟨rfl, rfl, rfl⟩
  waits wait waiting := by
    refine (sound.waits wait waiting).grow rfl rfl rfl (subset_append_left _ _) fun reply same => ?_
    cases same
    exact mem_append_right _ (mem_singleton_self _)

variable (sound : Sound home stay)

include sound

theorem Sound.read (signal : Signal) (who : List Char) (clock : Option Nat) :
    Sound home { stay with story := stay.story ++ [.wrote (.consumed signal who) clock] } where
  placed := sound.placed
  due := always_concat.mpr ⟨sound.due, trivial⟩
  fresh count above := forall_concat (sound.fresh count above) ⟨rfl, rfl, rfl⟩
  waits wait waiting := (sound.waits wait waiting).grow rfl rfl rfl (fun _ => id) fun _ => nofun

theorem Sound.reads {lines : List SignalEffect} (clock : Option Nat)
    (read : ∀ line ∈ lines, ∃ signal who, line = .consumed signal who) :
    Sound home { stay with story := stay.story ++ lines.map (.wrote · clock) } := by
  induction lines generalizing stay with
  | nil => simpa using sound
  | cons line rest ih =>
    obtain ⟨signal, who, rfl⟩ := read line (mem_cons_self ..)
    have later := ih (sound.read signal who clock) fun other member =>
      read other (mem_cons_of_mem _ member)
    rw [map_cons]
    rwa [append_assoc, singleton_append] at later

theorem Sound.mint : Sound home { stay with minted := stay.minted + 1 } where
  placed := sound.placed
  due := sound.due
  fresh count above := sound.fresh count (Nat.lt_of_succ_lt above)
  waits wait waiting := by
    have open_ := sound.waits wait waiting
    obtain ⟨count, below, named⟩ := open_.minted
    exact ⟨⟨count, Nat.le_succ_of_le below, named⟩, open_.sent, open_.asked, open_.unended,
      open_.unstarted, open_.started, open_.heard⟩

theorem Sound.next_ne (waiting : stay.desk.waiting = some wait)
    {count : Nat} (above : stay.minted < count) :
    wait.signal ≠ Stay.mintedId stay.desk.run count := by
  obtain ⟨low, below, named⟩ := (sound.waits wait waiting).minted
  intro same
  have := mintedId_injective (named.symm.trans same)
  omega

theorem Sound.posted {signal : Signal} (clock : Option Nat)
    (named : signal.id = Stay.mintedId stay.desk.run (stay.minted + 1)) :
    Sound home { stay with
      minted := stay.minted + 1
      story := stay.story ++ [.wrote (.enqueued signal) clock] } where
  placed := sound.placed
  due := always_concat.mpr ⟨sound.due, trivial⟩
  fresh count above := by
    refine forall_concat (sound.fresh count (Nat.lt_of_succ_lt above)) ⟨?_, rfl, rfl⟩
    have apart : signal.id ≠ Stay.mintedId stay.desk.run count := fun same => by
      have := mintedId_injective (named.symm.trans same)
      change stay.minted + 1 < count at above
      omega
    simpa [Moment.sends] using apart
  waits wait waiting := by
    have apart := sound.next_ne waiting (Nat.lt_succ_self stay.minted)
    refine (sound.mint.waits wait waiting).grow ?_ rfl rfl (fun _ => id) fun other same => ?_
    · simpa [Moment.sends, named] using Ne.symm apart
    · cases same

theorem Sound.asks {signal : Signal} (clock : Option Nat)
    (named : signal.id = Stay.mintedId stay.desk.run (stay.minted + 1)) :
    Open { stay with
      minted := stay.minted + 1
      story := stay.story ++ [.wrote (.enqueued signal) clock] } (.asked signal.room signal.id) := by
  have new := sound.fresh _ (Nat.lt_succ_self stay.minted)
  simp only [← named] at new
  refine ⟨⟨stay.minted + 1, Nat.le_refl _, named⟩, ?_, ?_, ?_, ?_, ?_, ?_⟩
  · exact ⟨_, mem_append_right _ (mem_singleton_self _), by simp [Moment.sends, ReplyWait.asked]⟩
  · intro sent clock' member here
    rcases mem_append.mp member with old | last
    · have unsent := (new _ old).1
      rw [Moment.sends, decide_eq_false_iff_not] at unsent
      exact absurd here unsent
    · cases mem_singleton.mp last
      rfl
  · intro other member
    rcases mem_append.mp member with old | last
    · exact (new other old).2.2
    · exact mem_singleton.mp last ▸ rfl
  · intro _ other member
    rcases mem_append.mp member with old | last
    · exact (new other old).2.1
    · exact mem_singleton.mp last ▸ rfl
  · intro deadline impossible
    cases impossible
  · intro _ earlier sent clock' between story here reply member _
    rcases place_concat story with ⟨empty, -, -⟩ | ⟨shorter, -, before⟩
    · rw [empty] at member
      cases member
    · have unsent := (new (.wrote (.enqueued sent) clock') (by rw [before]; simp)).1
      rw [Moment.sends, decide_eq_false_iff_not] at unsent
      exact absurd here unsent

theorem Sound.started (waiting : stay.desk.waiting = some wait)
    (none_ : wait.deadline = none) (now : Nat) :
    Sound home { stay with
      desk := { stay.desk with
        waiting := some { wait with deadline := some (ReplyWait.deadlineAt now) } }
      story := stay.story ++
        [.wrote (.waitStarted wait.on_ wait.signal (ReplyWait.deadlineAt now)) (some now)] } where
  placed := sound.placed
  due := by
    have open_ := sound.waits wait waiting
    refine always_concat.mpr ⟨sound.due, open_.sent, ?_, now, rfl, Nat.min_le_left _ _⟩
    exact fun other member => ⟨open_.unstarted none_ other member, open_.unended other member⟩
  fresh count above := forall_concat (sound.fresh count above)
    ⟨rfl, by simpa [Moment.starts] using sound.next_ne waiting above, rfl⟩
  waits other same := by
    cases same
    have open_ := sound.waits wait waiting
    refine ⟨open_.minted, ?_, ?_, ?_, fun impossible => ?_, ?_, ?_⟩
    · obtain ⟨sent, inside, sends⟩ := open_.sent
      exact ⟨sent, mem_append_left _ inside, sends⟩
    · intro sent clock member
      rcases mem_append.mp member with old | new
      · exact open_.asked sent clock old
      · cases mem_singleton.mp new
    · intro other member
      rcases mem_append.mp member with old | new
      · exact open_.unended other old
      · exact mem_singleton.mp new ▸ rfl
    · cases impossible
    · intro deadline at_
      rw [← Option.some.inj at_]
      exact ⟨now, mem_append_right _ (mem_singleton_self _)⟩
    · intro unkept earlier sent clock between story here reply member answers
      rcases place_concat story with ⟨empty, -, -⟩ | ⟨shorter, rfl, before⟩
      · rw [empty] at member
        cases member
      · rcases mem_append.mp member with old | new
        · exact open_.heard unkept earlier sent clock shorter before here reply old answers
        · cases mem_singleton.mp new

theorem Sound.ended {wait : ReplyWait} {deadline : Nat}
    (waiting : stay.desk.waiting = some wait) (at_ : wait.deadline = some deadline)
    {how : WaitEnd} {clock : Option Nat}
    (silent : how = .timeout → (∃ now, clock = some now ∧ deadline ≤ now) ∧ wait.kept = none ∧
      ∀ reply ∈ stay.desk.slot, wait.answers reply stay.desk.room = false) :
    Sound home { stay with
      desk := { stay.desk with waiting := none }
      story := stay.story ++ [.wrote (.waitEnded wait.signal how) clock] } where
  placed := sound.placed
  due := by
    have open_ := sound.waits wait waiting
    obtain ⟨stop, started⟩ := open_.started deadline at_
    refine always_concat.mpr ⟨sound.due, ⟨_, started, by simp [Moment.starts]⟩,
      open_.unended, fun timeout => ?_⟩
    obtain ⟨⟨now, read, past⟩, unkept, unheard⟩ := silent timeout
    refine ⟨⟨now, wait.on_, deadline, stop, read, started, past⟩, ?_⟩
    rintro earlier sent clock' between story here reply member ⟨from_, room⟩
    have asked := open_.asked sent clock' (by rw [story]; simp) here
    have answers : wait.answers reply stay.desk.room = true := by
      simp [ReplyWait.answers, ← asked, from_, room, sound.placed]
    have inside := open_.heard unkept earlier sent clock' between story here reply member answers
    rw [unheard reply inside] at answers
    cases answers
  fresh count above := forall_concat (sound.fresh count above)
    ⟨rfl, rfl, by simpa [Moment.ends] using sound.next_ne waiting above⟩
  waits other same := by cases same

end Steps

section Calls

/-- What a call did aside from the wait and the slot: it recorded signals as read. -/
structure Aside (before after : AtDesk) : Prop where
  waiting : after.desk.waiting = before.desk.waiting
  slot : after.desk.slot = before.desk.slot
  room : after.desk.room = before.desk.room
  run : after.desk.run = before.desk.run
  read : ∃ read, after.lines = before.lines ++ read ∧
    ∀ line ∈ read, ∃ signal who, line = .consumed signal who

variable {before middle after here : AtDesk}

theorem Aside.refl (here : AtDesk) : Aside here here :=
  ⟨rfl, rfl, rfl, rfl, [], (append_nil _).symm, by simp⟩

theorem aside_desk {desk : SignalDesk} (here : AtDesk) (waiting : desk.waiting = here.desk.waiting)
    (slot : desk.slot = here.desk.slot) (room : desk.room = here.desk.room)
    (run : desk.run = here.desk.run) : Aside here { here with desk } :=
  ⟨waiting, slot, room, run, [], (append_nil _).symm, by simp⟩

theorem Aside.trans (first : Aside before middle) (second : Aside middle after) :
    Aside before after := by
  obtain ⟨read, lines, each⟩ := first.read
  obtain ⟨more, later, others⟩ := second.read
  refine ⟨second.waiting.trans first.waiting, second.slot.trans first.slot,
    second.room.trans first.room, second.run.trans first.run, read ++ more, ?_, ?_⟩
  · rw [later, lines, append_assoc]
  · intro line member
    rcases mem_append.mp member with early | late
    · exact each line early
    · exact others line late

theorem aside_post (signal : Signal) (who : List Char) (here : AtDesk) :
    Aside here (run (post (.consumed signal who)) here).2 := by
  rcases run_post (.consumed signal who) here with ⟨-, refusal, done⟩ | ⟨-, done⟩
  · rw [done]
    exact ⟨rfl, rfl, rfl, rfl, [], (append_nil _).symm, by simp⟩
  · rw [done]
    exact ⟨rfl, rfl, rfl, rfl, [.consumed signal who], rfl, by simp⟩

theorem aside_answerAll (who : List Char) (signals : List Signal) (here : AtDesk) :
    Aside here (run (answerAll who signals) here).2 := by
  induction signals generalizing here with
  | nil => exact Aside.refl here
  | cons signal rest ih =>
    simp only [answerAll, run_bind, change, run_update]
    have first := (@aside_desk { here.desk with held := signal :: rest } here rfl rfl rfl rfl).trans (aside_post signal who _)
    cases done : run (post (.consumed signal who))
        { here with desk := { here.desk with held := signal :: rest } } with
    | mk answer middle =>
      rw [done] at first
      cases answer with
      | error refusal => exact first
      | ok posted =>
        exact (first.trans
          (@aside_desk { middle.desk with held := rest } middle rfl rfl rfl rfl)).trans
          (ih { middle with desk := { middle.desk with held := rest } })

/-- After the slot is emptied into the queue nothing else has changed but the reply the wait keeps;
and a wait that keeps none has had none in the slot, where the queue takes what stood before it. -/
theorem collectAll_waits (signals : List Signal) (here : AtDesk) :
    (run (collectAll signals) here).2.lines = here.lines ∧
      (run (collectAll signals) here).2.desk.slot = here.desk.slot ∧
      (run (collectAll signals) here).2.desk.room = here.desk.room ∧
      (run (collectAll signals) here).2.desk.run = here.desk.run ∧
      ∀ wait, (run (collectAll signals) here).2.desk.waiting = some wait →
        ∃ asked kept, here.desk.waiting = some asked ∧ wait = { asked with kept } ∧
          (kept = none → asked.kept = none ∧
            (((replyIn asked here.desk.room signals).isSome = true →
              here.desk.inbox.TakesAll (signals.takeWhile fun signal =>
                !(asked.kept.isNone && asked.answers signal here.desk.room))) →
              replyIn asked here.desk.room signals = none)) := by
  induction signals generalizing here with
  | nil => exact ⟨rfl, rfl, rfl, rfl, fun wait same => ⟨wait, wait.kept, same, rfl, fun none_ => ⟨none_, fun _ => rfl⟩⟩⟩
  | cons signal rest ih =>
    have silent : here.desk.keeps signal = false → ∀ wait, here.desk.waiting = some wait →
        wait.kept = none → wait.answers signal here.desk.room = false := by
      intro unkept wait waiting none_
      simpa [keeps, waiting, none_] using unkept
    rcases run_collectAll signal rest here with
      ⟨kept, done⟩ | ⟨unkept, admits, done⟩ | ⟨unkept, sheds, refusal, done⟩
    · rw [done]
      obtain ⟨lines, slot, room, run_, waits⟩ := ih { here with desk := setKept signal here.desk }
      refine ⟨lines, slot, room, run_, fun wait same => ?_⟩
      obtain ⟨asked, kept', found, rfl, unkept⟩ := waits wait same
      cases waiting : here.desk.waiting with
      | none => simp [setKept, waiting] at found
      | some first =>
        simp only [setKept, waiting, Option.map_some, Option.some.injEq] at found
        subst found
        exact ⟨first, kept', rfl, rfl, fun none_ => by cases (unkept none_).1⟩
    · rw [done]
      obtain ⟨lines, slot, room, run_, waits⟩ := ih (delivered signal here)
      refine ⟨lines, slot, room, run_, fun wait same => ?_⟩
      obtain ⟨asked, kept', waiting, same, later⟩ := waits wait same
      refine ⟨asked, kept', waiting, same, fun none_ => ?_⟩
      obtain ⟨none_, later⟩ := later none_
      have quiet := silent unkept asked waiting none_
      have past : replyIn asked here.desk.room (signal :: rest) =
          replyIn asked here.desk.room rest := by
        simp [replyIn, quiet]
      refine ⟨none_, fun takes => past ▸ later fun some_ => ?_⟩
      have room := takes (past ▸ some_)
      rw [takeWhile_cons_of_pos (by simp [quiet])] at room
      exact room.2
    · rw [done]
      refine ⟨rfl, rfl, rfl, rfl, fun wait same => ⟨wait, wait.kept, same, rfl, fun none_ => ⟨none_, fun takes => ?_⟩⟩⟩
      by_contra some_
      have room := takes (Option.isSome_iff_ne_none.mpr some_)
      rw [takeWhile_cons_of_pos (by simp [silent unkept wait same none_])] at room
      exact sheds room.1

/-- What follows a collecting does no more than it does from where the collecting ended. -/
theorem aside_collect {α : Type} {next : Unit → Desk α} (here : AtDesk)
    (follows : ∀ answer middle, Aside middle (run (next answer) middle).2) :
    Aside (run collect here).2 (run (collect >>= next) here).2 := by
  cases done : run collect here with
  | mk result middle =>
    cases result with
    | error refusal =>
      rw [run_bind_error done]
      exact Aside.refl middle
    | ok answer =>
      rw [run_bind_ok done]
      exact follows answer middle

theorem aside_takeSteer (here : AtDesk) :
    Aside (run collect here).2 (run takeSteer here).2 := by
  refine aside_collect here fun answer middle => ?_
  simp only [run_bind, run_look]
  cases middle.desk.inbox.takeSteer with
  | none => exact Aside.refl middle
  | some found =>
    obtain ⟨signal, inbox⟩ := found
    simp only [run_bind, change, run_update]
    cases Collab.Letter.fromSignal signal with
    | ok letter => exact aside_desk middle rfl rfl rfl rfl
    | error unreadable =>
      have taken : Aside middle { middle with desk := { middle.desk with inbox } } :=
        aside_desk middle rfl rfl rfl rfl
      have read := taken.trans (aside_post signal middle.desk.who _)
      simp only [run_bind]
      cases posted : run (post (.consumed signal middle.desk.who))
          { middle with desk := { middle.desk with inbox } } with
      | mk outcome after =>
        rw [posted] at read
        cases outcome <;> exact read

theorem aside_pull (here : AtDesk) : Aside (run collect here).2 (run pull here).2 :=
  aside_collect here fun _ middle => aside_desk middle rfl rfl rfl rfl

theorem waitOn_did (wait : ReplyWait) (now deadline : Nat) (here : AtDesk) :
    ∃ inbox held,
      ((run (waitOn now deadline wait) here).2.desk =
            { here.desk with slot := [], inbox } ∧
          (run (waitOn now deadline wait) here).2.lines = here.lines ∧
          ((replyIn wait here.desk.room here.desk.slot).isSome = true →
            ¬(here.desk.inbox.TakesAll (others wait here.desk.room here.desk.slot) ∧
              ¬Refuses here.answers))) ∨
        ((run (waitOn now deadline wait) here).2.desk =
            { here.desk with slot := [], inbox, held, waiting := none } ∧
          ∃ how, (run (waitOn now deadline wait) here).2.lines =
              here.lines ++ [.waitEnded wait.signal how] ∧
            (how = .timeout → deadline ≤ now ∧ wait.kept = none ∧
              replyIn wait here.desk.room here.desk.slot = none)) := by
  have lines : (sorted wait here).lines = here.lines := by rw [sorted_frame]
  have answers : (sorted wait here).answers = here.answers := by rw [sorted_frame]
  have desk := congrArg AtDesk.desk (sorted_frame wait here)
  have waited := run_waitOn wait now deadline here
  generalize (run (waitOn now deadline wait) here).2 = after at waited ⊢
  refine ⟨(sorted wait here).desk.inbox, ?_⟩
  cases waited with
  | shed full => exact ⟨[], .inl ⟨desk, lines, fun _ both => full both.1⟩⟩
  | refused refuses => exact ⟨[], .inl ⟨desk, lines, fun _ both => both.2 (answers ▸ refuses)⟩⟩
  | waits silent =>
    refine ⟨[], .inl ⟨desk, lines, fun some_ => ?_⟩⟩
    rw [(Option.or_eq_none_iff.mp silent).2] at some_
    cases some_
  | @replied reply found =>
    refine ⟨here.desk.held ++ [reply], .inr ⟨?_, .reply reply.id, ?_, nofun⟩⟩
    · rw [desk]
    · rw [lines]
  | timedOut silent past =>
    refine ⟨here.desk.held, .inr ⟨?_, .timeout, ?_, fun _ =>
      ⟨past, Option.or_eq_none_iff.mp silent⟩⟩⟩
    · rw [desk]
    · rw [lines]

end Calls

/-- The state a call begins in. -/
abbrev Stay.begin (stay : Stay) (answers : List (Option AxError)) : AtDesk :=
  { desk := stay.desk, lines := [], answers }

section Runs

variable {stay : Stay} {home : Address}

theorem call_parted {α : Type} {effect : Desk α} {clock : Option Nat} {late : List Signal}
    {answers : List (Option AxError)} (first last : List SignalEffect) {desk : SignalDesk}
    (desks : (run effect (stay.begin answers)).2.desk = desk)
    (lines : (run effect (stay.begin answers)).2.lines = first ++ last)
    (before : ∀ line ∈ first, line.endsWait = false) (after : ∀ line ∈ last, line.endsWait = true) :
    stay.call clock late answers effect =
      { stay with
        desk := { desk with slot := desk.slot ++ late }
        story := stay.story ++ first.map (.wrote · clock) ++ late.map .arrived
          ++ last.map (.wrote · clock) } := by
  have none_ : first.filter SignalEffect.endsWait = [] :=
    filter_eq_nil_iff.mpr fun line member => by simp [before line member]
  have all : first.filter (fun line => !line.endsWait) = first :=
    filter_eq_self.mpr fun line member => by simp [before line member]
  have ending : last.filter SignalEffect.endsWait = last :=
    filter_eq_self.mpr after
  have rest : last.filter (fun line => !line.endsWait) = [] :=
    filter_eq_nil_iff.mpr fun line member => by simp [after line member]
  simp only [Stay.call, desks, lines, filter_append, none_, all, ending, rest, nil_append,
    append_nil]

/-- A call that writes nothing leaves the story as it is. -/
theorem call_quiet {α : Type} {effect : Desk α} {clock : Option Nat} {answers : List (Option AxError)}
    {after : AtDesk} (done : (run effect (stay.begin answers)).2 = after)
    (quiet : after.lines = []) :
    stay.call clock [] answers effect = { stay with desk := after.desk } := by
  rw [call_parted [] [] (congrArg AtDesk.desk done) ((congrArg AtDesk.lines done).trans quiet)
    (by simp) (by simp)]
  simp

theorem call_writes {α : Type} {effect : Desk α} {clock : Option Nat} {answers : List (Option AxError)}
    {after : AtDesk} (done : (run effect (stay.begin answers)).2 = after)
    {line : SignalEffect} (writes : after.lines = [line]) :
    stay.call clock [] answers effect =
      { stay with desk := after.desk, story := stay.story ++ [.wrote line clock] } := by
  cases ends : line.endsWait <;> simp [Stay.call, done, writes, ends]

theorem Sound.arrives (sound : Sound home stay) (late : List Signal) :
    Sound home { stay with
      desk := { stay.desk with slot := stay.desk.slot ++ late }
      story := stay.story ++ late.map .arrived } := by
  induction late generalizing stay with
  | nil => simpa using sound
  | cons signal rest ih =>
    have later := ih (sound.arrive signal)
    simp only [Stay.step] at later
    rw [map_cons]
    rwa [append_assoc, append_assoc, singleton_append, singleton_append] at later

variable {answers : List (Option AxError)} (sound : Sound home stay)

include sound

theorem Sound.collected {α : Type} {effect : Desk α} (kept : stay.desk.ReplyKept)
    (aside : Aside (run collect (stay.begin answers)).2
      (run effect (stay.begin answers)).2) :
    Sound home (stay.call none [] answers effect) := by
  have all : run collect (stay.begin answers) =
      run (collectAll stay.desk.slot) (emptied (stay.begin answers)) := by
    unfold collect
    exact run_bind_ok (run_takeSlot _)
  obtain ⟨lines, slot, room, run_, waits⟩ :=
    collectAll_waits stay.desk.slot (emptied (stay.begin answers))
  rw [← all] at lines slot room run_ waits
  obtain ⟨read, written, each⟩ := aside.read
  rw [lines] at written
  have said : (run effect (stay.begin answers)).2.lines = read ++ [] := by
    rw [written, append_nil]
    rfl
  rw [call_parted read [] rfl said (fun line member => ?_) (by simp)]
  · have still := @Sound.still _ _ sound (run effect (stay.begin answers)).2.desk
      (aside.room.trans room) (aside.run.trans run_) fun wait waiting => by
        rw [aside.waiting] at waiting
        obtain ⟨asked, kept', here, same, unkept⟩ := waits wait waiting
        refine ⟨asked, kept', here, same, fun none_ => ?_⟩
        obtain ⟨before, silent⟩ := unkept none_
        refine ⟨before, fun reply inside answers_ => ?_⟩
        have quiet := find?_eq_none.mp (silent (kept asked here)) reply inside
        simp only [before, Option.isNone_none, Bool.true_and] at quiet
        exact absurd answers_ quiet
    simpa using still.reads none each
  · obtain ⟨signal, who, rfl⟩ := each line member
    rfl

theorem Sound.answered (answers : List (Option AxError)) :
    Sound home (stay.step (.answered answers)) := by
  have aside := aside_answerAll stay.desk.who stay.desk.held (stay.begin answers)
  have all : run SignalDesk.answered (stay.begin answers) =
      run (answerAll stay.desk.who stay.desk.held) (stay.begin answers) := rfl
  rw [← all] at aside
  obtain ⟨read, written, each⟩ := aside.read
  have said : (run SignalDesk.answered (stay.begin answers)).2.lines =
      read ++ [] := by
    rw [written, append_nil]
    rfl
  rw [Stay.step, call_parted read [] rfl said (fun line member => ?_) (by simp)]
  · have still := @Sound.still _ _ sound
      (run SignalDesk.answered (stay.begin answers)).2.desk
      aside.room aside.run fun wait waiting => by
        rw [aside.waiting] at waiting
        exact ⟨wait, wait.kept, waiting, rfl, fun none_ => ⟨none_, fun reply inside _ => aside.slot ▸ inside⟩⟩
    simpa using still.reads none each
  · obtain ⟨signal, who, rfl⟩ := each line member
    rfl

theorem Sound.waitLeft (answers : List (Option AxError)) :
    Sound home (stay.step (.waitLeft answers)) := by
  rw [Stay.step]
  cases waiting : stay.desk.waiting with
  | none =>
    have all : run SignalDesk.waitLeft (stay.begin answers) =
        (.ok (), (stay.begin answers)) := by
      unfold SignalDesk.waitLeft
      simp only [run_bind, run_look, waiting]
      rfl
    rw [call_quiet (congrArg Prod.snd all) rfl]
    exact sound
  | some wait =>
    cases at_ : wait.deadline with
    | none =>
      have all : run SignalDesk.waitLeft (stay.begin answers) =
          (.ok (), { desk := { stay.desk with
            waiting := none
            inbox := stay.desk.inbox.giveBack wait.kept.toList }, lines := [], answers }) := by
        unfold SignalDesk.waitLeft
        simp only [run_bind, run_look, waiting, change, run_update, at_]
        rfl
      rw [call_quiet (congrArg Prod.snd all) rfl]
      exact sound.rests rfl rfl rfl
    | some deadline =>
      have all : run SignalDesk.waitLeft (stay.begin answers) =
          run (post (.waitEnded wait.signal .left)) { desk := { stay.desk with
            waiting := none
            inbox := stay.desk.inbox.giveBack wait.kept.toList }, lines := [], answers } := by
        unfold SignalDesk.waitLeft
        simp only [run_bind, run_look, waiting, change, run_update, at_]
      rcases run_post _ _ with ⟨-, refusal, done⟩ | ⟨-, done⟩
      · rw [call_quiet (congrArg Prod.snd (all.trans done)) rfl]
        exact sound.rests rfl rfl rfl
      · rw [call_writes (congrArg Prod.snd (all.trans done)) rfl]
        have ended := @Sound.ended _ _ sound _ _ waiting at_ .left none (by simp)
        exact ended.rests rfl rfl rfl

theorem Sound.sendAs {signal : Signal} (waits : Bool)
    (answers : List (Option AxError))
    (named : signal.id = Stay.mintedId stay.desk.run (stay.minted + 1)) :
    Sound home (Stay.sendAs { stay with minted := stay.minted + 1 } signal waits answers) := by
  have minted := sound.mint
  rw [Stay.sendAs]
  by_cases twice : ((if waits then some signal.room else none).isSome &&
      stay.desk.waiting.isSome) = true
  · have all : (run (SignalDesk.send signal (if waits then some signal.room else none))
        (stay.begin answers)).2 =
          (stay.begin answers) := by
      unfold SignalDesk.send
      simp only [run_bind, run_look]
      rw [if_pos twice]
      rfl
    rw [@call_quiet { stay with minted := stay.minted + 1 } _ _ none answers _ all rfl]
    exact minted
  · have all : run (SignalDesk.send signal (if waits then some signal.room else none))
        (stay.begin answers) =
        run (post (.enqueued signal) >>= fun _ =>
          if waits then change fun desk => { desk with waiting := some (.asked signal.room signal.id) }
          else (pure () : Desk Unit))
        (stay.begin answers) := by
      unfold SignalDesk.send
      rw [run_bind, run_look]
      simp only
      cases waits <;> exact congrArg (run · _) (if_neg twice)
    rcases run_post (.enqueued signal) (stay.begin answers)
      with ⟨-, refusal, done⟩ | ⟨-, done⟩
    · rw [run_bind_error done] at all
      rw [@call_quiet { stay with minted := stay.minted + 1 } _ _ none answers _
        (congrArg Prod.snd all) rfl]
      exact minted
    · rw [run_bind_ok done] at all
      have posted := sound.posted none named
      cases waits with
      | false =>
        rw [@call_writes { stay with minted := stay.minted + 1 } _ _ none answers _
          (congrArg Prod.snd all) (.enqueued signal) rfl]
        exact posted
      | true =>
        rw [@call_writes { stay with minted := stay.minted + 1 } _ _ none answers _
          (congrArg Prod.snd all) (.enqueued signal) rfl]
        refine ⟨posted.placed, posted.due, posted.fresh, fun wait same => ?_⟩
        cases same
        have open_ := sound.asks none named
        exact ⟨open_.minted, open_.sent, open_.asked, open_.unended, open_.unstarted,
          open_.started, open_.heard⟩

theorem Sound.send (letter : Option Signal) (waits : Bool)
    (answers : List (Option AxError)) : Sound home (stay.step (.send letter waits answers)) := by
  rw [Stay.step, Stay.send]
  split
  · cases letter with
    | none => exact sound.mint
    | some letter => exact sound.sendAs waits answers rfl
  · exact sound

omit sound

theorem over_of_unasked {wait : ReplyWait} {now : Nat} (asked : wait.deadline = none)
    (past : ReplyWait.deadlineAt now ≤ now) : wait.over_ now = true := by
  have ends : wait.deadline.getD (ReplyWait.deadlineAt now) ≤ now := by
    rw [asked, Option.getD_none]
    exact past
  exact decide_eq_true ends

theorem replyIn_deadline (wait : ReplyWait) (deadline : Option Nat) (room : Address)
    (signals : List Signal) :
    replyIn { wait with deadline } room signals = replyIn wait room signals := rfl

theorem others_deadline (wait : ReplyWait) (deadline : Option Nat) (room : Address)
    (signals : List Signal) :
    others { wait with deadline } room signals = others wait room signals := rfl

theorem Sound.waitOn {wait : ReplyWait} {deadline now : Nat} {late : List Signal}
    {answers : List (Option AxError)} {lines : List SignalEffect} (sound : Sound home stay)
    (waiting : stay.desk.waiting = some wait) (at_ : wait.deadline = some deadline)
    (heard : (replyIn wait stay.desk.room stay.desk.slot).isSome = true →
      stay.desk.inbox.TakesAll (others wait stay.desk.room stay.desk.slot) ∧ ¬Refuses answers)
    (quiet : wait.kept = none → replyIn wait stay.desk.room stay.desk.slot = none →
      deadline ≤ now → ∀ reply ∈ late, wait.answers reply stay.desk.room = false) :
    ∃ desk ending, (run (SignalDesk.waitOn now deadline wait)
          { desk := stay.desk, lines, answers }).2.desk = desk ∧
      (run (SignalDesk.waitOn now deadline wait) { desk := stay.desk, lines, answers }).2.lines =
        lines ++ ending ∧
      (∀ line ∈ ending, line.endsWait = true) ∧
      Sound home { stay with
        desk := { desk with slot := desk.slot ++ late }
        story := stay.story ++ late.map .arrived ++ ending.map (.wrote · (some now)) } := by
  have arrived := sound.arrives late
  -- Where no reply stands in the slot and none is kept, none of its signals answers the wait.
  have silent : wait.kept = none → replyIn wait stay.desk.room stay.desk.slot = none →
      ∀ reply ∈ stay.desk.slot, wait.answers reply stay.desk.room = false := by
    intro unkept none_ reply inside
    simpa [unkept] using find?_eq_none.mp none_ reply inside
  obtain ⟨inbox, held, ⟨desk, said, kept⟩ | ⟨desk, how, said, timely⟩⟩ :=
    waitOn_did wait now deadline { desk := stay.desk, lines, answers }
  · refine ⟨_, [], rfl, by rw [said, append_nil], by simp, ?_⟩
    rw [desk]
    have none_ : replyIn wait stay.desk.room stay.desk.slot = none :=
      Option.not_isSome_iff_eq_none.mp fun some_ => kept some_ (heard some_)
    have still := @Sound.still _ _ arrived { stay.desk with slot := [] ++ late, inbox } rfl rfl
      fun other same => by
        change stay.desk.waiting = some other at same
        refine ⟨other, other.kept, same, rfl, fun unkept => ⟨unkept, fun reply inside answers_ => ?_⟩⟩
        rw [waiting] at same
        cases same
        rcases mem_append.mp inside with old | new
        · rw [silent unkept none_ reply old] at answers_
          cases answers_
        · exact new
    simpa using still
  · refine ⟨_, [.waitEnded wait.signal how], rfl, said, by simp [SignalEffect.endsWait], ?_⟩
    rw [desk]
    have ended := @Sound.ended _ _ arrived _ _ waiting at_ how (some now) fun timeout => by
      obtain ⟨past, unkept, none_⟩ := timely timeout
      refine ⟨⟨now, rfl, past⟩, unkept, fun reply inside => ?_⟩
      rcases mem_append.mp inside with old | new
      · exact silent unkept none_ reply old
      · exact quiet unkept none_ past reply new
    have rests := @Sound.rests _ _ ended { stay.desk with
      slot := [] ++ late, inbox, held, waiting := none } rfl rfl rfl
    simpa using rests

theorem Sound.waitOut (sound : Sound home stay) {now : Nat} {late : List Signal} (heard : stay.desk.Heard now late answers) :
    Sound home (stay.step (.waitOut now late answers)) := by
  rw [Stay.step]
  cases waiting : stay.desk.waiting with
  | none =>
    have all : run (SignalDesk.waitOut now) (stay.begin answers) =
        (.ok .idle, (stay.begin answers)) := by
      unfold SignalDesk.waitOut
      simp only [run_bind, run_look, waiting]
      rfl
    rw [call_parted [] [] (congrArg (·.2.desk) all) (congrArg (·.2.lines) all) (by simp) (by simp)]
    simpa using sound.arrives late
  | some wait =>
    cases at_ : wait.deadline with
    | some deadline =>
      rcases heard wait waiting with ⟨impossible, -⟩ | ⟨reaches, quiet⟩
      · rw [at_] at impossible
        cases impossible
      · simp only [at_, Option.isNone_some, Bool.false_eq_true, if_false] at reaches
        simp only [ReplyWait.over_, at_, Option.getD_some, decide_eq_true_eq] at quiet
        obtain ⟨desk, ending, desks, lines, ends, after⟩ :=
          @Sound.waitOn _ _ _ _ now late answers [] sound waiting at_ reaches quiet
        rw [← @run_waitOut_parked (stay.begin answers) _ _ now
          waiting at_] at desks lines
        rw [call_parted [] ending desks lines (by simp) ends]
        simpa using after
    | none =>
      rcases @run_waitOut_asked (stay.begin answers) _ now
        waiting at_ with ⟨-, refusal, done⟩ | ⟨accepts, done⟩
      · rw [call_parted [] [] (congrArg (·.2.desk) done) (congrArg (·.2.lines) done) (by simp)
          (by simp)]
        simpa using sound.arrives late
      · rcases heard wait waiting with ⟨-, refuses⟩ | ⟨reaches, quiet⟩
        · exact absurd refuses accepts
        · simp only [at_, Option.isNone_none, if_true] at reaches
          have quiet := fun unkept none_ past => quiet unkept none_ (over_of_unasked at_ past)
          have started := sound.started waiting at_ now
          -- The deadline is a sum with a large constant, which nothing here looks into.
          generalize ReplyWait.deadlineAt now = deadline at started done quiet
          rw [← replyIn_deadline wait (some deadline)] at reaches quiet
          rw [← others_deadline wait (some deadline)] at reaches
          obtain ⟨desk, ending, desks, lines, ends, after⟩ :=
            @Sound.waitOn _ _ _ _ now late answers.tail
              [.waitStarted wait.on_ wait.signal deadline] started rfl rfl
              reaches quiet
          have desks' : (run (SignalDesk.waitOut now)
              (stay.begin answers)).2.desk = desk := by
            rw [done]
            exact desks
          have lines' : (run (SignalDesk.waitOut now)
              (stay.begin answers)).2.lines =
                [.waitStarted wait.on_ wait.signal deadline] ++ ending := by
            rw [done]
            exact lines
          rw [call_parted _ ending desks' lines' (by simp [SignalEffect.endsWait]) ends]
          simpa using after

theorem Sound.step (sound : Sound home stay) {op : StayOp} (hears : stay.Hears op) :
    Sound home (stay.step op) := by
  cases op with
  | arrive signal => exact sound.arrive signal
  | send letter waits answers => exact sound.send letter waits answers
  | takeSteer answers => exact sound.collected hears (aside_takeSteer _)
  | pull answers => exact sound.collected hears (aside_pull _)
  | answered answers => exact sound.answered answers
  | waitLeft answers => exact sound.waitLeft answers
  | waitOut now late answers => exact sound.waitOut hears

/-- Over any run of a desk that drops no reply of an open wait, every line of a wait is due where it
stands. -/
theorem waits_recorded (runId : RunId) (room : Address) (who : List Char) (inbox : Inbox)
    (ops : List StayOp)
    (hears : Machine.Meets Stay.step Stay.Hears (Stay.opening runId room who inbox) ops) :
    Trace.Always (WaitDue room) (ops.foldl Stay.step (Stay.opening runId room who inbox)).story := by
  have keeps : ∀ stay op, Sound room stay → stay.Hears op → Sound room (stay.step op) :=
    fun _ _ sound hears => sound.step hears
  exact (Machine.run_keeps keeps (sound_opening runId room who inbox) hears).due

/-- What the hall asks of the atelier. -/
def toAtelier : Signal where
  id := []
  kind := .mention
  from_ := "hall".toList
  named := by decide
  room := ⟨"atelier".toList, by decide⟩
  payload := .obj [("text", .str "are the tests green".toList)]
  at_ := 3
  sender := none
  run := none

example : toAtelier.room.text = "atelier".toList := by decide +kernel

/-- The hall asks, stops for the reply, and reads it at its next safe point. -/
def askedAndTold : List StayOp :=
  [.send (some toAtelier) true [], .waitOut 10 [] [], .arrive (toHall "r" .mention),
    .waitOut 20 [] []]

theorem waits_recorded_told :
    Trace.Always (WaitDue ⟨"hall".toList, by decide⟩) (askedAndTold.foldl Stay.step
      (Stay.opening .city ⟨"hall".toList, by decide⟩ "scribe".toList (.new 8 4))).story :=
  waits_recorded .city ⟨"hall".toList, by decide⟩ "scribe".toList (.new 8 4) askedAndTold
    (by decide +kernel)

/-- The hall asks with a full queue; a mention and then the reply arrive, the safe point is refused
for the mention, and the next one is past the deadline. -/
def askedAndShed : List StayOp :=
  [.send (some toAtelier) true [], .arrive (toHall "second" .mention),
    .arrive (toHall "r" .mention), .waitOut 10 [] [], .waitOut 240010 [] []]

/-- The reply had arrived, and the wait is recorded as timed out. -/
theorem timeout_of_shed :
    ¬∀ (runId : RunId) (room : Address) (who : List Char) (inbox : Inbox) (ops : List StayOp),
      Trace.Always (WaitDue room) (ops.foldl Stay.step (Stay.opening runId room who inbox)).story := by
  intro every
  have always := every .city ⟨"hall".toList, by decide⟩ "scribe".toList
    ((Inbox.new 1 4).deliver (toHall "first" .mention)).2 askedAndShed
  have ended := always
    [.wrote (.enqueued { toAtelier with id := Stay.mintedId .city 1 }) none,
      .arrived (toHall "second" .mention), .arrived (toHall "r" .mention),
      .wrote (.waitStarted ⟨"atelier".toList, by decide⟩ (Stay.mintedId .city 1) 240010) (some 10)]
    (.wrote (.waitEnded (Stay.mintedId .city 1) .timeout) (some 240010)) [] (by decide +kernel)
  have unreplied : Unreplied _ _ _ := (ended.2.2 rfl).2
  have silent := unreplied [] { toAtelier with id := Stay.mintedId .city 1 } none _ rfl rfl
    (toHall "r" .mention) (by simp)
  have answers : (toHall "r" .mention).from_ = toAtelier.room.text ∧
      (toHall "r" .mention).room = ⟨"hall".toList, by decide⟩ := by decide +kernel
  exact silent answers

end Runs

end Sprawling
