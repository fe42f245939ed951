import Mathlib.Algebra.BigOperators.Group.List.Basic
import Sprawling.Base.Machine
import Sprawling.Collab.DeskMoves

/-! Where every signal of a city is after any run of deliveries, loans and calls at the desks. -/

namespace Sprawling

open List

section Sums

variable {α : Type} (f : α → Nat) {items : List α} {place : Nat} {old : α}

theorem sum_map_set (found : items[place]? = some old)
    (new : α) :
    ((items.set place new).map f).sum + f old = (items.map f).sum + f new := by
  induction items generalizing place with
  | nil => cases found
  | cons first rest ih =>
    cases place with
    | zero =>
      cases found
      simp only [set_cons_zero, map_cons, sum_cons]
      omega
    | succ place =>
      have later := ih found
      simp only [set_cons_succ, map_cons, sum_cons]
      omega

theorem sum_map_eraseIdx (found : items[place]? = some old) :
    ((items.eraseIdx place).map f).sum + f old = (items.map f).sum := by
  induction items generalizing place with
  | nil => cases found
  | cons first rest ih =>
    cases place with
    | zero =>
      cases found
      simp only [eraseIdx_zero, tail_cons, map_cons, sum_cons]
      omega
    | succ place =>
      have later := ih found
      simp only [eraseIdx_cons_succ, map_cons, sum_cons]
      omega

theorem le_sum_map (found : items[place]? = some old) :
    f old ≤ (items.map f).sum := by
  have := sum_map_eraseIdx f found
  omega

end Sums

/-- What waits in a room's queue while it is at home. -/
def RoomQueue.contents : RoomQueue → List Signal
  | .home inbox => inbox.contents
  | .lent _ _ => []

/-- What a desk sends back with its queue. -/
def SignalDesk.unreadOf (desk : SignalDesk) : List Signal :=
  desk.held ++ (desk.waiting.bind (·.kept)).toList ++ desk.slot

/-- A desk that has given its queue up. -/
def SignalDesk.givenUp (desk : SignalDesk) : SignalDesk :=
  { desk with
    held := []
    waiting := desk.waiting.map fun wait => { wait with kept := none }
    slot := []
    unread := desk.unreadOf
    inbox := .new 0 1 }

namespace Mail

variable (id : List Char)

def inSlots (mail : Mail) : Nat := (mail.desks.map fun desk => copies id desk.slot).sum

def inHands (mail : Mail) : Nat := (mail.desks.map fun desk => copies id desk.inHand).sum

def atHome (mail : Mail) : Nat := (mail.rooms.map fun entry => copies id entry.2.contents).sum

def onTheWay (mail : Mail) : Nat := (mail.loose.map fun entry => copies id entry.2.contents).sum

/-- The copies that wait anywhere. -/
def outstanding (mail : Mail) : Nat :=
  mail.inSlots id + mail.inHands id + mail.atHome id + mail.onTheWay id

def tally (mail : Mail) : Nat := mail.outstanding id + reads id mail.lines

/-- Some queue has the key of an id. -/
def Remembered (mail : Mail) : Prop :=
  (∃ desk ∈ mail.desks, desk.inbox.Remembers id) ∨
  (∃ entry ∈ mail.rooms, ∃ inbox, entry.2 = .home inbox ∧ inbox.Remembers id) ∨
  ∃ entry ∈ mail.loose, entry.2.Remembers id

/-- An id is counted once at most, and no queue knows it while it waits in a slot. -/
def Single (mail : Mail) : Prop :=
  mail.tally id ≤ 1 ∧ (0 < mail.inSlots id → ¬mail.Remembered id)

/-- What a step that admits nothing does to the copies of an id: it makes none, and where it is
`exact` it loses none. -/
structure Moves (exact : Prop) (before after : Mail) : Prop where
  total : after.tally id ≤ before.tally id
  whole : exact → after.tally id = before.tally id
  slots : after.inSlots id ≤ before.inSlots id
  known : after.Remembered id → before.Remembered id ∨ after.inSlots id < before.inSlots id
  admitted : after.admitted = before.admitted

variable {id : List Char}

theorem Moves.refl {exact : Prop} (mail : Mail) : Moves id exact mail mail :=
  ⟨Nat.le_refl _, fun _ => rfl, Nat.le_refl _, Or.inl, rfl⟩

theorem Moves.imp {exact other : Prop} {before after : Mail} (moves : Moves id exact before after)
    (implies : other → exact) : Moves id other before after :=
  { moves with whole := fun holds => moves.whole (implies holds) }

variable {mail : Mail} {place : Nat}

theorem Single.freshIn {desk : SignalDesk} (single : mail.Single id)
    (found : mail.desks[place]? = some desk) : SignalDesk.FreshIn id desk desk.slot := by
  have bound := le_sum_map (fun desk : SignalDesk => copies id desk.slot) found
  have once := single.1
  simp only [tally, outstanding, inSlots] at once
  refine ⟨by omega, fun some_ remembers => ?_⟩
  apply single.2
  · simp only [inSlots]
    omega
  · exact Or.inl ⟨desk, mem_of_getElem? found, remembers⟩

theorem moves_atDesk {α : Type} {answers : List (Option AxError)}
    {call : SignalDesk.Desk α} {exact : SignalDesk → Prop}
    (moves : ∀ desk, mail.desks[place]? = some desk →
      AtDesk.Moves id (exact desk) 0 { desk, lines := mail.lines, answers }
        (Effect.run call { desk, lines := mail.lines, answers }).2) :
    Moves id (∀ desk ∈ mail.desks[place]?, exact desk) mail
      (mail.atDesk place answers call) := by
  unfold atDesk
  cases found : mail.desks[place]? with
  | none => exact Moves.refl mail
  | some desk =>
    have here := moves desk found
    simp only
    generalize (Effect.run call { desk, lines := mail.lines, answers }).2 = after at here ⊢
    have slots := sum_map_set (fun desk : SignalDesk => copies id desk.slot) found after.desk
    have hands := sum_map_set (fun desk : SignalDesk => copies id desk.inHand) found after.desk
    have total := here.total
    have slot := here.slot
    simp only [AtDesk.inSlot, AtDesk.accounted] at total slot
    refine ⟨?_, ?_, ?_, ?_, rfl⟩
    · simp only [tally, outstanding, inSlots, inHands, atHome, onTheWay]
      omega
    · intro holds
      have whole := here.whole (holds desk rfl)
      simp only [AtDesk.inSlot, AtDesk.accounted] at whole
      simp only [tally, outstanding, inSlots, inHands, atHome, onTheWay]
      omega
    · simp only [inSlots]
      omega
    · have fewer : copies id after.desk.slot < copies id desk.slot →
          ((mail.desks.set place after.desk).map fun desk => copies id desk.slot).sum <
            mail.inSlots id := by
        simp only [inSlots]
        omega
      rintro (⟨other, member, remembers⟩ | elsewhere)
      · rcases mem_or_eq_of_mem_set member with old | rfl
        · exact Or.inl (Or.inl ⟨other, old, remembers⟩)
        · rcases here.known remembers with old | none_ | less
          · exact Or.inl (Or.inl ⟨desk, mem_of_getElem? found, old⟩)
          · omega
          · exact Or.inr (fewer less)
      · exact Or.inl (Or.inr elsewhere)

section Rooms

variable {mail : Mail} {room : Address}

/-- What waits at home for a room. -/
def waitingAt (mail : Mail) (room : Address) : List Signal :=
  match mail.queueAt room with
  | some queue => queue.contents
  | none => []

@[simp] theorem setRoom_desks (queue : RoomQueue) : (mail.setRoom room queue).desks = mail.desks := by
  unfold setRoom
  split <;> rfl

@[simp] theorem setRoom_loose (queue : RoomQueue) : (mail.setRoom room queue).loose = mail.loose := by
  unfold setRoom
  split <;> rfl

@[simp] theorem setRoom_lines (queue : RoomQueue) : (mail.setRoom room queue).lines = mail.lines := by
  unfold setRoom
  split <;> rfl

@[simp] theorem setRoom_admitted (queue : RoomQueue) :
    (mail.setRoom room queue).admitted = mail.admitted := by
  unfold setRoom
  split <;> rfl

theorem roomAt_found (found : mail.roomAt room = some place) :
    ∃ entry, mail.rooms[place]? = some entry ∧ mail.queueAt room = some entry.2 := by
  have inside := (findIdx?_eq_some_iff_getElem.mp found).1
  refine ⟨mail.rooms[place], getElem?_eq_getElem inside, ?_⟩
  rw [queueAt, found, Option.bind_some, getElem?_eq_getElem inside, Option.map_some]

theorem setRoom_atHome (queue : RoomQueue) :
    (mail.setRoom room queue).atHome id + copies id (mail.waitingAt room) =
      mail.atHome id + copies id queue.contents := by
  unfold waitingAt setRoom
  cases found : mail.roomAt room with
  | some place =>
    obtain ⟨entry, there, same⟩ := roomAt_found found
    rw [same]
    exact sum_map_set (fun entry : Address × RoomQueue => copies id entry.2.contents) there _
  | none =>
    have absent : mail.queueAt room = none := by
      rw [queueAt, found, Option.bind_none]
    rw [absent]
    simp [atHome]

variable {queue : RoomQueue}

theorem mem_rooms_setRoom {entry : Address × RoomQueue}
    (member : entry ∈ (mail.setRoom room queue).rooms) :
    entry ∈ mail.rooms ∨ entry.2 = queue := by
  unfold setRoom at member
  split at member
  · rcases mem_or_eq_of_mem_set member with old | rfl
    · exact Or.inl old
    · exact Or.inr rfl
  · rcases mem_append.mp member with old | new
    · exact Or.inl old
    · rw [mem_singleton.mp new]
      exact Or.inr rfl

theorem mem_rooms_of_queueAt (there : mail.queueAt room = some queue) :
    ∃ entry ∈ mail.rooms, entry.2 = queue := by
  obtain ⟨place, -, second⟩ := Option.bind_eq_some_iff.mp there
  obtain ⟨entry, inside, same⟩ := Option.map_eq_some_iff.mp second
  exact ⟨entry, mem_of_getElem? inside, same⟩

variable {inbox : Inbox}

theorem Remembered.of_home (there : mail.queueAt room = some (.home inbox))
    (remembers : inbox.Remembers id) : mail.Remembered id := by
  obtain ⟨entry, member, same⟩ := mem_rooms_of_queueAt there
  exact Or.inr (Or.inl ⟨entry, member, inbox, same, remembers⟩)

theorem not_remembers_new (capacity bandwidth : Nat) :
    ¬(Inbox.new capacity bandwidth).Remembers id := by
  rintro (member | member) <;> cases member

theorem sums_newDesk (run : RunId) (who : List Char) (inbox : Inbox) :
    ((mail.desks ++ [newDesk run room who inbox]).map fun desk => copies id desk.slot).sum =
        mail.inSlots id ∧
      ((mail.desks ++ [newDesk run room who inbox]).map fun desk => copies id desk.inHand).sum =
        mail.inHands id + copies id inbox.contents := by
  simp [newDesk, SignalDesk.inHand, inSlots, inHands]

theorem moves_lend (mail : Mail) (room : Address) (run : RunId) (who : List Char) :
    Moves id True mail (mail.lend room run who) := by
  have lent : ∀ (inbox : Inbox) (changed : Mail),
      copies id (mail.waitingAt room) = copies id inbox.contents →
      (inbox.Remembers id → mail.Remembered id) →
      changed = { mail.setRoom room (.lent run mail.desks.length) with
        desks := mail.desks ++ [newDesk run room who inbox] } → Moves id True mail changed := by
    rintro inbox changed same known rfl
    have home := @setRoom_atHome id mail room (.lent run mail.desks.length)
    obtain ⟨slots, hands⟩ := @sums_newDesk id mail room run who inbox
    have count : tally id { mail.setRoom room (.lent run mail.desks.length) with
        desks := mail.desks ++ [newDesk run room who inbox] } = mail.tally id := by
      simp only [RoomQueue.contents, copies_nil] at home
      simp only [tally, outstanding, inSlots, inHands, atHome, onTheWay, setRoom_lines,
        setRoom_loose] at slots hands home ⊢
      omega
    refine ⟨Nat.le_of_eq count, fun _ => count, Nat.le_of_eq slots, ?_, setRoom_admitted _⟩
    rintro (⟨desk, member, remembers⟩ | ⟨entry, member, home', there, remembers⟩ | moving)
    · rcases mem_append.mp member with old | new
      · exact Or.inl (Or.inl ⟨desk, old, remembers⟩)
      · rw [mem_singleton.mp new] at remembers
        exact Or.inl (known remembers)
    · rcases mem_rooms_setRoom member with old | new
      · exact Or.inl (Or.inr (Or.inl ⟨entry, old, home', there, remembers⟩))
      · rw [new] at there
        cases there
    · obtain ⟨entry, member, remembers⟩ := moving
      rw [setRoom_loose] at member
      exact Or.inl (Or.inr (Or.inr ⟨entry, member, remembers⟩))
  unfold lend
  cases there : mail.queueAt room with
  | none =>
    apply lent mail.newInbox _ _ _ rfl
    · rw [waitingAt, there]
      rfl
    · exact fun remembers => absurd remembers (not_remembers_new _ _)
  | some queue =>
    cases queue with
    | home inbox =>
      apply lent inbox _ _ _ rfl
      · rw [waitingAt, there]
        rfl
      · exact Remembered.of_home there
    | lent to_ desk =>
      obtain ⟨slots, hands⟩ := @sums_newDesk id mail room run who mail.newInbox
      have empty : copies id mail.newInbox.contents = 0 := rfl
      have count : tally id { mail with
          desks := mail.desks ++ [newDesk run room who mail.newInbox] } = mail.tally id := by
        simp only [tally, outstanding, inSlots, inHands, atHome, onTheWay] at slots hands ⊢
        omega
      refine ⟨Nat.le_of_eq count, fun _ => count, Nat.le_of_eq slots, ?_, rfl⟩
      rintro (⟨other, member, remembers⟩ | elsewhere)
      · rcases mem_append.mp member with old | new
        · exact Or.inl (Or.inl ⟨other, old, remembers⟩)
        · rw [mem_singleton.mp new] at remembers
          exact absurd remembers (not_remembers_new _ _)
      · exact Or.inl (Or.inr elsewhere)

theorem moves_takeInbox (mail : Mail) (place : Nat) : Moves id True mail (mail.takeInbox place) := by
  unfold takeInbox
  cases found : mail.desks[place]? with
  | none => exact Moves.refl mail
  | some desk =>
    have slots := sum_map_set (fun desk : SignalDesk => copies id desk.slot) found
      (SignalDesk.givenUp desk)
    have hands := sum_map_set (fun desk : SignalDesk => copies id desk.inHand) found
      (SignalDesk.givenUp desk)
    have done : Effect.run SignalDesk.takeInbox { desk, lines := mail.lines, answers := [] } =
        (.ok (desk.inbox.giveBack (SignalDesk.unreadOf desk)),
          { desk := SignalDesk.givenUp desk, lines := mail.lines, answers := [] }) := rfl
    simp only [done]
    have gone : copies id (SignalDesk.givenUp desk).slot = 0 ∧
        copies id (SignalDesk.givenUp desk).inHand = 0 := by
      unfold SignalDesk.givenUp SignalDesk.inHand
      cases desk.waiting <;> exact ⟨rfl, rfl⟩
    have sent : copies id (desk.inbox.giveBack (SignalDesk.unreadOf desk)).contents =
        copies id desk.inHand + copies id desk.slot := by
      simp only [copies_giveBack, SignalDesk.unreadOf, SignalDesk.inHand, copies_append]
      omega
    have count : tally id { mail with
        desks := mail.desks.set place (SignalDesk.givenUp desk)
        loose := mail.loose ++ [(desk.run, desk.inbox.giveBack (SignalDesk.unreadOf desk))] } =
          mail.tally id := by
      simp only [tally, outstanding, inSlots, inHands, atHome, onTheWay, map_append,
        map_cons, map_nil, sum_append, sum_cons, sum_nil]
      omega
    refine ⟨Nat.le_of_eq count, fun _ => count, ?_, ?_, rfl⟩
    · simp only [inSlots]
      omega
    · rintro (⟨other, member, remembers⟩ | elsewhere | ⟨entry, member, remembers⟩)
      · rcases mem_or_eq_of_mem_set member with old | rfl
        · exact Or.inl (Or.inl ⟨other, old, remembers⟩)
        · exact absurd remembers (not_remembers_new 0 1)
      · exact Or.inl (Or.inr (Or.inl elsewhere))
      · rcases mem_append.mp member with old | new
        · exact Or.inl (Or.inr (Or.inr ⟨entry, old, remembers⟩))
        · rw [mem_singleton.mp new] at remembers
          exact Or.inl (Or.inl ⟨desk, mem_of_getElem? found, remembers⟩)

theorem deliverAll_spec (signals : List Signal) (inbox : Inbox) :
    copies id (deliverAll inbox signals).contents ≤ copies id inbox.contents + copies id signals ∧
    (inbox.TakesAll signals → copies id signals ≤ 1 →
      (0 < copies id signals → ¬inbox.Remembers id) →
      copies id (deliverAll inbox signals).contents =
        copies id inbox.contents + copies id signals) ∧
    ((deliverAll inbox signals).Remembers id → inbox.Remembers id ∨ 0 < copies id signals) := by
  induction signals generalizing inbox with
  | nil => exact ⟨Nat.le_refl _, fun _ _ _ => rfl, Or.inl⟩
  | cons signal rest ih =>
    obtain ⟨bound, whole, known⟩ := @deliver_spec id inbox signal
    obtain ⟨later, wholly, knows⟩ := ih (inbox.deliver signal).2
    have learnt : (inbox.deliver signal).2.Remembers id →
        inbox.Remembers id ∨ 0 < copies id (signal :: rest) := by
      intro remembers
      rcases known remembers with old | same
      · exact Or.inl old
      · right
        rw [copies_cons, copies_singleton_of_eq same]
        omega
    unfold deliverAll
    cases taken : (inbox.deliver signal).1 with
    | shed =>
      simp only [taken]
      refine ⟨?_, fun takes => ?_, learnt⟩
      · rw [copies_cons]
        omega
      · have first := takes.1
        rw [taken] at first
        cases first
    | admitted =>
      simp only [taken]
      rw [copies_cons] at learnt ⊢
      refine ⟨by omega, ?_, ?_⟩
      · rintro ⟨-, takes⟩ once unknown
        have first := whole taken fun same => by
          apply unknown
          rw [copies_singleton_of_eq same]
          omega
        have second := wholly takes (by omega) fun some_ remembers => by
          rcases known remembers with old | same
          · exact unknown (by omega) old
          · rw [copies_singleton_of_eq same] at once
            omega
        omega
      · intro remembers
        rcases knows remembers with old | some_
        · exact learnt old
        · exact Or.inr (by omega)

/-- The desk a room's queue is lent to, where it is lent to a run. -/
def deskLent (mail : Mail) (room : Address) (run : RunId) : Option Nat :=
  match mail.queueAt room with
  | some (.lent to_ desk) => if to_ = run then some desk else none
  | some (.home _) | none => none

/-- What the desk at a place must be for a call there. -/
def AtPlace (mail : Mail) (place : Nat) (holds : SignalDesk → Prop) : Prop :=
  ∀ desk ∈ mail.desks[place]?, holds desk

/-- What a queue that goes home needs to arrive whole: its room is still lent to the run it comes
from and it has room for what waits in the slot, or it is empty. -/
def GivenWhole (mail : Mail) (place : Nat) (room : Address) : Prop :=
  ∀ entry ∈ mail.loose[place]?,
    (∀ desk ∈ mail.deskLent room entry.1,
      mail.AtPlace desk fun found => entry.2.TakesAll found.slot) ∧
    (mail.deskLent room entry.1 = none → entry.2.contents = [])

instance (mail : Mail) (place : Nat) (holds : SignalDesk → Prop) [DecidablePred holds] :
    Decidable (mail.AtPlace place holds) :=
  inferInstanceAs (Decidable (∀ desk ∈ mail.desks[place]?, holds desk))

instance (mail : Mail) (place : Nat) (room : Address) : Decidable (mail.GivenWhole place room) :=
  inferInstanceAs (Decidable (∀ entry ∈ mail.loose[place]?, _ ∧ _))

section Return

variable {place : Nat} {from_ : RunId} {returned : Inbox}

def without (mail : Mail) (place : Nat) : Mail := { mail with loose := mail.loose.eraseIdx place }

variable (offered : mail.loose[place]? = some (from_, returned))

theorem Remembered.of_without (remembers : (mail.without place).Remembered id) :
    mail.Remembered id := by
  rcases remembers with there | there | ⟨entry, member, knows⟩
  · exact Or.inl there
  · exact Or.inr (Or.inl there)
  · exact Or.inr (Or.inr ⟨entry, mem_of_mem_eraseIdx member, knows⟩)

include offered

theorem onTheWay_without :
    (mail.without place).onTheWay id + copies id returned.contents = mail.onTheWay id :=
  sum_map_eraseIdx (fun entry : RunId × Inbox => copies id entry.2.contents) offered

theorem Remembered.of_loose (remembers : returned.Remembers id) : mail.Remembered id :=
  Or.inr (Or.inr ⟨_, mem_of_getElem? offered, remembers⟩)

theorem moves_refused :
    Moves id (returned.contents = []) mail (mail.without place) := by
  have gone := @onTheWay_without id _ _ _ _ offered
  have rest : (mail.without place).tally id + copies id returned.contents = mail.tally id := by
    simp only [tally, outstanding, without, inSlots, inHands, atHome, onTheWay] at gone ⊢
    omega
  refine ⟨by omega, ?_, Nat.le_refl _, ?_, rfl⟩
  · intro empty
    rw [empty] at rest
    exact rest
  · exact fun remembers => Or.inl remembers.of_without

omit offered

theorem remembered_home (remembers : (mail.setRoom room (.home inbox)).Remembered id) :
    mail.Remembered id ∨ inbox.Remembers id := by
  rcases remembers with ⟨desk, member, knows⟩ | ⟨entry, member, home, at_, knows⟩ |
    ⟨entry, member, knows⟩
  · rw [setRoom_desks] at member
    exact Or.inl (Or.inl ⟨desk, member, knows⟩)
  · rcases mem_rooms_setRoom member with old | new
    · exact Or.inl (Or.inr (Or.inl ⟨entry, old, home, at_, knows⟩))
    · rw [new] at at_
      cases at_
      exact Or.inr knows
  · rw [setRoom_loose] at member
    exact Or.inl (Or.inr (Or.inr ⟨entry, member, knows⟩))

theorem moves_home (offered : mail.loose[place]? = some (from_, returned))
    (away : mail.waitingAt room = []) :
    Moves id True mail ((mail.without place).setRoom room (.home returned)) := by
  have gone := @onTheWay_without id _ _ _ _ offered
  have home := @setRoom_atHome id (mail.without place) room (.home returned)
  have same : (mail.without place).waitingAt room = [] := away
  rw [same] at home
  have count : ((mail.without place).setRoom room (.home returned)).tally id = mail.tally id := by
    simp only [tally, outstanding, inSlots, inHands, atHome, onTheWay, setRoom_lines, setRoom_loose,
      setRoom_desks, RoomQueue.contents, copies_nil, without] at home gone ⊢
    omega
  refine ⟨Nat.le_of_eq count, fun _ => count, ?_, ?_, setRoom_admitted _⟩
  · rw [inSlots, setRoom_desks]
    exact Nat.le_refl _
  · intro remembers
    rcases remembered_home remembers with old | new
    · exact Or.inl old.of_without
    · exact Or.inl (Remembered.of_loose offered new)

theorem moves_merged {desk : Nat} {found : SignalDesk}
    (offered : mail.loose[place]? = some (from_, returned)) (away : mail.waitingAt room = [])
    (there : mail.desks[desk]? = some found) :
    Moves id (returned.TakesAll found.slot ∧ mail.Single id) mail
      { (mail.without place).setRoom room (.home (deliverAll returned found.slot)) with
        desks := mail.desks.set desk { found with slot := [] } } := by
  have gone := @onTheWay_without id _ _ _ _ offered
  have home := @setRoom_atHome id (mail.without place) room
    (.home (deliverAll returned found.slot))
  have same : (mail.without place).waitingAt room = [] := away
  rw [same] at home
  obtain ⟨bound, whole, known⟩ := @deliverAll_spec id found.slot returned
  have slots := sum_map_set (fun desk : SignalDesk => copies id desk.slot) there
    { found with slot := [] }
  have hands := sum_map_set (fun desk : SignalDesk => copies id desk.inHand) there
    { found with slot := [] }
  have still : copies id (SignalDesk.inHand { found with slot := [] }) = copies id found.inHand := rfl
  have count : tally id
      { (mail.without place).setRoom room (.home (deliverAll returned found.slot)) with
        desks := mail.desks.set desk { found with slot := [] } } +
          (copies id returned.contents + copies id found.slot) =
        mail.tally id + copies id (deliverAll returned found.slot).contents := by
    simp only [tally, outstanding, inSlots, inHands, atHome, onTheWay, setRoom_lines, setRoom_loose,
      RoomQueue.contents, copies_nil, without] at home slots gone ⊢
    omega
  refine ⟨by omega, ?_, ?_, ?_, setRoom_admitted _⟩
  · rintro ⟨takes, single⟩
    have merged := whole takes (single.freshIn there).1 fun some_ remembers => by
      apply single.2 _ (Remembered.of_loose offered remembers)
      have := le_sum_map (fun desk : SignalDesk => copies id desk.slot) there
      simp only [inSlots]
      omega
    omega
  · simp only [inSlots, copies_nil] at slots ⊢
    omega
  · have fewer : 0 < copies id found.slot →
        ((mail.desks.set desk { found with slot := [] }).map fun desk => copies id desk.slot).sum <
          mail.inSlots id := by
      simp only [inSlots, copies_nil] at slots ⊢
      omega
    intro remembers
    have elsewhere : mail.Remembered id ∨ (deliverAll returned found.slot).Remembers id := by
      rcases remembers with ⟨other, member, knows⟩ | rest
      · rcases mem_or_eq_of_mem_set member with old | rfl
        · exact Or.inl (Or.inl ⟨other, old, knows⟩)
        · exact Or.inl (Or.inl ⟨found, mem_of_getElem? there, knows⟩)
      · exact (remembered_home (Or.inr rest)).imp_left Remembered.of_without
    rcases elsewhere with old | new
    · exact Or.inl old
    · rcases known new with back | some_
      · exact Or.inl (Remembered.of_loose offered back)
      · exact Or.inr (fewer some_)

end Return

theorem moves_giveBack (mail : Mail) (place : Nat) (room : Address) :
    Moves id (mail.GivenWhole place room ∧ mail.Single id) mail (mail.giveBack place room) := by
  unfold giveBack
  cases offered : mail.loose[place]? with
  | none => exact Moves.refl mail
  | some entry =>
    obtain ⟨from_, returned⟩ := entry
    have refused : mail.deskLent room from_ = none →
        Moves id (mail.GivenWhole place room ∧ mail.Single id) mail (mail.without place) :=
      fun elsewhere => (moves_refused offered).imp fun holds => (holds.1 _ offered).2 elsewhere
    have same : queueAt { mail with loose := mail.loose.eraseIdx place } room =
        mail.queueAt room := rfl
    simp only [same]
    cases there : mail.queueAt room with
    | none => exact refused (by simp [deskLent, there])
    | some queue =>
      cases queue with
      | home inbox => exact refused (by simp [deskLent, there])
      | lent to_ desk =>
        by_cases own : to_ = from_
        · have away : mail.waitingAt room = [] := by
            rw [waitingAt, there]
            rfl
          simp only [own, if_true]
          cases found : mail.desks[desk]? with
          | none => exact (moves_home offered away).imp fun _ => trivial
          | some lender =>
            apply (moves_merged offered away found).imp
            rintro ⟨given, single⟩
            have lent : mail.deskLent room from_ = some desk := by
              simp [deskLent, there, own]
            exact ⟨(given _ offered).1 desk lent lender found, single⟩
        · simp only [own, if_false]
          exact refused (by simp [deskLent, there, own])

/-- The room a signal names has its queue at home, and the queue knows the signal. -/
def Recognises (mail : Mail) (signal : Signal) : Prop :=
  ∃ inbox, mail.queueAt signal.room = some (.home inbox) ∧ (inbox.lineOf signal).Knows signal

theorem recognises_iff (mail : Mail) (signal : Signal) :
    (match mail.queueAt signal.room with
      | some (.home inbox) => decide ((inbox.lineOf signal).Knows signal)
      | some (.lent _ _) | none => false) = true ↔ mail.Recognises signal := by
  unfold Recognises
  cases mail.queueAt signal.room with
  | none => simp
  | some queue => cases queue <;> simp

instance (mail : Mail) (signal : Signal) : Decidable (mail.Recognises signal) :=
  decidable_of_iff _ (recognises_iff mail signal)

/-- What a delivery does to the copies of an id. -/
structure Delivers (id : List Char) (signal : Signal) (before after : Mail) : Prop where
  refused : after.admitted = before.admitted →
    after.tally id = before.tally id ∧ (after.Remembered id → before.Remembered id)
  admitted : after.admitted = before.admitted ∨ after.admitted = before.admitted ++ [signal.id]
  total : after.tally id ≤ before.tally id + copies id [signal]
  whole : after.admitted ≠ before.admitted → (signal.id = id → ¬before.Remembered id) →
    after.tally id = before.tally id + copies id [signal]
  ignored : before.Recognises signal → after.tally id = before.tally id ∧
    (signal.id = id → before.Remembered id) ∧ after.inSlots id = before.inSlots id
  slots : after.inSlots id ≤ before.inSlots id + copies id [signal]
  known : after.Remembered id → before.Remembered id ∨
    signal.id = id ∧ after.inSlots id = before.inSlots id

theorem admitted_ne (mail : Mail) (signal : Signal) :
    mail.admitted ++ [signal.id] ≠ mail.admitted := by
  intro same
  have := congrArg List.length same
  simp at this

variable {signal : Signal}

theorem noteAdmitted_eq (mail : Mail) (signal : Signal) (admits : Admits) :
    mail.noteAdmitted signal admits = { mail with
      admitted := if admits = .admitted then mail.admitted ++ [signal.id] else mail.admitted } := by
  cases admits <;> rfl

theorem delivers_home (there : mail.waitingAt signal.room = inbox.contents)
    (remembered : inbox.Remembers id → mail.Remembered id)
    (recognises : mail.Recognises signal → (inbox.lineOf signal).Knows signal) :
    Delivers id signal mail ((mail.setRoom signal.room (.home (inbox.deliver signal).2)).noteAdmitted
      signal (inbox.deliver signal).1) := by
  obtain ⟨bound, whole, known⟩ := @deliver_spec id inbox signal
  have home := @setRoom_atHome id mail signal.room (.home (inbox.deliver signal).2)
  rw [there, RoomQueue.contents] at home
  generalize isAfter : noteAdmitted _ _ _ = after
  rw [noteAdmitted_eq, setRoom_admitted] at isAfter
  have slots : after.inSlots id = mail.inSlots id := by
    rw [← isAfter]
    simp [inSlots]
  have count : after.tally id + copies id inbox.contents =
      mail.tally id + copies id (inbox.deliver signal).2.contents := by
    rw [← isAfter]
    simp only [tally, outstanding, inSlots, inHands, atHome, onTheWay,
      setRoom_desks, setRoom_lines, setRoom_loose] at home ⊢
    omega
  have noted : after.admitted = if (inbox.deliver signal).1 = .admitted then
      mail.admitted ++ [signal.id] else mail.admitted := by
    rw [← isAfter]
  have found : after.Remembered id → mail.Remembered id ∨ (inbox.deliver signal).2.Remembers id := by
    rw [← isAfter]
    exact remembered_home
  refine ⟨?_, ?_, by omega, ?_, ?_, by omega, ?_⟩
  · intro same
    rw [noted] at same
    cases taken : (inbox.deliver signal).1 with
    | admitted =>
      rw [taken, if_pos rfl] at same
      exact absurd same (admitted_ne mail signal)
    | shed =>
      obtain ⟨contents, memory⟩ := @deliver_shed id _ _ taken
      rw [contents] at count
      refine ⟨by omega, fun remembers => ?_⟩
      rcases found remembers with old | new
      · exact old
      · exact remembered (memory new)
  · rw [noted]
    by_cases taken : (inbox.deliver signal).1 = .admitted
    · rw [if_pos taken]
      exact Or.inr rfl
    · rw [if_neg taken]
      exact Or.inl rfl
  · intro changed unknown
    rw [noted] at changed
    by_cases taken : (inbox.deliver signal).1 = .admitted
    · have wholly := whole taken fun same remembers => unknown same (remembered remembers)
      omega
    · rw [if_neg taken] at changed
      exact absurd rfl changed
  · intro recognised
    obtain ⟨-, still, knows⟩ := deliver_known (recognises recognised)
    rw [still] at count
    refine ⟨by omega, fun same => ?_, slots⟩
    rw [same] at knows
    exact remembered knows
  · intro remembers
    rcases found remembers with old | new
    · exact Or.inl old
    · rcases known new with before | same
      · exact Or.inl (remembered before)
      · exact Or.inr ⟨same, slots⟩

theorem delivers_slot {to_ : RunId} {desk : Nat}
    (there : mail.queueAt signal.room = some (.lent to_ desk)) :
    Delivers id signal mail (mail.dropIn desk signal) := by
  have unrecognised : ¬mail.Recognises signal := by
    rintro ⟨inbox, home, -⟩
    rw [there] at home
    cases home
  have still : Delivers id signal mail mail :=
    ⟨fun _ => ⟨rfl, fun old => old⟩, Or.inl rfl, Nat.le_add_right _ _, fun changed => absurd rfl changed,
      fun recognised => absurd recognised unrecognised, Nat.le_add_right _ _, Or.inl⟩
  unfold dropIn
  cases found : mail.desks[desk]? with
  | none => exact still
  | some lender =>
    by_cases full : lender.slot.length ≥ mail.capacity
    · simp only [if_pos full]
      exact still
    · simp only [if_neg full]
      have slots := sum_map_set (fun desk : SignalDesk => copies id desk.slot) found
        { lender with slot := lender.slot ++ [signal] }
      have hands := sum_map_set (fun desk : SignalDesk => copies id desk.inHand) found
        { lender with slot := lender.slot ++ [signal] }
      have same : copies id (SignalDesk.inHand { lender with slot := lender.slot ++ [signal] }) =
          copies id lender.inHand := rfl
      have count : tally id { mail with
          desks := mail.desks.set desk { lender with slot := lender.slot ++ [signal] }
          admitted := mail.admitted ++ [signal.id] } = mail.tally id + copies id [signal] := by
        simp only [tally, outstanding, inSlots, inHands, atHome, onTheWay, copies_append] at slots ⊢
        omega
      refine ⟨fun unchanged => absurd unchanged (admitted_ne mail signal), Or.inr rfl,
        Nat.le_of_eq count, fun _ _ => count,
        fun recognised => absurd recognised unrecognised, ?_, ?_⟩
      · simp only [inSlots, copies_append] at slots ⊢
        omega
      · rintro (⟨other, member, remembers⟩ | elsewhere)
        · rcases mem_or_eq_of_mem_set member with old | rfl
          · exact Or.inl (Or.inl ⟨other, old, remembers⟩)
          · exact Or.inl (Or.inl ⟨lender, mem_of_getElem? found, remembers⟩)
        · exact Or.inl (Or.inr elsewhere)

theorem delivers_deliver (mail : Mail) (signal : Signal) :
    Delivers id signal mail (mail.deliver signal) := by
  unfold deliver
  cases there : mail.queueAt signal.room with
  | none =>
    apply delivers_home
    · rw [waitingAt, there]
      rfl
    · exact fun remembers => absurd remembers (not_remembers_new _ _)
    · rintro ⟨inbox, home, -⟩
      rw [there] at home
      cases home
  | some queue =>
    cases queue with
    | lent to_ desk => exact delivers_slot there
    | home inbox =>
      apply delivers_home
      · rw [waitingAt, there]
        rfl
      · exact Remembered.of_home there
      · rintro ⟨other, home, knows⟩
        rw [there] at home
        cases home
        exact knows

end Rooms

/-- A signal the city admitted before is delivered again only to a queue that recognises it. -/
def Recognised (mail : Mail) : MailOp → Prop
  | .deliver signal => signal.id ∈ mail.admitted → mail.Recognises signal
  | .lend _ _ _ | .giveBack _ _ | .takeSteer _ _ | .pull _ _ | .waitOut _ _ _ | .answered _ _
  | .waitLeft _ _ | .takeInbox _ | .send _ _ _ _ => True

/-- No step drains what it cannot keep: a queue has room for the slot that is emptied into it, and
the post takes the line that says what became of a signal already taken out. -/
def Drains (mail : Mail) : MailOp → Prop
  | .takeSteer place answers => mail.AtPlace place fun desk =>
    desk.Fits ∧ (SignalDesk.Refuses answers → desk.SteersReadable)
  | .pull place _ => mail.AtPlace place fun desk => desk.Fits
  | .waitOut place _ answers => mail.AtPlace place fun desk => desk.WaitKeeps answers
  | .giveBack place room => mail.GivenWhole place room
  | .lend _ _ _ | .deliver _ | .answered _ _ | .waitLeft _ _ | .takeInbox _ | .send _ _ _ _ => True

instance (mail : Mail) : (op : MailOp) → Decidable (mail.Recognised op)
  | .deliver _ => inferInstanceAs (Decidable (_ → _))
  | .lend _ _ _ | .giveBack _ _ | .takeSteer _ _ | .pull _ _ | .waitOut _ _ _ | .answered _ _
  | .waitLeft _ _ | .takeInbox _ | .send _ _ _ _ => isTrue trivial

instance (mail : Mail) : (op : MailOp) → Decidable (mail.Drains op)
  | .takeSteer place answers => inferInstanceAs (Decidable (mail.AtPlace place fun desk =>
    desk.Fits ∧ (SignalDesk.Refuses answers → desk.SteersReadable)))
  | .pull place _ => inferInstanceAs (Decidable (mail.AtPlace place fun desk => desk.Fits))
  | .waitOut place _ answers =>
    inferInstanceAs (Decidable (mail.AtPlace place fun desk => desk.WaitKeeps answers))
  | .giveBack place room => inferInstanceAs (Decidable (mail.GivenWhole place room))
  | .lend _ _ _ | .deliver _ | .answered _ _ | .waitLeft _ _ | .takeInbox _ | .send _ _ _ _ =>
    isTrue trivial

theorem moves_step (mail : Mail) {op : MailOp} (other : ∀ signal, op ≠ .deliver signal) :
    Moves id (mail.Drains op ∧ mail.Single id) mail (mail.step op) := by
  cases op with
  | deliver signal => exact absurd rfl (other signal)
  | lend room run who => exact (moves_lend mail room run who).imp fun _ => trivial
  | takeInbox place => exact (moves_takeInbox mail place).imp fun _ => trivial
  | giveBack place room => exact moves_giveBack mail place room
  | answered place answers =>
    apply (moves_atDesk fun desk _ => SignalDesk.moves_answered _).imp
    exact fun _ _ _ => trivial
  | waitLeft place answers =>
    apply (moves_atDesk fun desk _ => SignalDesk.moves_waitLeft _).imp
    exact fun _ _ _ => trivial
  | send place signal wait answers =>
    apply (moves_atDesk fun desk _ => SignalDesk.moves_send signal wait _).imp
    exact fun _ _ _ => trivial
  | takeSteer place answers =>
    apply (moves_atDesk fun desk _ => SignalDesk.moves_takeSteer _).imp
    rintro ⟨drains, single⟩ desk found
    obtain ⟨fits, readable⟩ := drains desk found
    exact ⟨⟨fits, single.freshIn found⟩, readable⟩
  | pull place answers =>
    apply (moves_atDesk fun desk _ => SignalDesk.moves_pull _).imp
    rintro ⟨drains, single⟩ desk found
    exact ⟨drains desk found, single.freshIn found⟩
  | waitOut place now answers =>
    apply (moves_atDesk fun desk _ => SignalDesk.moves_waitOut now _).imp
    rintro ⟨drains, single⟩ desk found
    exact ⟨drains desk found, single.freshIn found⟩

/-- Every id waits or was read once at most, and only after it was admitted. -/
def ReadOnce (mail : Mail) : Prop :=
  ∀ id, mail.tally id ≤ 1 ∧ (id ∉ mail.admitted → mail.tally id = 0)

variable {op : MailOp}

theorem readOnce_step (once : mail.ReadOnce)
    (recognised : mail.Recognised op) : (mail.step op).ReadOnce := by
  intro id
  obtain ⟨bound, fresh⟩ := once id
  by_cases delivery : ∃ signal, op = .deliver signal
  · obtain ⟨signal, rfl⟩ := delivery
    have delivers := @delivers_deliver id mail signal
    show tally id (mail.deliver signal) ≤ 1 ∧
      (id ∉ (mail.deliver signal).admitted → tally id (mail.deliver signal) = 0)
    have total := delivers.total
    by_cases same : signal.id = id
    · rw [copies_singleton_of_eq same] at total
      by_cases before : id ∈ mail.admitted
      · have ignored := (delivers.ignored (recognised (by rw [same]; exact before))).1
        refine ⟨by omega, fun never => absurd ?_ never⟩
        rcases delivers.admitted with still | more
        · rw [still]
          exact before
        · rw [more]
          exact mem_append_left _ before
      · have none_ := fresh before
        refine ⟨by omega, fun never => ?_⟩
        rcases delivers.admitted with still | more
        · rw [(delivers.refused still).1]
          exact none_
        · rw [more, same] at never
          exact absurd (mem_append_right _ (mem_singleton_self id)) never
    · rw [copies_singleton_of_ne same] at total
      refine ⟨by omega, fun never => ?_⟩
      have before : id ∉ mail.admitted := by
        intro member
        rcases delivers.admitted with still | more
        · rw [still] at never
          exact never member
        · rw [more] at never
          exact never (mem_append_left _ member)
      have none_ := fresh before
      omega
  · have moves := @moves_step id mail op fun signal same => delivery ⟨signal, same⟩
    have total := moves.total
    rw [moves.admitted]
    refine ⟨by omega, fun never => ?_⟩
    have none_ := fresh never
    omega

/-- Every admitted id waits in one place or was read, and an id in a slot or not yet admitted is in
no queue's memory. -/
def Kept (mail : Mail) : Prop :=
  ∀ id, mail.Single id ∧ (id ∈ mail.admitted → mail.tally id = 1) ∧
    (id ∉ mail.admitted → mail.tally id = 0 ∧ ¬mail.Remembered id)

theorem kept_deliver {signal : Signal}
    (recognised : signal.id ∈ mail.admitted → mail.Recognises signal)
    (single : mail.Single id) (one : id ∈ mail.admitted → mail.tally id = 1)
    (zero : id ∉ mail.admitted → mail.tally id = 0 ∧ ¬mail.Remembered id) :
    (mail.deliver signal).Single id ∧
      (id ∈ (mail.deliver signal).admitted → (mail.deliver signal).tally id = 1) ∧
      (id ∉ (mail.deliver signal).admitted →
        (mail.deliver signal).tally id = 0 ∧ ¬(mail.deliver signal).Remembered id) := by
  have delivers := @delivers_deliver id mail signal
  have bound := single.1
  have slots := delivers.slots
  by_cases same : signal.id = id
  · by_cases before : id ∈ mail.admitted
    · -- A copy is known already, and this one is ignored.
      obtain ⟨count, known, still⟩ := delivers.ignored (recognised (by rw [same]; exact before))
      have inside : id ∈ (mail.deliver signal).admitted := by
        rcases delivers.admitted with unchanged | more
        · rw [unchanged]
          exact before
        · rw [more]
          exact mem_append_left _ before
      rw [Single, count, still]
      refine ⟨⟨bound, fun some_ => absurd (known same) (single.2 some_)⟩, fun _ => one before,
        fun never => absurd inside never⟩
    · obtain ⟨none_, unknown⟩ := zero before
      have empty : mail.inSlots id = 0 := by
        simp only [tally, outstanding] at none_
        omega
      rcases delivers.admitted with unchanged | more
      · obtain ⟨count, memory⟩ := delivers.refused unchanged
        rw [Single, unchanged, count, none_]
        exact ⟨⟨Nat.zero_le _, fun _ remembers => unknown (memory remembers)⟩,
          fun member => absurd member before, fun _ => ⟨rfl, fun remembers => unknown (memory remembers)⟩⟩
      · have changed : (mail.deliver signal).admitted ≠ mail.admitted := by
          rw [more]
          exact admitted_ne mail signal
        have count := delivers.whole changed fun _ => unknown
        rw [copies_singleton_of_eq same, none_] at count
        rw [Single, count]
        refine ⟨⟨Nat.le_refl _, fun some_ remembers => ?_⟩, fun _ => rfl, fun never => absurd ?_ never⟩
        · rcases delivers.known remembers with old | ⟨-, still⟩
          · exact unknown old
          · omega
        · rw [more, same]
          exact mem_append_right _ (mem_singleton_self id)
  · -- The delivery is of another signal.
    rw [copies_singleton_of_ne same] at slots
    have memory : (mail.deliver signal).Remembered id → mail.Remembered id := by
      intro remembers
      rcases delivers.known remembers with old | ⟨never, -⟩
      · exact old
      · exact absurd never same
    have count : (mail.deliver signal).tally id = mail.tally id := by
      by_cases unchanged : (mail.deliver signal).admitted = mail.admitted
      · exact (delivers.refused unchanged).1
      · have whole := delivers.whole unchanged fun never => absurd never same
        rw [copies_singleton_of_ne same] at whole
        exact whole
    have members : id ∈ (mail.deliver signal).admitted ↔ id ∈ mail.admitted := by
      rcases delivers.admitted with unchanged | more
      · rw [unchanged]
      · rw [more, mem_append, mem_singleton]
        exact ⟨fun either => either.resolve_right fun never => same never.symm, Or.inl⟩
    rw [Single, count, members]
    refine ⟨⟨bound, fun some_ remembers => single.2 (by omega) (memory remembers)⟩, one, ?_⟩
    exact fun never => ⟨(zero never).1, fun remembers => (zero never).2 (memory remembers)⟩

theorem kept_step (kept : mail.Kept)
    (recognised : mail.Recognised op) (drains : mail.Drains op) : (mail.step op).Kept := by
  intro id
  obtain ⟨single, one, zero⟩ := kept id
  by_cases delivery : ∃ signal, op = .deliver signal
  · obtain ⟨signal, rfl⟩ := delivery
    exact kept_deliver recognised single one zero
  · have moves := @moves_step id mail op fun signal same => delivery ⟨signal, same⟩
    have whole := moves.whole ⟨drains, single⟩
    have slots := moves.slots
    have bound := single.1
    rw [Single, moves.admitted, whole]
    refine ⟨⟨bound, fun some_ remembers => ?_⟩, one, fun never => ⟨(zero never).1, fun remembers => ?_⟩⟩
    · rcases moves.known remembers with old | fewer
      · exact single.2 (by omega) old
      · simp only [tally, outstanding] at bound
        omega
    · rcases moves.known remembers with old | fewer
      · exact (zero never).2 old
      · have none_ := (zero never).1
        simp only [tally, outstanding] at none_
        omega

theorem tally_opening (id : List Char) (capacity bandwidth : Nat) :
    (opening capacity bandwidth).tally id = 0 := rfl

theorem not_remembered_opening (id : List Char) (capacity bandwidth : Nat) :
    ¬(opening capacity bandwidth).Remembered id := by
  rintro (⟨_, member, _⟩ | ⟨_, member, _⟩ | ⟨_, member, _⟩) <;> cases member

/-- A signal to the hall. -/
def toHall (id : String) (kind : SignalKind) : Signal where
  id := id.toList
  kind
  from_ := "atelier".toList
  named := by decide
  room := ⟨"hall".toList, by decide⟩
  payload := .obj [("text", .str "look at the tests".toList)]
  at_ := 7
  sender := none
  run := none

/-- A run reads in the hall, a steer comes into its slot, and the run leaves. -/
def handOver (after : List MailOp) : List MailOp :=
  .lend ⟨"hall".toList, by decide⟩ .city "scribe".toList :: .deliver (toHall "s" .steer) ::
    .takeInbox 0 :: .giveBack 0 ⟨"hall".toList, by decide⟩ :: after

/-- Where every redelivery meets a queue that recognises it, no signal waits twice or is read
twice, after any operations of a run. -/
theorem signals_read_once {capacity bandwidth : Nat} {taken left : List MailOp}
    (meets : Machine.Meets step Recognised (opening capacity bandwidth) (taken ++ left))
    (id : List Char) :
    ((opening capacity bandwidth).play taken).outstanding id ≤ 1 ∧
      reads id ((opening capacity bandwidth).play taken).lines ≤ 1 := by
  have start : (opening capacity bandwidth).ReadOnce := by
    intro other
    rw [tally_opening]
    exact ⟨Nat.zero_le _, fun _ => rfl⟩
  have once := Machine.run_keeps (fun _ _ holds allowed => readOnce_step holds allowed) start
    meets.append_left
  have bound : ((opening capacity bandwidth).play taken).tally id ≤ 1 := (once id).1
  simp only [tally] at bound
  omega

example : ((opening 8 4).play (handOver [])).outstanding "s".toList ≤ 1 := by decide +kernel

/-- Redelivered after the hand-over, the steer waits twice, and the next run reads both copies. -/
theorem steer_read_twice :
    ((opening 8 4).play (handOver [.deliver (toHall "s" .steer)])).outstanding "s".toList = 2 ∧
      reads "s".toList ((opening 8 4).play (handOver [.deliver (toHall "s" .steer),
        .lend ⟨"hall".toList, by decide⟩ .city "scribe".toList, .takeSteer 1 [], .takeSteer 1 [],
        .answered 1 []])).lines = 2 := by
  decide +kernel

/-- A steer is delivered twice to a room at home, then read by a run that is lent the queue. -/
def deliveredTwice : List MailOp :=
  [.deliver (toHall "s" .steer), .deliver (toHall "s" .steer),
    .lend ⟨"hall".toList, by decide⟩ .city "scribe".toList, .takeSteer 0 [], .answered 0 []]

theorem signals_read_once_delivered_twice :
    ((opening 8 4).play deliveredTwice).outstanding "s".toList ≤ 1 ∧
      reads "s".toList ((opening 8 4).play deliveredTwice).lines ≤ 1 :=
  @signals_read_once 8 4 deliveredTwice [] (by decide +kernel) "s".toList

/-- Where, besides, every step drains only what it can keep, each signal that was admitted and not
read waits in one place. -/
theorem signals_kept {capacity bandwidth : Nat} {taken left : List MailOp}
    (meets : Machine.Meets step (fun mail op => mail.Recognised op ∧ mail.Drains op)
      (opening capacity bandwidth) (taken ++ left)) {id : List Char}
    (admitted : id ∈ ((opening capacity bandwidth).play taken).admitted)
    (unread : reads id ((opening capacity bandwidth).play taken).lines = 0) :
    ((opening capacity bandwidth).play taken).outstanding id = 1 := by
  have start : (opening capacity bandwidth).Kept := by
    intro other
    rw [Single, tally_opening]
    have unknown := not_remembered_opening other capacity bandwidth
    exact ⟨⟨Nat.zero_le _, fun _ => unknown⟩, fun member => absurd member not_mem_nil,
      fun _ => ⟨rfl, unknown⟩⟩
  have kept := Machine.run_keeps (fun _ _ holds allowed => kept_step holds allowed.1 allowed.2) start
    meets.append_left
  have one : ((opening capacity bandwidth).play taken).tally id = 1 := (kept id).2.1 admitted
  simp only [tally] at one
  omega

example : ((opening 8 4).play [.deliver (toHall "s" .steer)]).outstanding "s".toList = 1 := by
  decide +kernel

/-- A run pulls from a full queue, with another mention in its slot. -/
def pulledFull : List MailOp :=
  [.deliver (toHall "first" .mention), .lend ⟨"hall".toList, by decide⟩ .city "scribe".toList,
    .deliver (toHall "second" .mention), .pull 0 []]

/-- The pull empties the slot and is refused, and the mention from the slot is gone. -/
theorem pull_loses_mention :
    "second".toList ∈ ((opening 1 4).play pulledFull).admitted ∧
      reads "second".toList ((opening 1 4).play pulledFull).lines = 0 ∧
      ((opening 1 4).play pulledFull).outstanding "second".toList = 0 := by
  decide +kernel

/-- A steer that came to the slot while its run left waits in the room's queue. -/
theorem signals_kept_hand_over :
    ((opening 8 4).play (handOver [])).outstanding "s".toList = 1 :=
  @signals_kept 8 4 (handOver []) [] (by decide +kernel) "s".toList (by decide +kernel) (by decide +kernel)

end Mail

end Sprawling
