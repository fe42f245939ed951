import Mathlib.Algebra.BigOperators.Group.List.Basic
import Sprawling.Collab.SignalDesk

/-! Where the signals of a city are: what each call at a desk or at the rooms' table moves, loses or
doubles, and what therefore holds after any run of them. -/

namespace Sprawling

open List Option Inbox Collab.Letter

open ReplyWait (deadlineAt)

open Effect

/-- How often an id occurs among signals. -/
def copies (id : List Char) (signals : List Signal) : Nat :=
  signals.countP fun signal => signal.id = id

@[simp] theorem copies_nil (id : List Char) : copies id [] = 0 := rfl

@[simp] theorem copies_append (id : List Char) (first second : List Signal) :
    copies id (first ++ second) = copies id first + copies id second := countP_append

theorem copies_cons (id : List Char) (signal : Signal) (signals : List Signal) :
    copies id (signal :: signals) = copies id [signal] + copies id signals := by
  rw [← copies_append, singleton_append]

variable {signal : Signal} {id : List Char}

theorem copies_singleton_of_eq (same : signal.id = id) :
    copies id [signal] = 1 := by
  simp [copies, same]

theorem copies_singleton_of_ne (other : signal.id ≠ id) :
    copies id [signal] = 0 := by
  simp [copies, other]

/-- The lines that say a signal was read. -/
def reads (id : List Char) (lines : List SignalEffect) : Nat :=
  lines.countP fun line =>
    match line with
    | .consumed signal _ => signal.id = id
    | .enqueued _ | .waitStarted _ _ _ | .waitEnded _ _ => false

@[simp] theorem reads_append (id : List Char) (first second : List SignalEffect) :
    reads id (first ++ second) = reads id first + reads id second := countP_append

namespace Inbox

variable (id : List Char)

/-- One of the inbox's lines has the key of an id. -/
def Remembers (inbox : Inbox) : Prop :=
  id ∈ inbox.urgent.seen.map Prod.fst ∨ id ∈ inbox.ordinary.seen.map Prod.fst

/-- Each signal in turn finds room in its line. -/
def TakesAll : Inbox → List Signal → Prop
  | _, [] => True
  | inbox, signal :: rest => (inbox.deliver signal).1 = .admitted ∧ TakesAll (inbox.deliver signal).2 rest

instance decidableTakesAll : (inbox : Inbox) → (signals : List Signal) →
    Decidable (inbox.TakesAll signals)
  | _, [] => isTrue trivial
  | inbox, signal :: rest =>
    have := decidableTakesAll (inbox.deliver signal).2 rest
    inferInstanceAs (Decidable (_ ∧ _))

end Inbox

section Queues

variable {id : List Char} {queue : EventQueue}

theorem mem_seen_of_forgetStale {now : Nat}
    (member : id ∈ (queue.forgetStale now).seen.map Prod.fst) : id ∈ queue.seen.map Prod.fst := by
  unfold EventQueue.forgetStale at member
  split at member
  · exact member
  · obtain ⟨entry, inside, rfl⟩ := mem_map.mp member
    exact mem_map.mpr ⟨entry, mem_of_mem_filter inside, rfl⟩

theorem forgetStale_items (queue : EventQueue) (now : Nat) :
    (queue.forgetStale now).items = queue.items := by
  unfold EventQueue.forgetStale
  split <;> rfl

theorem enqueue_spec (queue : EventQueue) (signal : Signal) :
    copies id (queue.enqueue signal).2.items ≤ copies id queue.items + copies id [signal] ∧
    ((queue.enqueue signal).1 = .admitted → (signal.id = id → id ∉ queue.seen.map Prod.fst) →
      copies id (queue.enqueue signal).2.items = copies id queue.items + copies id [signal]) ∧
    (id ∈ (queue.enqueue signal).2.seen.map Prod.fst →
      id ∈ queue.seen.map Prod.fst ∨ signal.id = id) := by
  unfold EventQueue.enqueue
  by_cases known : queue.Knows signal
  · simp only [if_pos known, forgetStale_items]
    refine ⟨Nat.le_add_right _ _, ?_, fun member => Or.inl (mem_seen_of_forgetStale member)⟩
    intro _ unknown
    by_cases same : signal.id = id
    · have inside : id ∈ queue.seen.map Prod.fst := by
        rw [← same]
        exact mem_seen_of_forgetStale known
      exact absurd inside (unknown same)
    · rw [copies_singleton_of_ne same, Nat.add_zero]
  · by_cases room : queue.items.length + 1 ≤ queue.capacity
    · simp only [if_neg known, if_pos room, copies_append]
      refine ⟨Nat.le_refl _, fun _ _ => trivial, ?_⟩
      intro member
      rw [map_append] at member
      rcases mem_append.mp member with old | new
      · exact Or.inl (mem_seen_of_forgetStale old)
      · exact Or.inr (mem_singleton.mp new).symm
    · simp only [if_neg known, if_neg room, forgetStale_items]
      refine ⟨Nat.le_add_right _ _, fun never => ?_, fun member => Or.inl (mem_seen_of_forgetStale member)⟩
      cases never

/-- What delivering a signal does to an inbox. -/
theorem deliver_spec (inbox : Inbox) (signal : Signal) :
    copies id (inbox.deliver signal).2.contents ≤ copies id inbox.contents + copies id [signal] ∧
    ((inbox.deliver signal).1 = .admitted → (signal.id = id → ¬inbox.Remembers id) →
      copies id (inbox.deliver signal).2.contents = copies id inbox.contents + copies id [signal]) ∧
    ((inbox.deliver signal).2.Remembers id → inbox.Remembers id ∨ signal.id = id) := by
  unfold Inbox.deliver Inbox.contents Inbox.Remembers
  cases signal.lane with
  | urgent =>
    obtain ⟨bound, whole, known⟩ := @enqueue_spec id inbox.urgent signal
    simp only [copies_append]
    refine ⟨by omega, ?_, ?_⟩
    · intro admits unknown
      have := whole admits fun same member => unknown same (Or.inl member)
      omega
    · rintro (here | there)
      · exact (known here).imp_left Or.inl
      · exact Or.inl (Or.inr there)
  | ordinary =>
    obtain ⟨bound, whole, known⟩ := @enqueue_spec id inbox.ordinary signal
    simp only [copies_append]
    refine ⟨by omega, ?_, ?_⟩
    · intro admits unknown
      have := whole admits fun same member => unknown same (Or.inr member)
      omega
    · rintro (here | there)
      · exact Or.inl (Or.inl here)
      · exact (known there).imp_left Or.inr

/-- A signal a line knows is ignored. -/
theorem deliver_known {inbox : Inbox} (known : (inbox.lineOf signal).Knows signal) :
    (inbox.deliver signal).1 = .admitted ∧ (inbox.deliver signal).2.contents = inbox.contents ∧
      inbox.Remembers signal.id := by
  unfold Inbox.lineOf at known
  unfold Inbox.deliver Inbox.contents Inbox.Remembers
  cases lane : signal.lane with
  | urgent =>
    rw [lane] at known
    simp only [EventQueue.enqueue, if_pos known, forgetStale_items]
    exact ⟨trivial, trivial, Or.inl (mem_seen_of_forgetStale known)⟩
  | ordinary =>
    rw [lane] at known
    simp only [EventQueue.enqueue, if_pos known, forgetStale_items]
    exact ⟨trivial, trivial, Or.inr (mem_seen_of_forgetStale known)⟩

theorem enqueue_shed (shed : (queue.enqueue signal).1 = .shed) :
    (queue.enqueue signal).2 = queue.forgetStale signal.at_ := by
  unfold EventQueue.enqueue at shed ⊢
  by_cases known : queue.Knows signal
  · simp only [if_pos known]
  · by_cases room : queue.items.length + 1 ≤ queue.capacity
    · simp only [if_neg known, if_pos room] at shed
      cases shed
    · simp only [if_neg known, if_neg room]

theorem deliver_shed {inbox : Inbox} {signal : Signal} (shed : (inbox.deliver signal).1 = .shed) :
    (inbox.deliver signal).2.contents = inbox.contents ∧
      ((inbox.deliver signal).2.Remembers id → inbox.Remembers id) := by
  unfold Inbox.deliver at shed ⊢
  unfold Inbox.contents Inbox.Remembers
  cases lane : signal.lane with
  | urgent =>
    rw [lane] at shed
    simp only [enqueue_shed shed, forgetStale_items]
    exact ⟨trivial, Or.imp_left mem_seen_of_forgetStale⟩
  | ordinary =>
    rw [lane] at shed
    simp only [enqueue_shed shed, forgetStale_items]
    exact ⟨trivial, Or.imp_right mem_seen_of_forgetStale⟩

@[simp] theorem copies_giveBack (inbox : Inbox) (signals : List Signal) :
    copies id (inbox.giveBack signals).contents = copies id inbox.contents + copies id signals := by
  simp only [Inbox.giveBack, Inbox.contents, copies_append]
  omega

theorem consume_spec {queue after : EventQueue} {signal : Signal}
    (taken : queue.consume = some (signal, after)) :
    copies id queue.items = copies id [signal] + copies id after.items ∧ after.seen = queue.seen := by
  unfold EventQueue.consume at taken
  split at taken
  · cases taken
  · next whole =>
      cases taken
      refine ⟨?_, rfl⟩
      rw [whole, copies_cons]

/-- A taken signal leaves the inbox it was in, and the keys stay. -/
def Takes (id : List Char) (inbox : Inbox) (signals : List Signal) (after : Inbox) : Prop :=
  copies id inbox.contents = copies id signals + copies id after.contents ∧
    (after.Remembers id ↔ inbox.Remembers id)

theorem takeOne_spec {inbox after : Inbox} {signal : Signal}
    (taken : inbox.takeOne = some (signal, after)) : Takes id inbox [signal] after := by
  unfold takeOne at taken
  split at taken
  · next rest returned =>
      cases taken
      refine ⟨?_, Iff.rfl⟩
      simp only [Inbox.contents, copies_append, returned]
      rw [copies_cons id signal]
      omega
  · split at taken
    · next urgent consumed =>
        cases taken
        obtain ⟨whole, seen⟩ := @consume_spec id _ _ _ consumed
        refine ⟨?_, by simp only [Inbox.Remembers, seen]⟩
        simp only [Inbox.contents, copies_append]
        omega
    · obtain ⟨⟨found, ordinary⟩, consumed, made⟩ := map_eq_some_iff.mp taken
      cases made
      obtain ⟨whole, seen⟩ := @consume_spec id _ _ _ consumed
      refine ⟨?_, by simp only [Inbox.Remembers, seen]⟩
      simp only [Inbox.contents, copies_append]
      omega

theorem pullUpTo_spec (room : Nat) (inbox : Inbox) :
    Takes id inbox (pullUpTo room inbox).1 (pullUpTo room inbox).2 := by
  induction room generalizing inbox with
  | zero => exact ⟨by simp [pullUpTo], Iff.rfl⟩
  | succ room ih =>
    unfold pullUpTo
    cases taken : inbox.takeOne with
    | none => exact ⟨by simp, Iff.rfl⟩
    | some found =>
      obtain ⟨signal, after⟩ := found
      obtain ⟨whole, known⟩ := @takeOne_spec id _ _ _ taken
      obtain ⟨rest, knows⟩ := ih after
      refine ⟨?_, knows.trans known⟩
      show _ = copies id (signal :: (pullUpTo room after).1)
        + copies id (pullUpTo room after).2.contents
      rw [copies_cons]
      omega

theorem takeSteer_spec {inbox after : Inbox} {signal : Signal}
    (taken : inbox.takeSteer = some (signal, after)) : Takes id inbox [signal] after := by
  unfold Inbox.takeSteer at taken
  split at taken
  · next found =>
      cases taken
      refine ⟨?_, Iff.rfl⟩
      obtain ⟨before, behind, whole, none_, urgent⟩ :
          ∃ before behind, inbox.returned = before ++ signal :: behind ∧
            (∀ other ∈ before, ¬(decide (other.lane = .urgent)) = true) ∧
            decide (signal.lane = .urgent) = true := by
        obtain ⟨urgent, before, behind, whole, none_⟩ := find?_eq_some_iff_append.mp found
        exact ⟨before, behind, whole, fun other member => by simpa using none_ other member, urgent⟩
      simp only [Inbox.contents, copies_append, whole]
      have erased : List.eraseP (fun other => decide (other.lane = .urgent)) (signal :: behind) = behind :=
        eraseP_cons_of_pos urgent
      rw [eraseP_append_right _ none_, erased, copies_append, copies_cons id signal]
      omega
  · obtain ⟨⟨found, urgent⟩, consumed, made⟩ := map_eq_some_iff.mp taken
    cases made
    obtain ⟨whole, seen⟩ := @consume_spec id _ _ _ consumed
    refine ⟨?_, by simp only [Inbox.Remembers, seen]⟩
    simp only [Inbox.contents, copies_append]
    omega

end Queues

namespace AtDesk

variable (id : List Char)

def inSlot (here : AtDesk) : Nat := copies id here.desk.slot

/-- The copies the desk has elsewhere, and the lines that say one was read. -/
def accounted (here : AtDesk) : Nat := copies id here.desk.inHand + reads id here.lines

/-- What a piece of a call does to the copies of an id, of which `pending` are in the call's hands
before it: it makes none, and loses none where it is `exact`. -/
structure Moves (exact : Prop) (pending : Nat) (before after : AtDesk) : Prop where
  total : after.inSlot id + after.accounted id ≤
    before.inSlot id + before.accounted id + pending
  whole : exact → after.inSlot id + after.accounted id =
    before.inSlot id + before.accounted id + pending
  slot : after.inSlot id ≤ before.inSlot id
  known : after.desk.inbox.Remembers id → before.desk.inbox.Remembers id ∨ 0 < pending ∨
    after.inSlot id < before.inSlot id

variable {id : List Char} {before after : AtDesk}

theorem Moves.trans {one two : Prop} {here there : Nat} {middle : AtDesk}
    (first : Moves id one here before middle) (second : Moves id two there middle after) :
    Moves id (one ∧ two) (here + there) before after where
  total := by
    have := first.total
    have := second.total
    omega
  whole := by
    rintro ⟨left, right⟩
    have := first.whole left
    have := second.whole right
    omega
  slot := Nat.le_trans second.slot first.slot
  known := by
    intro remembers
    have shrunk := first.slot
    have shrinks := second.slot
    rcases second.known remembers with back | some_ | fewer
    · rcases first.known back with old | some_ | fewer
      · exact Or.inl old
      · exact Or.inr (Or.inl (by omega))
      · exact Or.inr (Or.inr (by omega))
    · exact Or.inr (Or.inl (by omega))
    · exact Or.inr (Or.inr (by omega))

theorem Moves.imp {exact other : Prop} {pending : Nat} {before after : AtDesk}
    (moves : Moves id exact pending before after) (implies : other → exact) :
    Moves id other pending before after :=
  { moves with whole := fun holds => moves.whole (implies holds) }

theorem Moves.shed {exact other : Prop} {pending dropped : Nat}
    (moves : Moves id exact pending before after) (bound : pending ≤ dropped) (lossy : ¬other) :
    Moves id other dropped before after where
  total := by
    have := moves.total
    omega
  whole := fun holds => absurd holds lossy
  slot := moves.slot
  known := by
    intro remembers
    rcases moves.known remembers with old | some_ | fewer
    · exact Or.inl old
    · exact Or.inr (Or.inl (by omega))
    · exact Or.inr (Or.inr fewer)

theorem moves_count (slot : after.desk.slot = before.desk.slot)
    (count : after.accounted id = before.accounted id)
    (known : after.desk.inbox.Remembers id → before.desk.inbox.Remembers id) :
    Moves id True 0 before after where
  total := by
    rw [inSlot, slot, count]
    exact Nat.le_refl _
  whole := by
    intro _
    rw [inSlot, slot, count]
    rfl
  slot := by
    rw [inSlot, slot]
    exact Nat.le_refl _
  known := fun remembers => Or.inl (known remembers)

theorem Moves.refl (here : AtDesk) : Moves id True 0 here here :=
  moves_count rfl rfl fun remembers => remembers

end AtDesk

namespace SignalDesk

open AtDesk

variable {id : List Char}

def Refuses (answers : List (Option AxError)) : Prop := ∃ refusal rest, answers = some refusal :: rest

instance : (answers : List (Option AxError)) → Decidable (Refuses answers)
  | [] => isFalse fun refuses => by
      obtain ⟨refusal, rest, same⟩ := refuses
      cases same
  | none :: _ => isFalse fun refuses => by
      obtain ⟨refusal, rest, same⟩ := refuses
      cases same
  | some refusal :: rest => isTrue ⟨refusal, rest, rfl⟩

theorem run_post (line : SignalEffect) (here : AtDesk) :
    (Refuses here.answers ∧ ∃ refusal, Effect.run (post line) here =
      (.error refusal, { here with answers := here.answers.tail })) ∨
    (¬Refuses here.answers ∧ Effect.run (post line) here =
      (.ok (), { here with answers := here.answers.tail, lines := here.lines ++ [line] })) := by
  cases answers : here.answers with
  | nil =>
    right
    refine ⟨fun refuses => ?_, ?_⟩
    · obtain ⟨refusal, rest, same⟩ := refuses
      cases same
    · simp only [post, run_bind, run_look, run_update, answers]
  | cons next rest =>
    cases next with
    | none =>
      right
      refine ⟨fun refuses => ?_, ?_⟩
      · obtain ⟨refusal, rest', same⟩ := refuses
        cases same
      · simp only [post, run_bind, run_look, run_update, answers]
    | some refusal =>
      left
      refine ⟨⟨refusal, rest, rfl⟩, refusal, ?_⟩
      simp only [post, run_bind, run_look, run_update, answers]
      rfl

theorem moves_post {line : SignalEffect} (unread : reads id [line] = 0) (here : AtDesk) :
    Moves id True 0 here (Effect.run (post line) here).2 := by
  rcases run_post line here with ⟨-, refusal, done⟩ | ⟨-, done⟩
  · rw [done]
    exact moves_count rfl rfl fun remembers => remembers
  · rw [done]
    have same : reads id (here.lines ++ [line]) = reads id here.lines := by
      rw [reads_append, unread, Nat.add_zero]
    exact moves_count rfl (by simp only [accounted, same]) fun remembers => remembers

/-- The state of a call that has delivered a signal to the lent queue. -/
def delivered (signal : Signal) (here : AtDesk) : AtDesk :=
  { here with desk := { here.desk with inbox := (here.desk.inbox.deliver signal).2 } }

theorem run_admitOne (signal : Signal) (here : AtDesk) :
    ((here.desk.inbox.deliver signal).1 = .admitted ∧
      Effect.run (admitOne signal) here = (.ok (), delivered signal here)) ∨
    (¬(here.desk.inbox.deliver signal).1 = .admitted ∧ ∃ refusal,
      Effect.run (admitOne signal) here = (.error refusal, delivered signal here)) := by
  unfold admitOne
  simp only [run_bind, run_look, change, run_update]
  cases (here.desk.inbox.deliver signal).1 with
  | admitted => exact .inl ⟨rfl, rfl⟩
  | shed => exact .inr ⟨nofun, _, rfl⟩

theorem moves_delivered (signal : Signal) (here : AtDesk) :
    Moves id ((here.desk.inbox.deliver signal).1 = .admitted ∧
        (signal.id = id → ¬here.desk.inbox.Remembers id)) (copies id [signal]) here
      (delivered signal here) := by
  obtain ⟨bound, whole, known⟩ := @deliver_spec id here.desk.inbox signal
  refine ⟨?_, ?_, Nat.le_refl _, ?_⟩
  · simp only [inSlot, accounted, inHand, delivered, copies_append]
    omega
  · rintro ⟨admits, unknown⟩
    have := whole admits unknown
    simp only [inSlot, accounted, inHand, delivered, copies_append]
    omega
  · intro remembers
    rcases known remembers with old | same
    · exact Or.inl old
    · right
      left
      rw [copies_singleton_of_eq same]
      omega

/-- The signals of the slot that go into the queue: all but the reply a wait keeps. -/
def queued (desk : SignalDesk) (signals : List Signal) : List Signal :=
  signals.eraseP desk.keeps

/-- An id that waits in hand once, and that the lent queue does not know. -/
def FreshIn (id : List Char) (desk : SignalDesk) (signals : List Signal) : Prop :=
  copies id signals ≤ 1 ∧ (0 < copies id signals → ¬desk.inbox.Remembers id)

variable {desk : SignalDesk} {signal : Signal}

theorem FreshIn.head {rest : List Signal} (fresh : FreshIn id desk (signal :: rest))
    (same : signal.id = id) : ¬desk.inbox.Remembers id := by
  apply fresh.2
  rw [copies_cons, copies_singleton_of_eq same]
  omega

theorem FreshIn.tail {desk : SignalDesk} {signal : Signal} {rest : List Signal}
    (fresh : FreshIn id desk (signal :: rest)) :
    FreshIn id { desk with inbox := (desk.inbox.deliver signal).2 } rest := by
  obtain ⟨once, unknown⟩ := fresh
  rw [copies_cons] at once unknown
  refine ⟨by omega, ?_⟩
  intro some_ remembers
  rcases (@deliver_spec id desk.inbox signal).2.2 remembers with old | same
  · exact unknown (by omega) old
  · rw [copies_singleton_of_eq same] at once
    omega

theorem keeps_setKept (kept : desk.keeps signal = true) :
    (setKept signal desk).keeps = fun _ => false := by
  funext other
  unfold keeps at kept ⊢
  unfold setKept
  cases waiting : desk.waiting with
  | none =>
    rw [waiting] at kept
    cases kept
  | some wait => simp

theorem moves_setKept {signal : Signal} {here : AtDesk} (kept : here.desk.keeps signal = true) :
    Moves id True (copies id [signal]) here { here with desk := setKept signal here.desk } := by
  have empty : here.desk.waiting.bind (·.kept) = none := by
    unfold keeps at kept
    cases waiting : here.desk.waiting with
    | none => rfl
    | some wait =>
      rw [waiting, Bool.and_eq_true] at kept
      exact isNone_iff_eq_none.mp kept.1
  have full : (setKept signal here.desk).waiting.bind (·.kept) = some signal := by
    unfold keeps at kept
    unfold setKept
    cases waiting : here.desk.waiting with
    | none =>
      rw [waiting] at kept
      cases kept
    | some wait => rfl
  have hand : copies id (setKept signal here.desk).inHand =
      copies id here.desk.inHand + copies id [signal] := by
    unfold inHand
    rw [full, empty]
    simp only [setKept, copies_append, toList_some, toList_none, copies_nil]
    omega
  have slot : (setKept signal here.desk).slot = here.desk.slot := rfl
  refine ⟨?_, fun _ => ?_, Nat.le_refl _, Or.inl⟩
  · simp only [inSlot, accounted, hand, slot]
    omega
  · simp only [inSlot, accounted, hand, slot]
    omega

/-- The first signal of the slot is kept as the reply, or delivered to a queue that takes or sheds
it. -/
theorem run_collectAll (signal : Signal) (rest : List Signal) (here : AtDesk) :
    (here.desk.keeps signal = true ∧ Effect.run (collectAll (signal :: rest)) here =
      Effect.run (collectAll rest) { here with desk := setKept signal here.desk }) ∨
    (here.desk.keeps signal = false ∧ (here.desk.inbox.deliver signal).1 = .admitted ∧
      Effect.run (collectAll (signal :: rest)) here =
        Effect.run (collectAll rest) (delivered signal here)) ∨
    (here.desk.keeps signal = false ∧ ¬(here.desk.inbox.deliver signal).1 = .admitted ∧
      ∃ refusal, Effect.run (collectAll (signal :: rest)) here =
        (.error refusal, delivered signal here)) := by
  simp only [collectAll, run_bind, run_look]
  cases here.desk.keeps signal with
  | true => exact .inl ⟨rfl, rfl⟩
  | false =>
    simp only [Bool.false_eq_true, if_false]
    rcases run_admitOne signal here with ⟨admits, done⟩ | ⟨sheds, refusal, done⟩
    · exact .inr (.inl ⟨trivial, admits, run_bind_ok done⟩)
    · exact .inr (.inr ⟨trivial, sheds, refusal, run_bind_error done⟩)

theorem moves_collectAll (signals : List Signal) (here : AtDesk) :
    Moves id (here.desk.inbox.TakesAll (here.desk.queued signals) ∧ FreshIn id here.desk signals)
      (copies id signals) here (Effect.run (collectAll signals) here).2 := by
  induction signals generalizing here with
  | nil => exact (Moves.refl here).imp fun _ => trivial
  | cons signal rest ih =>
    rw [copies_cons]
    rcases run_collectAll signal rest here with
      ⟨kept, done⟩ | ⟨unkept, admits, done⟩ | ⟨unkept, sheds, refusal, done⟩
    · rw [done]
      apply ((moves_setKept kept).trans (ih _)).imp
      rintro ⟨takes, once, unknown⟩
      rw [copies_cons] at once unknown
      refine ⟨trivial, ?_, ?_, ?_⟩
      · rw [queued, eraseP_cons_of_pos kept] at takes
        rw [queued, keeps_setKept kept, eraseP_of_forall_not (by simp)]
        exact takes
      · omega
      · exact fun some_ => unknown (by omega)
    · rw [done]
      apply ((moves_delivered signal here).trans (ih _)).imp
      rintro ⟨takes, fresh⟩
      rw [queued, eraseP_cons_of_neg (by simp [unkept])] at takes
      exact ⟨⟨admits, fresh.head⟩, takes.2, fresh.tail⟩
    · rw [done]
      apply (moves_delivered signal here).shed (Nat.le_add_right _ _)
      rintro ⟨takes, -⟩
      rw [queued, eraseP_cons_of_neg (by simp [unkept])] at takes
      exact sheds takes.1

/-- The state of a call that has emptied the slot into its own hands. -/
def emptied (here : AtDesk) : AtDesk := { here with desk := { here.desk with slot := [] } }

theorem run_takeSlot (here : AtDesk) :
    Effect.run takeSlot here = (.ok here.desk.slot, emptied here) := by
  simp only [takeSlot, run_bind, run_look, change, run_update]
  rfl

def Fits (desk : SignalDesk) : Prop := desk.inbox.TakesAll (desk.queued desk.slot)

instance (desk : SignalDesk) : Decidable desk.Fits :=
  inferInstanceAs (Decidable (desk.inbox.TakesAll (desk.queued desk.slot)))

variable {here : AtDesk}

theorem moves_emptied {exact : Prop} {after : AtDesk}
    (rest : Moves id exact (copies id here.desk.slot) (emptied here) after) :
    Moves id exact 0 here after := by
  have total := rest.total
  have none_ : (emptied here).inSlot id = 0 := rfl
  have same : (emptied here).accounted id = here.accounted id := rfl
  have slot := rest.slot
  have held : here.inSlot id = copies id here.desk.slot := rfl
  refine ⟨by omega, ?_, by omega, ?_⟩
  · intro holds
    have whole := rest.whole holds
    omega
  · intro remembers
    rcases rest.known remembers with old | some_ | fewer
    · exact Or.inl old
    · right
      right
      omega
    · omega

theorem moves_collect (here : AtDesk) :
    Moves id (here.desk.Fits ∧ FreshIn id here.desk here.desk.slot) 0 here
      (Effect.run collect here).2 := by
  have all : Effect.run collect here = Effect.run (collectAll here.desk.slot) (emptied here) := by
    unfold collect
    exact run_bind_ok (run_takeSlot here)
  rw [all]
  apply moves_emptied
  exact moves_collectAll here.desk.slot (emptied here)

/-- The steers of an inbox, as its run takes them. -/
def steersOf (inbox : Inbox) : List Signal :=
  inbox.returned.filter (fun signal => signal.lane = .urgent) ++ inbox.urgent.items

theorem mem_steersOf_deliver {inbox : Inbox} {other : Signal}
    (member : other ∈ steersOf (inbox.deliver signal).2) :
    other ∈ steersOf inbox ∨ other = signal ∧ signal.lane = .urgent := by
  unfold Inbox.deliver at member
  cases lane : signal.lane with
  | ordinary =>
    rw [lane] at member
    exact Or.inl member
  | urgent =>
    rw [lane] at member
    rcases mem_append.mp member with back | queued
    · exact Or.inl (mem_append_left _ back)
    · simp only [EventQueue.enqueue] at queued
      split at queued
      · rw [forgetStale_items] at queued
        exact Or.inl (mem_append_right _ queued)
      · split at queued
        · rcases mem_append.mp queued with old | new
          · exact Or.inl (mem_append_right _ old)
          · exact Or.inr ⟨mem_singleton.mp new, rfl⟩
        · rw [forgetStale_items] at queued
          exact Or.inl (mem_append_right _ queued)

theorem mem_steersOf_takeSteer {inbox after : Inbox}
    (taken : inbox.takeSteer = some (signal, after)) : signal ∈ steersOf inbox := by
  unfold Inbox.takeSteer at taken
  split at taken
  · next found =>
      cases taken
      apply mem_append_left
      have urgent := find?_some found
      exact mem_filter.mpr ⟨mem_of_find?_eq_some found, urgent⟩
  · obtain ⟨⟨other, urgent⟩, consumed, made⟩ := map_eq_some_iff.mp taken
    cases made
    apply mem_append_right
    unfold EventQueue.consume at consumed
    split at consumed
    · cases consumed
    · next whole =>
        cases consumed
        rw [whole]
        exact mem_cons_self

theorem collectAll_steers (signals : List Signal) (here : AtDesk) :
    (Effect.run (collectAll signals) here).2.answers = here.answers ∧
    ∀ signal ∈ steersOf (Effect.run (collectAll signals) here).2.desk.inbox,
      signal ∈ steersOf here.desk.inbox ∨ signal ∈ signals ∧ signal.lane = .urgent := by
  induction signals generalizing here with
  | nil => exact ⟨rfl, fun signal member => Or.inl member⟩
  | cons first rest ih =>
    have later : ∀ middle : AtDesk, middle.answers = here.answers →
        (∀ signal ∈ steersOf middle.desk.inbox,
          signal ∈ steersOf here.desk.inbox ∨ signal = first ∧ signal.lane = .urgent) →
        (Effect.run (collectAll rest) middle).2.answers = here.answers ∧
        ∀ signal ∈ steersOf (Effect.run (collectAll rest) middle).2.desk.inbox,
          signal ∈ steersOf here.desk.inbox ∨ signal ∈ first :: rest ∧ signal.lane = .urgent := by
      intro middle answers steers
      obtain ⟨same, more⟩ := ih middle
      refine ⟨same.trans answers, fun signal member => ?_⟩
      rcases more signal member with old | ⟨inside, urgent⟩
      · rcases steers signal old with older | ⟨rfl, urgent⟩
        · exact Or.inl older
        · exact Or.inr ⟨mem_cons_self, urgent⟩
      · exact Or.inr ⟨mem_cons_of_mem _ inside, urgent⟩
    have admitted : ∀ signal ∈ steersOf (delivered first here).desk.inbox,
        signal ∈ steersOf here.desk.inbox ∨ signal = first ∧ signal.lane = .urgent := by
      intro signal member
      rcases mem_steersOf_deliver member with old | ⟨rfl, urgent⟩
      · exact Or.inl old
      · exact Or.inr ⟨rfl, urgent⟩
    rcases run_collectAll first rest here with
      ⟨-, done⟩ | ⟨-, -, done⟩ | ⟨-, -, refusal, done⟩
    · rw [done]
      exact later _ rfl fun signal member => Or.inl member
    · rw [done]
      exact later _ rfl admitted
    · rw [done]
      refine ⟨rfl, fun signal member => ?_⟩
      rcases admitted signal member with old | ⟨rfl, urgent⟩
      · exact Or.inl old
      · exact Or.inr ⟨mem_cons_self, urgent⟩

/-- Every steer that waits at a desk has words. -/
def SteersReadable (desk : SignalDesk) : Prop :=
  ∀ signal ∈ steersOf desk.inbox ++ desk.slot.filter (fun signal => signal.lane = .urgent),
    (fromSignal signal).isOk = true

instance (desk : SignalDesk) : Decidable desk.SteersReadable :=
  inferInstanceAs (Decidable (∀ signal ∈ _, (fromSignal signal).isOk = true))

theorem moves_read {start : AtDesk} {who : List Char} (slot : start.desk.slot = here.desk.slot)
    (hand : copies id here.desk.inHand = copies id [signal] + copies id start.desk.inHand)
    (lines : start.lines = here.lines) (answers : start.answers = here.answers)
    (known : start.desk.inbox.Remembers id → here.desk.inbox.Remembers id) :
    Moves id (¬Refuses here.answers) 0 here (Effect.run (post (.consumed signal who)) start).2 := by
  have line : reads id [.consumed signal who] = copies id [signal] := by
    simp [reads, copies]
  rcases run_post (.consumed signal who) start with ⟨refuses, refusal, done⟩ | ⟨accepts, done⟩
  · rw [done]
    rw [answers] at refuses
    refine ⟨?_, fun exact => absurd refuses exact, ?_, fun remembers => Or.inl (known remembers)⟩
    · simp only [inSlot, accounted, slot, lines]
      omega
    · simp only [inSlot, slot]
      exact Nat.le_refl _
  · rw [done]
    apply @Moves.imp _ True
    · apply moves_count
      · exact slot
      · simp only [accounted, reads_append, line, lines]
        omega
      · exact known
    · exact fun _ => trivial

/-- Taking a steer loses a signal only where the queue sheds, or where the post refuses the line
that says an unreadable steer was read. -/
theorem moves_takeSteer (here : AtDesk) :
    Moves id ((here.desk.Fits ∧ FreshIn id here.desk here.desk.slot) ∧
        (Refuses here.answers → here.desk.SteersReadable))
      0 here (Effect.run takeSteer here).2 := by
  have collected := @moves_collect id here
  have steers : (Effect.run collect here).2.answers = here.answers ∧
      ∀ signal ∈ steersOf (Effect.run collect here).2.desk.inbox,
        signal ∈ steersOf here.desk.inbox ∨ signal ∈ here.desk.slot ∧ signal.lane = .urgent := by
    have all : Effect.run collect here = Effect.run (collectAll here.desk.slot) (emptied here) := by
      unfold collect
      exact run_bind_ok (run_takeSlot here)
    rw [all]
    exact collectAll_steers here.desk.slot (emptied here)
  cases done : Effect.run collect here with
  | mk result middle =>
    rw [done] at collected steers
    cases result with
    | error refusal =>
      have all : Effect.run takeSteer here = (.error refusal, middle) := by
        unfold takeSteer
        exact run_bind_error done
      rw [all]
      exact collected.imp And.left
    | ok answer =>
      unfold takeSteer
      rw [run_bind_ok done]
      simp only [run_bind, run_look]
      cases taken : middle.desk.inbox.takeSteer with
      | none => exact collected.imp And.left
      | some found =>
        obtain ⟨signal, inbox⟩ := found
        obtain ⟨whole, known⟩ := @takeSteer_spec id _ _ _ taken
        simp only [run_bind, change, run_update]
        cases readable : fromSignal signal with
        | ok letter =>
          simp only [run_bind, run_update, run_pure]
          have held : Moves id True 0 middle { middle with
              desk := { middle.desk with inbox, held := middle.desk.held ++ [signal] } } := by
            apply moves_count
            · rfl
            · simp only [accounted, inHand, copies_append]
              omega
            · exact known.mp
          exact (collected.trans held).imp fun holds => ⟨holds.1, trivial⟩
        | error unreadable =>
          have spent : Moves id (¬Refuses middle.answers) 0 middle
              (Effect.run (post (.consumed signal middle.desk.who))
                { middle with desk := { middle.desk with inbox } }).2 := by
            apply moves_read
            · rfl
            · simp only [inHand, copies_append]
              omega
            · rfl
            · rfl
            · exact known.mp
          have refused : Moves id (¬Refuses middle.answers) 0 middle
              (Effect.run (post (.consumed signal middle.desk.who) >>=
                fun _ => (Effect.refuse unreadable : Desk (Option Collab.Letter)))
                { middle with desk := { middle.desk with inbox } }).2 := by
            rw [run_bind]
            cases posted : Effect.run (post (.consumed signal middle.desk.who))
                { middle with desk := { middle.desk with inbox } } with
            | mk outcome after =>
              rw [posted] at spent
              cases outcome <;> exact spent
          apply (collected.trans refused).imp
          rintro ⟨fits, unspoiled⟩
          refine ⟨fits, fun refuses => ?_⟩
          rw [steers.1] at refuses
          have waits := steers.2 signal (mem_steersOf_takeSteer taken)
          have reads := unspoiled refuses signal (by
            rcases waits with old | ⟨inside, urgent⟩
            · exact mem_append_left _ old
            · apply mem_append_right
              exact mem_filter.mpr ⟨inside, by simpa using urgent⟩)
          rw [readable] at reads
          cases reads

theorem moves_answerAll (who : List Char) (signals : List Signal) (here : AtDesk)
    (held : here.desk.held = signals) :
    Moves id True 0 here (Effect.run (answerAll who signals) here).2 := by
  induction signals generalizing here with
  | nil => exact Moves.refl here
  | cons signal rest ih =>
    have same : { here with desk := { here.desk with held := signal :: rest } } = here := by
      rw [← held]
    have line : reads id [.consumed signal who] = copies id [signal] := by
      simp [reads, copies]
    simp only [answerAll, run_bind, change, run_update]
    rw [same]
    rcases run_post (.consumed signal who) here with ⟨-, refusal, done⟩ | ⟨-, done⟩
    · rw [done]
      exact moves_count rfl rfl fun remembers => remembers
    · rw [done]
      have first : Moves id True 0 here { here with
          desk := { here.desk with held := rest }
          lines := here.lines ++ [.consumed signal who]
          answers := here.answers.tail } := by
        apply moves_count
        · rfl
        · simp only [accounted, inHand, reads_append, copies_append, line, held]
          rw [copies_cons id signal rest]
          omega
        · exact fun remembers => remembers
      exact (first.trans (ih _ rfl)).imp fun _ => ⟨trivial, trivial⟩

theorem moves_answered (here : AtDesk) :
    Moves id True 0 here (Effect.run answered here).2 := by
  unfold answered
  simp only [run_bind, run_look]
  exact moves_answerAll here.desk.who here.desk.held here rfl

theorem moves_pull (here : AtDesk) :
    Moves id (here.desk.Fits ∧ FreshIn id here.desk here.desk.slot) 0 here
      (Effect.run pull here).2 := by
  have collected := @moves_collect id here
  cases done : Effect.run collect here with
  | mk result middle =>
    rw [done] at collected
    cases result with
    | error refusal =>
      have all : Effect.run pull here = (.error refusal, middle) := by
        unfold pull
        exact run_bind_error done
      rw [all]
      exact collected
    | ok answer =>
      unfold pull
      rw [run_bind_ok done]
      simp only [run_bind, run_look, change, run_update, run_pure]
      obtain ⟨whole, known⟩ := @pullUpTo_spec id middle.desk.inbox.bandwidth middle.desk.inbox
      have held : Moves id True 0 middle { middle with
          desk := { middle.desk with
            inbox := middle.desk.inbox.pull.2
            held := middle.desk.held ++ middle.desk.inbox.pull.1 } } := by
        apply moves_count
        · rfl
        · simp only [accounted, inHand, copies_append, Inbox.pull]
          omega
        · exact known.mp
      exact (collected.trans held).imp fun holds => ⟨holds, trivial⟩

/-- Puts each signal into the lent queue, up to the first that is shed. -/
def admitAll : List Signal → Desk Unit
  | [] => return ()
  | signal :: rest => do
      admitOne signal
      admitAll rest

theorem moves_admitAll (signals : List Signal) (here : AtDesk) :
    Moves id (here.desk.inbox.TakesAll signals ∧ FreshIn id here.desk signals) (copies id signals)
      here (Effect.run (admitAll signals) here).2 := by
  induction signals generalizing here with
  | nil => exact (Moves.refl here).imp fun _ => trivial
  | cons signal rest ih =>
    rw [copies_cons, admitAll]
    rcases run_admitOne signal here with ⟨admits, done⟩ | ⟨sheds, refusal, done⟩
    · rw [run_bind_ok done]
      apply ((moves_delivered signal here).trans (ih _)).imp
      rintro ⟨takes, fresh⟩
      exact ⟨⟨admits, fresh.head⟩, takes.2, fresh.tail⟩
    · rw [run_bind_error done]
      apply (moves_delivered signal here).shed (Nat.le_add_right _ _)
      exact fun holds => sheds holds.1.1

/-- Queueing changes the inbox alone, and answers where every signal finds room. -/
theorem admitAll_frame (signals : List Signal) (here : AtDesk) :
    (Effect.run (admitAll signals) here).2 = { here with
      desk := { here.desk with inbox := (Effect.run (admitAll signals) here).2.desk.inbox } } ∧
    ((Effect.run (admitAll signals) here).1 = .ok () ↔ here.desk.inbox.TakesAll signals) := by
  induction signals generalizing here with
  | nil => exact ⟨rfl, fun _ => trivial, fun _ => rfl⟩
  | cons signal rest ih =>
    rw [admitAll]
    rcases run_admitOne signal here with ⟨admits, done⟩ | ⟨sheds, refusal, done⟩
    · obtain ⟨frame, takes⟩ := ih (delivered signal here)
      rw [run_bind_ok done, takes]
      refine ⟨?_, fun later => ⟨admits, later⟩, fun both => both.2⟩
      rw [frame]
      rfl
    · rw [run_bind_error done]
      exact ⟨rfl, nofun, fun takes => absurd takes.1 sheds⟩

/-- The reply a wait takes out of the slot, where it keeps none yet. -/
def replyIn (wait : ReplyWait) (room : Address) (signals : List Signal) : Option Signal :=
  signals.find? fun signal => wait.kept.isNone && wait.answers signal room

/-- The signals of the slot that are not the reply. -/
def others (wait : ReplyWait) (room : Address) (signals : List Signal) : List Signal :=
  signals.eraseP fun signal => wait.kept.isNone && wait.answers signal room

theorem copies_others (wait : ReplyWait) (room : Address) (signals : List Signal) :
    copies id signals =
      copies id (others wait room signals) + copies id (replyIn wait room signals).toList := by
  unfold others replyIn
  induction signals with
  | nil => rfl
  | cons signal rest ih =>
    by_cases answers : (wait.kept.isNone && wait.answers signal room) = true
    · simp only [eraseP_cons, find?_cons, answers, cond_true, toList_some]
      rw [copies_cons]
      omega
    · simp only [eraseP_cons, find?_cons, answers, cond_false]
      rw [copies_cons, ih, copies_cons id signal (List.eraseP _ rest)]
      omega

theorem run_sortSlot_some (wait : ReplyWait) (reply : Signal) (signals : List Signal)
    (here : AtDesk) :
    Effect.run (sortSlot wait (some reply) signals) here =
      Effect.run (do admitAll signals; return some reply) here := by
  induction signals generalizing here with
  | nil => rfl
  | cons signal rest ih =>
    simp only [sortSlot, admitAll, run_bind, run_look, isNone_some, Bool.false_and,
      Bool.false_eq_true, if_false]
    cases Effect.run (admitOne signal) here with
    | mk result middle =>
      cases result with
      | error refusal => rfl
      | ok done => exact ih middle

/-- Sorting the slot queues every signal but the reply. -/
theorem run_sortSlot (wait : ReplyWait) (signals : List Signal) (here : AtDesk) :
    Effect.run (sortSlot wait wait.kept signals) here =
      Effect.run (do
        admitAll (others wait here.desk.room signals)
        return wait.kept.or (replyIn wait here.desk.room signals)) here := by
  cases kept : wait.kept with
  | some reply =>
    have all : others wait here.desk.room signals = signals :=
      eraseP_of_forall_not (by simp [kept])
    rw [all]
    exact run_sortSlot_some wait reply signals here
  | none =>
    unfold others replyIn
    simp only [kept, isNone_none, Bool.true_and, none_or]
    induction signals generalizing here with
    | nil => rfl
    | cons signal rest ih =>
      by_cases answers : wait.answers signal here.desk.room = true
      · simp only [sortSlot, run_bind, run_look, isNone_none, Bool.true_and, answers,
          if_true, eraseP_cons, find?_cons, cond_true]
        exact run_sortSlot_some wait signal rest here
      · simp only [sortSlot, run_bind, run_look, isNone_none, Bool.true_and, answers,
          Bool.false_eq_true, if_false, eraseP_cons, find?_cons, cond_false, admitAll]
        rcases run_admitOne signal here with ⟨-, done⟩ | ⟨-, refusal, done⟩
        · rw [done]
          exact ih (delivered signal here)
        · rw [done]

variable {wait : ReplyWait} {reply : Signal}

/-- What a wait does at a safe point, once it is parked. -/
def waitOn (now deadline : Nat) (wait : ReplyWait) : Desk WaitTurn := do
  let arrived ← takeSlot
  match ← sortSlot wait wait.kept arrived with
  | some reply => replied wait reply
  | none =>
    if now < deadline then return .waiting
    else do
      post (.waitEnded wait.signal .timeout)
      change fun desk => { desk with waiting := none }
      let room := String.ofList wait.on_.text
      return .timedOut s!"no reply came from {room} within 240 s; go on without it"

theorem queued_eq_others (waiting : desk.waiting = some wait) (signals : List Signal) :
    desk.queued signals = others wait desk.room signals := by
  have same : desk.keeps = fun signal => wait.kept.isNone && wait.answers signal desk.room := by
    funext signal
    rw [keeps, waiting]
  rw [queued, others, same]

/-- The state of a call that has sorted the slot into the lent queue. -/
def sorted (wait : ReplyWait) (here : AtDesk) : AtDesk :=
  (Effect.run (admitAll (others wait here.desk.room here.desk.slot)) (emptied here)).2

theorem sorted_frame (wait : ReplyWait) (here : AtDesk) : sorted wait here = { here with
    desk := { here.desk with slot := [], inbox := (sorted wait here).desk.inbox } } :=
  (admitAll_frame _ (emptied here)).1

/-- What a wait has done at a safe point: its queue shed, its line was refused, it goes on waiting,
or it ended. -/
inductive Waited (wait : ReplyWait) (now deadline : Nat) (here : AtDesk) : AtDesk → Prop
  | shed (full : ¬here.desk.inbox.TakesAll (others wait here.desk.room here.desk.slot)) :
      Waited wait now deadline here (sorted wait here)
  | refused (refuses : Refuses (sorted wait here).answers) : Waited wait now deadline here
      { sorted wait here with answers := (sorted wait here).answers.tail }
  | waits (silent : wait.kept.or (replyIn wait here.desk.room here.desk.slot) = none) :
      Waited wait now deadline here (sorted wait here)
  | replied {reply : Signal}
      (found : wait.kept.or (replyIn wait here.desk.room here.desk.slot) = some reply) :
      Waited wait now deadline here
        { desk := { (sorted wait here).desk with
            waiting := none
            held := (sorted wait here).desk.held ++ [reply] }
          answers := (sorted wait here).answers.tail
          lines := (sorted wait here).lines ++ [.waitEnded wait.signal (.reply reply.id)] }
  | timedOut (silent : wait.kept.or (replyIn wait here.desk.room here.desk.slot) = none)
      (past : deadline ≤ now) : Waited wait now deadline here
        { desk := { (sorted wait here).desk with waiting := none }
          answers := (sorted wait here).answers.tail
          lines := (sorted wait here).lines ++ [.waitEnded wait.signal .timeout] }

theorem run_waitOn (wait : ReplyWait) (now deadline : Nat) (here : AtDesk) :
    Waited wait now deadline here (Effect.run (waitOn now deadline wait) here).2 := by
  have takes := (admitAll_frame (others wait here.desk.room here.desk.slot) (emptied here)).2
  have order := run_sortSlot wait here.desk.slot (emptied here)
  unfold waitOn
  rw [run_bind_ok (run_takeSlot here)]
  cases done : Effect.run (admitAll (others wait here.desk.room here.desk.slot)) (emptied here) with
  | mk result middle =>
    have state : middle = sorted wait here := (congrArg Prod.snd done).symm
    rw [done] at takes
    cases result with
    | error refusal =>
      rw [run_bind_error (order.trans (run_bind_error done)), state]
      exact .shed fun all => by cases takes.mpr all
    | ok _ =>
      rw [run_bind_ok (order.trans (run_bind_ok done)), state]
      show Waited wait now deadline here (Effect.run (match wait.kept.or
        (replyIn wait here.desk.room here.desk.slot) with | some reply => _ | none => _) _).2
      cases found : wait.kept.or (replyIn wait here.desk.room here.desk.slot) with
      | some reply =>
        simp only [replied, run_bind, change]
        rcases run_post (.waitEnded wait.signal (.reply reply.id)) (sorted wait here) with
          ⟨refuses, refusal, posted⟩ | ⟨-, posted⟩
        · rw [posted]
          exact .refused refuses
        · rw [posted]
          exact .replied found
      | none =>
        by_cases early : now < deadline
        · simp only [if_pos early]
          exact .waits found
        · simp only [if_neg early, run_bind, change]
          rcases run_post (.waitEnded wait.signal .timeout) (sorted wait here) with
            ⟨refuses, refusal, posted⟩ | ⟨-, posted⟩
          · rw [posted]
            exact .refused refuses
          · rw [posted]
            exact .timedOut found (Nat.le_of_not_lt early)

theorem moves_waitOn {here : AtDesk} {wait : ReplyWait} (now deadline : Nat)
    (waiting : here.desk.waiting = some wait) :
    Moves id ((here.desk.Fits ∧ FreshIn id here.desk here.desk.slot) ∧
        ((replyIn wait here.desk.room here.desk.slot).isSome → ¬Refuses here.answers))
      0 here (Effect.run (waitOn now deadline wait) here).2 := by
  apply moves_emptied
  have parted := @copies_others id wait here.desk.room here.desk.slot
  have queue := queued_eq_others waiting here.desk.slot
  have moved : Moves id _ _ (emptied here) (sorted wait here) :=
    moves_admitAll (others wait here.desk.room here.desk.slot) (emptied here)
  have whole : here.desk.Fits ∧ FreshIn id here.desk here.desk.slot →
      (emptied here).desk.inbox.TakesAll (others wait here.desk.room here.desk.slot) ∧
        FreshIn id (emptied here).desk (others wait here.desk.room here.desk.slot) := by
    rintro ⟨fits, once, unknown⟩
    rw [Fits, queue] at fits
    exact ⟨fits, by omega, fun some_ => unknown (by omega)⟩
  have still : (sorted wait here).desk.waiting = some wait := by
    rw [sorted_frame]
    exact waiting
  -- After the sorting only the reply that stood in the slot is pending.
  have onward : ∀ {after}, Moves id True
      (copies id (replyIn wait here.desk.room here.desk.slot).toList) (sorted wait here) after →
      Moves id ((here.desk.Fits ∧ FreshIn id here.desk here.desk.slot) ∧
        ((replyIn wait here.desk.room here.desk.slot).isSome → ¬Refuses here.answers))
        (copies id here.desk.slot) (emptied here) after := by
    intro after rest
    rw [parted]
    exact (moved.trans rest).imp fun holds => ⟨whole holds.1, trivial⟩
  have waited := run_waitOn wait now deadline here
  generalize (Effect.run (waitOn now deadline wait) here).2 = after at waited ⊢
  cases waited with
  | shed full =>
    apply moved.shed
    · omega
    · exact fun holds => full (whole holds.1).1
  | refused refuses =>
    have same : Moves id True 0 (sorted wait here)
        { sorted wait here with answers := (sorted wait here).answers.tail } :=
      moves_count rfl rfl fun remembers => remembers
    cases found : replyIn wait here.desk.room here.desk.slot with
    | none =>
      rw [found] at onward
      exact onward same
    | some reply =>
      apply (moved.trans same).shed
      · omega
      · intro holds
        rw [sorted_frame] at refuses
        exact holds.2 rfl refuses
  | waits silent =>
    apply onward
    rw [(or_eq_none_iff.mp silent).2]
    exact Moves.refl _
  | @replied reply found =>
    have hand : copies id [reply] = copies id wait.kept.toList +
        copies id (replyIn wait here.desk.room here.desk.slot).toList := by
      cases kept : wait.kept with
      | some first =>
        have none_ : replyIn wait here.desk.room here.desk.slot = none :=
          find?_eq_none.mpr (by simp [kept])
        rw [kept, some_or] at found
        cases found
        rw [none_, toList_none, toList_some, copies_nil, Nat.add_zero]
      | none =>
        rw [kept, none_or] at found
        simp [found]
    have unread : reads id [.waitEnded wait.signal (.reply reply.id)] = 0 := rfl
    apply onward
    refine ⟨?_, fun _ => ?_, Nat.le_refl _, Or.inl⟩
    · simp only [inSlot, accounted, inHand, copies_append, still, bind_some, bind_none, toList_none,
        copies_nil, reads_append]
      omega
    · simp only [inSlot, accounted, inHand, copies_append, still, bind_some, bind_none, toList_none,
        copies_nil, reads_append]
      omega
  | timedOut silent past =>
    obtain ⟨unkept, none_⟩ := or_eq_none_iff.mp silent
    have unread : reads id [.waitEnded wait.signal .timeout] = 0 := rfl
    apply onward
    rw [none_]
    apply moves_count
    · rfl
    · simp only [accounted, inHand, still, unkept, bind_some, bind_none, reads_append, unread,
        Nat.add_zero]
    · exact fun remembers => remembers

/-- What a wait needs to lose no signal: its first line is refused before the slot is opened, or the
queue has room and the line that ends it with a reply out of the slot is posted. -/
def WaitKeeps (desk : SignalDesk) (answers : List (Option AxError)) : Prop :=
  ∀ wait ∈ desk.waiting,
    (wait.deadline = none ∧ Refuses answers) ∨
    (desk.Fits ∧ ((replyIn wait desk.room desk.slot).isSome →
      ¬Refuses (if wait.deadline.isNone then answers.tail else answers)))

instance (desk : SignalDesk) (answers : List (Option AxError)) :
    Decidable (desk.WaitKeeps answers) :=
  inferInstanceAs (Decidable (∀ wait ∈ desk.waiting, _ ∨ _))

theorem run_waitOut_parked {here : AtDesk} {wait : ReplyWait} {deadline : Nat} (now : Nat)
    (waiting : here.desk.waiting = some wait) (parked : wait.deadline = some deadline) :
    Effect.run (waitOut now) here = Effect.run (waitOn now deadline wait) here := by
  have all : Effect.run (park wait now) here = (.ok (deadline, wait), here) := by
    unfold park
    rw [parked]
    rfl
  unfold waitOut
  simp only [run_bind, run_look, waiting]
  rw [all]
  rfl

/-- A wait at its first safe point is refused its first line, or goes on with its deadline. -/
theorem run_waitOut_asked {here : AtDesk} {wait : ReplyWait} (now : Nat)
    (waiting : here.desk.waiting = some wait) (asked : wait.deadline = none) :
    (Refuses here.answers ∧ ∃ refusal, Effect.run (waitOut now) here =
      (.error refusal, { here with answers := here.answers.tail })) ∨
    (¬Refuses here.answers ∧ Effect.run (waitOut now) here =
      Effect.run (waitOn now (deadlineAt now)
          { wait with deadline := some (deadlineAt now) })
        { desk := { here.desk with
            waiting := some { wait with deadline := some (deadlineAt now) } }
          answers := here.answers.tail
          lines := here.lines ++
            [.waitStarted wait.on_ wait.signal (deadlineAt now)] }) := by
  have park_eq : park wait now = (do
      post (.waitStarted wait.on_ wait.signal (deadlineAt now))
      change fun desk => { desk with
        waiting := some { wait with deadline := some (deadlineAt now) } }
      return (deadlineAt now,
        { wait with deadline := some (deadlineAt now) })) := by
    unfold park
    rw [asked]
  unfold waitOut
  simp only [run_bind, run_look, waiting]
  rcases run_post (.waitStarted wait.on_ wait.signal (deadlineAt now)) here with
    ⟨refuses, refusal, done⟩ | ⟨accepts, done⟩
  · refine .inl ⟨refuses, refusal, ?_⟩
    have all : Effect.run (park wait now) here =
        (.error refusal, { here with answers := here.answers.tail }) := by
      rw [park_eq]
      exact run_bind_error done
    rw [all]
  · refine .inr ⟨accepts, ?_⟩
    have all : Effect.run (park wait now) here =
        (.ok (deadlineAt now,
            { wait with deadline := some (deadlineAt now) }),
          { desk := { here.desk with
              waiting := some { wait with deadline := some (deadlineAt now) } }
            answers := here.answers.tail
            lines := here.lines ++
              [.waitStarted wait.on_ wait.signal (deadlineAt now)] }) := by
      rw [park_eq, run_bind_ok done]
      rfl
    rw [all]
    rfl

theorem moves_waitOut (now : Nat) (here : AtDesk) :
    Moves id (here.desk.WaitKeeps here.answers ∧ FreshIn id here.desk here.desk.slot) 0 here
      (Effect.run (waitOut now) here).2 := by
  cases waiting : here.desk.waiting with
  | none =>
    have idle : Effect.run (waitOut now) here = (.ok .idle, here) := by
      unfold waitOut
      simp only [run_bind, run_look, waiting]
      rfl
    rw [idle]
    exact (Moves.refl here).imp fun _ => trivial
  | some wait =>
    cases deadline : wait.deadline with
    | some moment =>
      rw [run_waitOut_parked now waiting deadline]
      apply (@moves_waitOn id here wait now moment waiting).imp
      rintro ⟨keeps, fresh⟩
      rcases keeps wait waiting with ⟨parked, -⟩ | ⟨fits, accepts⟩
      · rw [deadline] at parked
        cases parked
      · rw [deadline] at accepts
        exact ⟨⟨fits, fresh⟩, accepts⟩
    | none =>
      rcases run_waitOut_asked now waiting deadline with ⟨-, refusal, done⟩ | ⟨accepted, done⟩
      · rw [done]
        apply @Moves.imp _ True
        · exact moves_count rfl rfl fun remembers => remembers
        · exact fun _ => trivial
      · rw [done]
        have started : Moves id True 0 here
            { desk := { here.desk with
                waiting := some { wait with deadline := some (deadlineAt now) } }
              answers := here.answers.tail
              lines := here.lines ++
                [.waitStarted wait.on_ wait.signal (deadlineAt now)] } := by
          apply moves_count
          · rfl
          · have unread : reads id
                [.waitStarted wait.on_ wait.signal (deadlineAt now)] = 0 := rfl
            simp only [accounted, inHand, waiting, bind_some, reads_append, unread, Nat.add_zero]
          · exact fun remembers => remembers
        apply (started.trans (moves_waitOn now (deadlineAt now) rfl)).imp
        rintro ⟨keeps, fresh⟩
        rcases keeps wait waiting with ⟨-, refuses⟩ | ⟨fits, accepts⟩
        · exact absurd refuses accepted
        · rw [deadline] at accepts
          refine ⟨trivial, ⟨?_, fresh⟩, accepts⟩
          rw [Fits, queued_eq_others waiting] at fits
          rw [Fits, queued_eq_others rfl]
          exact fits

theorem moves_waitLeft (here : AtDesk) :
    Moves id True 0 here (Effect.run waitLeft here).2 := by
  unfold waitLeft
  simp only [run_bind, run_look]
  cases waiting : here.desk.waiting with
  | none => exact Moves.refl here
  | some wait =>
    simp only [run_bind, change, run_update]
    have given : Moves id True 0 here { here with
        desk := { here.desk with
          waiting := none
          inbox := here.desk.inbox.giveBack wait.kept.toList } } := by
      apply moves_count
      · rfl
      · simp only [accounted, inHand, copies_append, copies_giveBack, waiting, bind_some,
          bind_none, toList_none, copies_nil]
        omega
      · exact fun remembers => remembers
    cases wait.deadline with
    | none => exact given
    | some deadline => exact (given.trans (moves_post rfl _)).imp fun _ => ⟨trivial, trivial⟩

theorem moves_send (signal : Signal) (wait : Option Address) (here : AtDesk) :
    Moves id True 0 here (Effect.run (send signal wait) here).2 := by
  unfold send
  simp only [run_bind, run_look]
  by_cases twice : (wait.isSome && here.desk.waiting.isSome) = true
  · rw [if_pos twice]
    exact Moves.refl here
  · rw [if_neg twice]
    have posted := @moves_post id (.enqueued signal) rfl here
    rw [run_bind]
    rcases run_post (.enqueued signal) here with ⟨-, refusal, done⟩ | ⟨-, done⟩
    · rw [done] at posted ⊢
      exact posted
    · rw [done] at posted ⊢
      cases wait with
      | none => exact posted
      | some on_ =>
        have idle : here.desk.waiting = none := by
          simpa using twice
        have asked : Moves id True 0 { here with
            answers := here.answers.tail, lines := here.lines ++ [.enqueued signal] }
            { desk := { here.desk with waiting := some (.asked on_ signal.id) }
              answers := here.answers.tail
              lines := here.lines ++ [.enqueued signal] } := by
          apply moves_count
          · rfl
          · simp [accounted, inHand, idle, ReplyWait.asked]
          · exact fun remembers => remembers
        exact (posted.trans asked).imp fun _ => ⟨trivial, trivial⟩

end SignalDesk

end Sprawling
