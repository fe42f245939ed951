import Mathlib.Data.List.Nodup
import Mathlib.Data.List.Perm.Subperm
import Mathlib.Data.List.Range
import Sprawling.Base.Machine
import Sprawling.Base.Word

/-! The machine budget heavy work reserves its memory from, and the line it waits in past that
budget. -/

namespace Sprawling

open List Word

namespace Reserve

/-- What stood ahead of an ask that did not start at once. -/
structure Waited where
  ahead : Nat
  heldBytes : Nat
  budgetBytes : Nat

/-- The budget, what is held, and who waits, each with its bytes in the order of the tickets. -/
structure Book where
  budget : Nat
  held : List (Nat × Nat)
  waiting : List (Nat × Nat)
  next : Nat

/-- The bytes held, summed saturating. -/
def heldBytes (held : List (Nat × Nat)) : Nat :=
  held.foldl (fun sum entry => Word.saturatingAdd u64Values sum entry.2) 0

/-- Nobody holds, or the held bytes and these stay within the budget. -/
def fits (budget : Nat) (held : List (Nat × Nat)) (bytes : Nat) : Bool :=
  held.isEmpty || Word.saturatingAdd u64Values (heldBytes held) bytes ≤ budget

/-- From the head of the line, start each ask that fits, and stop at the first that does not. -/
def advance (budget : Nat) : List (Nat × Nat) → List (Nat × Nat) →
    List (Nat × Nat) × List (Nat × Nat)
  | held, [] => (held, [])
  | held, (ticket, bytes) :: rest =>
    if fits budget held bytes then advance budget (held ++ [(ticket, bytes)]) rest
    else (held, (ticket, bytes) :: rest)

namespace Book

def new (budget : Nat) : Book := { budget, held := [], waiting := [], next := 0 }

def holds (book : Book) (ticket : Nat) : Bool := book.held.any fun entry => entry.1 = ticket

/-- The book with its line advanced. -/
def advanced (book : Book) : Book :=
  let (held, waiting) := advance book.budget book.held book.waiting
  { book with held, waiting }

/-- A new ticket at the back of the line. Answers the ticket, and what stood ahead when it did not
start at once. -/
def ask (book : Book) (bytes : Nat) : (Nat × Option Waited) × Book :=
  let ticket := book.next
  let ahead : Waited :=
    { ahead := book.waiting.length
      heldBytes := heldBytes book.held
      budgetBytes := book.budget }
  let book := advanced
    { book with
      next := wrappingAdd u64Values book.next 1
      waiting := book.waiting ++ [(ticket, bytes)] }
  ((ticket, if book.holds ticket then none else some ahead), book)

/-- The ticket leaves what is held; one that is not held changes nothing. -/
def giveBack (book : Book) (ticket : Nat) : Book :=
  advanced { book with held := book.held.filter fun entry => entry.1 ≠ ticket }

end Book

inductive Op where
  | ask (bytes : Nat)
  | giveBack (ticket : Nat)

def step (book : Book) : Op → Book
  | .ask bytes => (book.ask bytes).2
  | .giveBack ticket => book.giveBack ticket

def asks (ops : List Op) : Nat := ops.countP fun op => op matches .ask _

/-- The tickets held after an operation and not before it, in the order they started. -/
def startedBy (before after : Book) : List Nat :=
  (after.held.map Prod.fst).filter fun ticket => !before.holds ticket

/-- The tickets a run starts, in the order they start. -/
def starts : Book → List Op → List Nat
  | _, [] => []
  | book, op :: rest => startedBy book (step book op) ++ starts (step book op) rest

def exact (held : List (Nat × Nat)) : Nat := (held.map Prod.snd).sum

section Sums

variable (held : List (Nat × Nat))

theorem foldl_saturating {sum : Nat} (low : sum ≤ u64Values - 1) :
    held.foldl (fun sum entry => Word.saturatingAdd u64Values sum entry.2) sum =
      min (sum + exact held) (u64Values - 1) := by
  induction held generalizing sum with
  | nil => simp [exact, low]
  | cons entry rest ih =>
    have next : Word.saturatingAdd u64Values sum entry.2 ≤ u64Values - 1 :=
      Nat.min_le_right _ _
    rw [foldl_cons, ih next]
    simp only [Word.saturatingAdd, exact, map_cons, sum_cons]
    omega

theorem heldBytes_eq : heldBytes held = min (exact held) (u64Values - 1) := by
  rw [heldBytes, foldl_saturating held (Nat.zero_le _), Nat.zero_add]

theorem exact_concat (entry : Nat × Nat) : exact (held ++ [entry]) = exact held + entry.2 := by
  simp [exact]

theorem exact_filter_le (keep : Nat × Nat → Bool) : exact (held.filter keep) ≤ exact held := by
  induction held with
  | nil => exact Nat.le_refl _
  | cons entry rest ih =>
    simp only [exact, filter_cons, map_cons, sum_cons] at ih ⊢
    split
    · simp only [map_cons, sum_cons]
      omega
    · omega

theorem fits_iff {budget : Nat} (small : budget < u64Values - 1) (held : List (Nat × Nat))
    (bytes : Nat) : fits budget held bytes = true ↔ held = [] ∨ exact held + bytes ≤ budget := by
  simp only [fits, Bool.or_eq_true, List.isEmpty_iff, decide_eq_true_eq, Word.saturatingAdd,
    heldBytes_eq]
  refine or_congr_right ?_
  omega

end Sums

/-- The bytes held are within the budget unless one ticket is held alone. -/
def Within (budget : Nat) (held : List (Nat × Nat)) : Prop :=
  exact held ≤ budget ∨ held.length = 1

/-- Somebody holds, and the head of the line does not fit beside it. -/
def Blocked (budget : Nat) (held waiting : List (Nat × Nat)) : Prop :=
  ∀ entry ∈ waiting.head?, held ≠ [] ∧ budget < exact held + entry.2

section Advance

variable {budget : Nat}

theorem advance_spec (small : budget < u64Values - 1) (held waiting : List (Nat × Nat))
    (within : Within budget held) : ∃ started rest, waiting = started ++ rest ∧
      advance budget held waiting = (held ++ started, rest) ∧ Within budget (held ++ started) ∧
        Blocked budget (held ++ started) rest := by
  induction waiting generalizing held with
  | nil =>
    refine ⟨[], [], rfl, ?_, ?_, ?_⟩
    · rw [advance, append_nil]
    · rwa [append_nil]
    · intro entry impossible
      cases impossible
  | cons head rest ih =>
    obtain ⟨ticket, bytes⟩ := head
    by_cases room : fits budget held bytes = true
    · have grown : Within budget (held ++ [(ticket, bytes)]) := by
        rcases (fits_iff small held bytes).mp room with rfl | fits
        · exact .inr rfl
        · exact .inl (by rw [exact_concat]; exact fits)
      obtain ⟨started, left, split, done, after, blocked⟩ := ih (held ++ [(ticket, bytes)]) grown
      refine ⟨(ticket, bytes) :: started, left, by rw [split, cons_append], ?_, ?_, ?_⟩
      · rw [advance, if_pos room, done, append_assoc, singleton_append]
      · rwa [append_assoc, singleton_append] at after
      · rwa [append_assoc, singleton_append] at blocked
    · refine ⟨[], (ticket, bytes) :: rest, rfl, ?_, ?_, ?_⟩
      · rw [advance, if_neg room, append_nil]
      · rwa [append_nil]
      · intro entry first
        cases first
        rw [append_nil]
        rw [fits_iff small, not_or] at room
        exact ⟨room.1, by omega⟩

theorem within_filter {held : List (Nat × Nat)} (within : Within budget held)
    (keep : Nat × Nat → Bool) : Within budget (held.filter keep) := by
  have less := exact_filter_le held keep
  rcases within with low | single
  · exact .inl (by omega)
  · obtain ⟨entry, rfl⟩ := length_eq_one_iff.mp single
    by_cases kept : keep entry = true
    · exact .inr (by rw [filter_cons_of_pos kept]; rfl)
    · exact .inl (by rw [filter_cons_of_neg kept]; exact Nat.zero_le _)

end Advance

/-- What holds of a book after any run of fewer asks than there are tickets: the tickets started and
the ones in line are the ones asked for, in their order. -/
structure Sound (budget asked : Nat) (started : List Nat) (book : Book) : Prop where
  funds : book.budget = budget
  next : book.next = asked
  order : started ++ book.waiting.map Prod.fst = List.range asked
  held : ∀ entry ∈ book.held, entry.1 ∈ started
  once : (book.held.map Prod.fst).Nodup
  within : Within budget book.held
  blocked : Blocked budget book.held book.waiting

section Runs

variable {budget asked : Nat} {started : List Nat} {book : Book}

theorem sound_new : Sound budget 0 [] (.new budget) where
  funds := rfl
  next := rfl
  order := rfl
  held _ impossible := by cases impossible
  once := nodup_nil
  within := .inl (Nat.zero_le _)
  blocked _ impossible := by cases impossible

variable {ticket : Nat}

theorem not_holds_iff : book.holds ticket = false ↔ ticket ∉ book.held.map Prod.fst := by
  rw [Book.holds, any_eq_false, mem_map]
  exact ⟨fun none_ ⟨entry, member, same⟩ => none_ entry member (by simp [same]),
    fun absent entry member same => absent ⟨entry, member, of_decide_eq_true same⟩⟩

theorem sound_advanced (small : budget < u64Values - 1) {before : Book} {book : Book}
    (same : book.budget = budget) (next : book.next = asked)
    (order : started ++ book.waiting.map Prod.fst = List.range asked)
    (held : ∀ entry ∈ book.held, entry.1 ∈ started) (once : (book.held.map Prod.fst).Nodup)
    (within : Within budget book.held) (known : ∀ entry ∈ book.held, before.holds entry.1 = true)
    (fresh : ∀ ticket, before.holds ticket = true → ticket ∈ started) :
    Sound budget asked (started ++ startedBy before book.advanced) book.advanced := by
  obtain ⟨starting, rest, split, done, after, blocked⟩ :=
    advance_spec small book.held book.waiting within
  have advanced : book.advanced = { book with held := book.held ++ starting, waiting := rest } := by
    rw [Book.advanced, same, done]
  have distinct : (started ++ (starting ++ rest).map Prod.fst).Nodup := by
    rw [← split, order]
    exact nodup_range
  rw [map_append, ← append_assoc] at distinct
  have apart := (nodup_append'.mp (nodup_append'.mp distinct).1)
  have begun : startedBy before book.advanced = starting.map Prod.fst := by
    rw [advanced, startedBy, map_append, filter_append]
    have old : (book.held.map Prod.fst).filter (fun ticket => !before.holds ticket) = [] := by
      rw [filter_eq_nil_iff]
      intro ticket member
      obtain ⟨entry, inside, rfl⟩ := mem_map.mp member
      simp [known entry inside]
    have new : (starting.map Prod.fst).filter (fun ticket => !before.holds ticket) =
        starting.map Prod.fst := by
      rw [filter_eq_self]
      intro ticket member
      rw [Bool.not_eq_true', Bool.eq_false_iff]
      exact fun held => apart.2.2 (fresh ticket held) member
    rw [old, new, nil_append]
  rw [begun, advanced]
  refine ⟨same, next, ?_, ?_, ?_, after, blocked⟩
  · rw [← order, split, map_append, append_assoc]
  · intro entry member
    rcases mem_append.mp member with old | new
    · exact mem_append_left _ (held entry old)
    · exact mem_append_right _ (mem_map_of_mem new)
  · rw [map_append, nodup_append']
    refine ⟨once, apart.2.1, ?_⟩
    intro ticket old new
    obtain ⟨entry, inside, rfl⟩ := mem_map.mp old
    exact apart.2.2 (held entry inside) new

theorem Sound.ask (sound : Sound budget asked started book) (small : budget < u64Values - 1)
    (fewer : asked + 1 < u64Values) (bytes : Nat) :
    Sound budget (asked + 1) (started ++ startedBy book (step book (.ask bytes)))
      (step book (.ask bytes)) := by
  have next : wrappingAdd u64Values book.next 1 = asked + 1 := by
    rw [sound.next, wrappingAdd, Nat.mod_eq_of_lt fewer]
  refine sound_advanced small sound.funds next ?_ sound.held sound.once sound.within ?_ ?_
  · rw [map_append, ← append_assoc, sound.order, range_succ, sound.next]
    rfl
  · intro entry member
    exact any_eq_true.mpr ⟨entry, member, by simp⟩
  · intro ticket held
    obtain ⟨entry, member, same⟩ := any_eq_true.mp held
    exact of_decide_eq_true same ▸ sound.held entry member

theorem Sound.giveBack (sound : Sound budget asked started book)
    (small : budget < u64Values - 1) (ticket : Nat) :
    Sound budget asked (started ++ startedBy book (step book (.giveBack ticket)))
      (step book (.giveBack ticket)) := by
  have part : ∀ entry ∈ book.held.filter fun entry => entry.1 ≠ ticket, entry ∈ book.held :=
    fun entry member => mem_of_mem_filter member
  refine sound_advanced small sound.funds sound.next sound.order
    (fun entry member => sound.held entry (part entry member)) ?_ (within_filter sound.within _) ?_ ?_
  · exact sound.once.sublist (filter_sublist.map Prod.fst)
  · intro entry member
    exact any_eq_true.mpr ⟨entry, part entry member, by simp⟩
  · intro other held
    obtain ⟨entry, member, same⟩ := any_eq_true.mp held
    exact of_decide_eq_true same ▸ sound.held entry member

theorem asks_cons (op : Op) (ops : List Op) : asks (op :: ops) = asks [op] + asks ops := by
  simp only [asks, countP_cons, countP_nil]
  omega

variable (sound : Sound budget asked started book)

include sound

theorem Sound.run (small : budget < u64Values - 1)
    {ops : List Op} (fewer : asked + asks ops < u64Values) :
    Sound budget (asked + asks ops) (started ++ starts book ops) (ops.foldl step book) := by
  induction ops generalizing asked started book with
  | nil =>
    rw [starts, append_nil]
    exact sound
  | cons op rest ih =>
    rw [asks_cons] at fewer
    rw [asks_cons, starts, foldl_cons, ← append_assoc, ← Nat.add_assoc]
    cases op with
    | ask bytes =>
      have one : asks [Op.ask bytes] = 1 := rfl
      rw [one] at fewer ⊢
      exact ih (sound.ask small (by omega) bytes) (by omega)
    | giveBack ticket =>
      have none_ : asks [Op.giveBack ticket] = 0 := rfl
      rw [none_] at fewer ⊢
      exact ih (sound.giveBack small ticket) (by omega)

theorem Sound.gone (small : budget < u64Values - 1) (held : book.holds ticket = true) :
    (step book (.giveBack ticket)).holds ticket = false := by
  obtain ⟨entry, member, same⟩ := any_eq_true.mp held
  have begun : ticket ∈ started := of_decide_eq_true same ▸ sound.held entry member
  obtain ⟨starting, rest, split, done, -, -⟩ :=
    advance_spec small (book.held.filter fun entry => entry.1 ≠ ticket) book.waiting
      (within_filter sound.within _)
  have after : (step book (.giveBack ticket)).held =
      book.held.filter (fun entry => entry.1 ≠ ticket) ++ starting := by
    simp only [step, Book.giveBack, Book.advanced, sound.funds, done]
  have distinct : (started ++ (starting ++ rest).map Prod.fst).Nodup := by
    rw [← split, sound.order]
    exact nodup_range
  rw [not_holds_iff, after, map_append, mem_append, not_or]
  constructor
  · intro kept
    obtain ⟨other, inside, named⟩ := mem_map.mp kept
    exact of_decide_eq_true (mem_filter.mp inside).2 named
  · intro new
    rw [map_append] at distinct
    exact (nodup_append'.mp distinct).2.2 begun (mem_append_left _ new)

theorem Sound.started_eq :
    started = List.range started.length := by
  have front := congrArg (List.take started.length) sound.order
  have short : started.length ≤ asked := by
    have sizes := congrArg List.length sound.order
    rw [length_append, length_range] at sizes
    omega
  rw [take_left, take_range, Nat.min_eq_left short] at front
  exact front

end Runs

section Endless

variable {budget : Nat} {ops : Nat → Op}

def upTo (ops : Nat → Op) (count : Nat) : List Op := (List.range count).map ops

def after (budget : Nat) (ops : Nat → Op) (count : Nat) : Book :=
  (upTo ops count).foldl step (.new budget)

def startedAfter (budget : Nat) (ops : Nat → Op) (count : Nat) : List Nat :=
  starts (.new budget) (upTo ops count)

theorem starts_append (book : Book) (first second : List Op) :
    starts book (first ++ second) = starts book first ++ starts (first.foldl step book) second := by
  induction first generalizing book with
  | nil => rfl
  | cons op rest ih => rw [cons_append, starts, starts, ih, append_assoc, foldl_cons]

variable (count : Nat)

theorem upTo_succ : upTo ops (count + 1) = upTo ops count ++ [ops count] := by
  rw [upTo, range_succ, map_append]
  rfl

theorem after_succ : after budget ops (count + 1) = step (after budget ops count) (ops count) := by
  rw [after, upTo_succ, foldl_append]
  rfl

theorem startedAfter_succ :
    startedAfter budget ops (count + 1) = startedAfter budget ops count ++
      startedBy (after budget ops count) (after budget ops (count + 1)) := by
  rw [startedAfter, upTo_succ, starts_append, after_succ]
  simp only [starts, append_nil]
  rfl

theorem sound_after (small : budget < u64Values - 1)
    (fewer : ∀ count, asks (upTo ops count) < u64Values) (count : Nat) :
    Sound budget (asks (upTo ops count)) (startedAfter budget ops count) (after budget ops count) := by
  have all : 0 + asks (upTo ops count) < u64Values := by
    rw [Nat.zero_add]
    exact fewer count
  have run := sound_new.run small all
  rwa [Nat.zero_add, nil_append] at run

theorem length_startedAfter_mono {first second : Nat} (order : first ≤ second) :
    (startedAfter budget ops first).length ≤ (startedAfter budget ops second).length := by
  induction second, order using Nat.le_induction with
  | base => exact Nat.le_refl _
  | succ second _ ih =>
    rw [startedAfter_succ, length_append]
    omega

theorem asks_upTo_mono {first second : Nat} (order : first ≤ second) :
    asks (upTo ops first) ≤ asks (upTo ops second) := by
  induction second, order using Nat.le_induction with
  | base => exact Nat.le_refl _
  | succ second _ ih =>
    refine Nat.le_trans ih ?_
    rw [upTo_succ]
    exact (sublist_append_left _ _).countP_le

theorem holds_of_quiet {first second : Nat} (order : first ≤ second)
    (quiet : (startedAfter budget ops second).length = (startedAfter budget ops first).length) :
    ∀ ticket ∈ (after budget ops second).held.map Prod.fst,
      ticket ∈ (after budget ops first).held.map Prod.fst := by
  induction second, order using Nat.le_induction with
  | base => exact fun _ member => member
  | succ second order ih =>
    intro ticket member
    have grown := @length_startedAfter_mono budget ops _ _ order
    rw [startedAfter_succ, length_append] at quiet
    have none_ : startedBy (after budget ops second) (after budget ops (second + 1)) = [] :=
      length_eq_zero_iff.mp (by omega)
    have known := filter_eq_nil_iff.mp none_ ticket member
    rw [Bool.not_eq_true, Bool.not_eq_false'] at known
    obtain ⟨entry, inside, same⟩ := any_eq_true.mp known
    exact ih (by omega) ticket (mem_map.mpr ⟨entry, inside, of_decide_eq_true same⟩)

section Fair

variable (small : budget < u64Values - 1)
  (fewer : ∀ count, asks (upTo ops count) < u64Values)
  (returned : ∀ count ticket, (after budget ops count).holds ticket = true →
    ∃ later, count ≤ later ∧ ops later = .giveBack ticket)

include small fewer returned

/-- While somebody waits, some ticket starts later: otherwise what is held is given back until nobody
holds. -/
theorem starts_later (size : Nat) {count : Nat}
    (held : (after budget ops count).held.length ≤ size)
    (waits : (startedAfter budget ops count).length < asks (upTo ops count)) :
    ∃ later, (startedAfter budget ops count).length < (startedAfter budget ops later).length := by
  induction size generalizing count with
  | zero =>
    have sound := sound_after small fewer count
    have sizes := congrArg List.length sound.order
    rw [length_append, length_range, length_map] at sizes
    cases line : (after budget ops count).waiting with
    | nil =>
      rw [line, length_nil] at sizes
      omega
    | cons head rest =>
      have blocked := sound.blocked head (by rw [line]; rfl)
      exact absurd (length_eq_zero_iff.mp (Nat.le_zero.mp held)) blocked.1
  | succ size ih =>
    by_cases empty : (after budget ops count).held.length ≤ size
    · exact ih empty waits
    · obtain ⟨entry, others, first⟩ := exists_cons_of_length_pos (by omega :
        0 < (after budget ops count).held.length)
      have holding : (after budget ops count).holds entry.1 = true := by
        rw [Book.holds, first, any_cons]
        simp
      obtain ⟨later, order, given⟩ := returned count entry.1 holding
      by_cases more : (startedAfter budget ops count).length <
          (startedAfter budget ops (later + 1)).length
      · exact ⟨later + 1, more⟩
      · have quiet : (startedAfter budget ops (later + 1)).length =
            (startedAfter budget ops count).length :=
          Nat.le_antisymm (Nat.le_of_not_lt more) (length_startedAfter_mono (by omega))
        have still : (startedAfter budget ops later).length =
            (startedAfter budget ops count).length := by
          have low := @length_startedAfter_mono budget ops _ _ order
          have high := @length_startedAfter_mono budget ops _ _ (Nat.le_add_right later 1)
          omega
        have gone : entry.1 ∉ (after budget ops (later + 1)).held.map Prod.fst := by
          intro member
          have before := holds_of_quiet (Nat.le_add_right later 1) (by omega) _ member
          obtain ⟨same, inside, named⟩ := mem_map.mp before
          have holds : (after budget ops later).holds entry.1 = true :=
            any_eq_true.mpr ⟨same, inside, decide_eq_true named⟩
          have left := (sound_after small fewer later).gone small holds
          rw [← given, ← after_succ] at left
          exact not_holds_iff.mp left member
        have inside := holds_of_quiet (by omega : count ≤ later + 1) quiet
        have once := (sound_after small fewer (later + 1)).once
        have shrunk : ((after budget ops (later + 1)).held.map Prod.fst) ⊆
            others.map Prod.fst := by
          intro ticket member
          have old := inside ticket member
          rw [first, map_cons, mem_cons] at old
          exact old.resolve_left fun same => gone (same ▸ member)
        have fewerHeld := (once.subperm shrunk).length_le
        rw [length_map, length_map] at fewerHeld
        have size_ : others.length ≤ size := by
          rw [first, length_cons] at held
          omega
        have asked := @asks_upTo_mono ops _ _ (by omega : count ≤ later + 1)
        obtain ⟨last, started⟩ := @ih (later + 1) (by omega) (by omega)
        exact ⟨last, by omega⟩

theorem reaches (count ticket : Nat) (asked : ticket ≤ asks (upTo ops count)) :
    ∃ later, count ≤ later ∧ ticket ≤ (startedAfter budget ops later).length := by
  induction ticket with
  | zero => exact ⟨count, Nat.le_refl _, Nat.zero_le _⟩
  | succ ticket ih =>
    obtain ⟨middle, order, enough⟩ := ih (by omega)
    by_cases more : ticket < (startedAfter budget ops middle).length
    · exact ⟨middle, order, more⟩
    · have grown := @asks_upTo_mono ops _ _ order
      obtain ⟨last, started⟩ := starts_later small fewer returned _ (Nat.le_refl _)
        (by omega : (startedAfter budget ops middle).length < asks (upTo ops middle))
      have last_ := @length_startedAfter_mono budget ops last (max last middle) (Nat.le_max_left _ _)
      exact ⟨max last middle, by omega, by omega⟩

end Fair

end Endless

/-- Over any run of fewer asks than there are tickets, the bytes held are within the budget unless
one ticket is held alone, tickets start in the order they asked, and the line waits only behind a
holder its head does not fit beside; and over any endless run where each held ticket is given back
some time, each ask is started. -/
theorem reservations {budget : Nat} (small : budget < u64Values - 1) :
    (∀ ops, asks ops < u64Values →
      let book := ops.foldl step (.new budget)
      Within budget book.held ∧
        starts (.new budget) ops ++ book.waiting.map Prod.fst = List.range (asks ops) ∧
        Blocked budget book.held book.waiting) ∧
    ∀ ops, (∀ count, asks (upTo ops count) < u64Values) →
      (∀ count ticket, (after budget ops count).holds ticket = true →
        ∃ later, count ≤ later ∧ ops later = .giveBack ticket) →
      ∀ count, ∀ ticket < asks (upTo ops count), ∃ later, ticket ∈ startedAfter budget ops later := by
  constructor
  · intro ops fewer
    have all : 0 + asks ops < u64Values := by
      rw [Nat.zero_add]
      exact fewer
    have sound := sound_new.run small all
    rw [Nat.zero_add, nil_append] at sound
    exact ⟨sound.within, sound.order, sound.blocked⟩
  · intro ops fewer returned count ticket asked
    obtain ⟨later, -, enough⟩ := reaches small fewer returned count (ticket + 1) asked
    refine ⟨later, ?_⟩
    rw [(sound_after small fewer later).started_eq]
    exact mem_range.mpr enough

/-- One ask larger than the budget, given back again and again. -/
def askedOnce : Nat → Op
  | 0 => .ask 150
  | _ + 1 => .giveBack 0

/-- Two asks that do not fit together and a third behind them, then tickets given back. -/
def behindEachOther : List Op := [.ask 60, .ask 70, .ask 5, .giveBack 2, .giveBack 0]

theorem reservations_askedOnce :
    (Within 100 (behindEachOther.foldl step (.new 100)).held ∧
      starts (.new 100) behindEachOther ++
        (behindEachOther.foldl step (.new 100)).waiting.map Prod.fst = List.range 3 ∧
      Blocked 100 (behindEachOther.foldl step (.new 100)).held
        (behindEachOther.foldl step (.new 100)).waiting) ∧
    ∃ later, 0 ∈ startedAfter 100 askedOnce later := by
  have asked : ∀ count, asks (upTo askedOnce count) ≤ 1 := by
    intro count
    induction count with
    | zero => decide
    | succ count ih =>
      cases count with
      | zero => decide
      | succ count =>
        rw [upTo_succ, asks, countP_append]
        exact ih
  have fewer : ∀ count, asks (upTo askedOnce count) < u64Values :=
    fun count => Nat.lt_of_le_of_lt (asked count) (by decide)
  have small : 100 < u64Values - 1 := by decide
  refine ⟨(reservations small).1 behindEachOther (by decide), (reservations small).2 askedOnce fewer ?_ 1 0 (by decide)⟩
  intro count ticket held
  obtain ⟨entry, member, same⟩ := any_eq_true.mp held
  have sound := sound_after small fewer count
  have first := sound.held entry member
  rw [sound.started_eq, mem_range] at first
  have sizes := congrArg List.length sound.order
  rw [length_append, length_range] at sizes
  have most := asked count
  have zero : ticket = 0 := by
    have named := of_decide_eq_true same
    omega
  exact ⟨count + 1, Nat.le_succ count, by rw [zero]; rfl⟩

end Reserve

end Sprawling
