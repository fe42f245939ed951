import Sprawling.Gateway.Book

/-! Which account a room's session goes on with, told from the stream of records alone, and that the
book keeps exactly that. -/

namespace Sprawling.EndpointBook

open List Since

variable {δ π ρ μ : Type} {reads : Readers δ π ρ μ}

namespace Record

/-- The record starts the run in the room. -/
def Starts (run : RunId) (room : Address) (record : Record δ) : Prop :=
  record.kind = .runStarted ∧ record.run = run ∧ record.addr = some room

def Opens (room : Address) (record : Record δ) : Prop :=
  record.kind = .sessionOpened ∧ record.addr = some room

def Freezes (run : RunId) (record : Record δ) : Prop :=
  record.kind = .runFrozen ∧ record.run = run

def Calls (run : RunId) (record : Record δ) : Prop :=
  record.kind = .modelCalled ∧ record.run = run

/-- The record is a call of the run that names a provider and an account of it. -/
def Names (reads : Readers δ π ρ μ) (run : RunId) (binding : ProviderAccountBinding)
    (record : Record δ) : Prop :=
  record.Calls run ∧ reads.called record.data = .ok (some binding)

def Returns (run : RunId) (record : Record δ) : Prop :=
  record.kind = .modelReturned ∧ record.run = run

def Loses (reads : Readers δ π ρ μ) (provider : List Char) (record : Record δ) : Prop :=
  record.kind = .endpointLost ∧ reads.lost record.data = .ok provider

end Record

/-! ### What the stream says -/

/-- A `ModelReturned` that binds an account to a room: its run started in the room after the room's
last `SessionOpened` and was not frozen since, the latest call of the run since it started named the
provider and the account and was not answered before, and no `EndpointLost` of the provider follows. -/
def Qualifies (reads : Readers δ π ρ μ) (room : Address) (binding : ProviderAccountBinding)
    (before : List (Record δ)) (returned : Record δ) (after : List (Record δ)) : Prop :=
  ∃ earlier started between called pending,
    before = earlier ++ started :: (between ++ called :: pending) ∧
    returned.kind = .modelReturned ∧
    started.Starts returned.run room ∧
    (∀ record ∈ between ++ called :: (pending ++ returned :: after), ¬record.Opens room) ∧
    (∀ record ∈ between ++ called :: pending, ¬record.Freezes returned.run) ∧
    called.Names reads returned.run binding ∧
    (∀ record ∈ pending, ¬record.Calls returned.run ∧ ¬record.Returns returned.run) ∧
    ∀ record ∈ after, ¬record.Loses reads binding.provider

/-- The last `ModelReturned` that binds an account of the provider to the room binds this one. -/
def LastAnswered (reads : Readers δ π ρ μ) (room : Address) (binding : ProviderAccountBinding)
    (records : List (Record δ)) : Prop :=
  ∃ before returned after, records = before ++ returned :: after ∧
    Qualifies reads room binding before returned after ∧
    ∀ mid later rest, after = mid ++ later :: rest →
      ∀ account, ¬Qualifies reads room ⟨binding.provider, account⟩ (before ++ returned :: mid) later rest

/-! ### The same, record by record -/

/-- The run is one of the room's current session. -/
def Member (run : RunId) (room : Address) : List (Record δ) → Prop :=
  Since (fun _ record => record.Starts run room)
    fun _ record => ¬record.Opens room ∧ ¬record.Freezes run

/-- The run waits for the answer to a call of an account. -/
def Pending (reads : Readers δ π ρ μ) (run : RunId) (room : Address)
    (binding : ProviderAccountBinding) : List (Record δ) → Prop :=
  Since (fun history record => record.Names reads run binding ∧ Member run room history)
    fun _ record => ¬record.Opens room ∧ ¬record.Freezes run ∧ ¬record.Calls run ∧
      ¬record.Returns run

/-- The answer a run waits for comes. -/
def Answers (reads : Readers δ π ρ μ) (room : Address) (binding : ProviderAccountBinding)
    (history : List (Record δ)) (record : Record δ) : Prop :=
  record.kind = .modelReturned ∧ Pending reads record.run room binding history

/-- The room's session goes on with the account. -/
def Bound (reads : Readers δ π ρ μ) (room : Address) (binding : ProviderAccountBinding) :
    List (Record δ) → Prop :=
  Since (Answers reads room binding) fun history record =>
    ¬record.Opens room ∧ ¬record.Loses reads binding.provider ∧
      ∀ account, ¬Answers reads room ⟨binding.provider, account⟩ history record

theorem quiet_iff {quiet : Record δ → Prop} {after : List (Record δ)} :
    (∀ mid later rest, after = mid ++ later :: rest → quiet later) ↔ ∀ record ∈ after, quiet record := by
  constructor
  · intro every record member
    obtain ⟨mid, rest, joined⟩ := append_of_mem member
    exact every mid record rest joined
  · rintro every mid later rest rfl
    exact every later (mem_append_right _ mem_cons_self)

variable {run : RunId} {room : Address} {history : List (Record δ)}

theorem member_iff :
    Member run room history ↔ ∃ earlier started since, history = earlier ++ started :: since ∧
      started.Starts run room ∧ ∀ record ∈ since, ¬record.Opens room ∧ ¬record.Freezes run := by
  simp only [Member, Since, quiet_iff]

variable {binding : ProviderAccountBinding}

theorem pending_iff :
    Pending reads run room binding history ↔ ∃ before called pending,
      history = before ++ called :: pending ∧
      (called.Names reads run binding ∧ Member run room before) ∧
      ∀ record ∈ pending, ¬record.Opens room ∧ ¬record.Freezes run ∧ ¬record.Calls run ∧
        ¬record.Returns run := by
  simp only [Pending, Since, quiet_iff]

variable {record : Record δ}

theorem Record.not_opens (other : record.kind ≠ .sessionOpened) :
    ¬record.Opens room := fun opens => other opens.1

theorem Record.not_freezes (other : record.kind ≠ .runFrozen) :
    ¬record.Freezes run := fun freezes => other freezes.1

theorem Record.Names.kind_eq (names : record.Names reads run binding) :
    record.kind = .modelCalled := names.1.1

variable {before : List (Record δ)} {returned : Record δ}

theorem qualifies_iff {after : List (Record δ)} :
    Qualifies reads room binding before returned after ↔
      Answers reads room binding before returned ∧
        ∀ record ∈ after, ¬record.Opens room ∧ ¬record.Loses reads binding.provider := by
  constructor
  · rintro ⟨earlier, started, between, called, pending, rfl, answer, starts, unopened, unfrozen, names,
      unanswered, unlost⟩
    constructor
    · refine ⟨answer, (pending_iff).mpr ⟨earlier ++ started :: between, called, pending, by simp,
        ⟨names, (member_iff).mpr ⟨earlier, started, between, rfl, starts, ?_⟩⟩, ?_⟩⟩
      · intro record member
        exact ⟨unopened record (by simp [member]), unfrozen record (by simp [member])⟩
      · intro record member
        exact ⟨unopened record (by simp [member]), unfrozen record (by simp [member]),
          unanswered record member⟩
    · intro record member
      exact ⟨unopened record (by simp [member]), unlost record member⟩
  · rintro ⟨⟨answer, waits⟩, later⟩
    obtain ⟨history, called, pending, rfl, ⟨names, joined⟩, calm⟩ := (pending_iff).mp waits
    obtain ⟨earlier, started, between, rfl, starts, since⟩ := (member_iff).mp joined
    have called_kind := names.kind_eq
    refine ⟨earlier, started, between, called, pending, by simp, answer, starts, ?_, ?_, names,
      fun record member => (calm record member).2.2, fun record member => (later record member).2⟩
    · intro record member
      simp only [mem_append, mem_cons] at member
      rcases member with early | rfl | waiting | rfl | late
      · exact (since record early).1
      · exact Record.not_opens (by simp [called_kind])
      · exact (calm record waiting).1
      · exact Record.not_opens (by simp [answer])
      · exact (later record late).1
    · intro record member
      simp only [mem_append, mem_cons] at member
      rcases member with early | rfl | waiting
      · exact (since record early).2
      · exact Record.not_freezes (by simp [called_kind])
      · exact (calm record waiting).2.1

variable {records : List (Record δ)}

theorem lastAnswered_iff :
    LastAnswered reads room binding records ↔ Bound reads room binding records := by
  constructor
  · rintro ⟨before, returned, after, rfl, qualifies, last⟩
    obtain ⟨answers, calm⟩ := (qualifies_iff).mp qualifies
    refine ⟨before, returned, after, rfl, answers, ?_⟩
    rintro mid later rest rfl
    obtain ⟨unopened, unlost⟩ := calm later (by simp)
    refine ⟨unopened, unlost, fun account again => last mid later rest rfl account ?_⟩
    exact (qualifies_iff).mpr ⟨again, fun record member => calm record (by simp [member])⟩
  · rintro ⟨before, returned, after, rfl, answers, quiet⟩
    have calm : ∀ record ∈ after, ¬record.Opens room ∧ ¬record.Loses reads binding.provider := by
      intro record member
      obtain ⟨mid, rest, rfl⟩ := append_of_mem member
      have known := quiet mid record rest rfl
      exact ⟨known.1, known.2.1⟩
    refine ⟨before, returned, after, rfl, (qualifies_iff).mpr ⟨answers, calm⟩, ?_⟩
    intro mid later rest joined account again
    exact (quiet mid later rest joined).2.2 account (qualifies_iff.mp again).1

/-! ### The book keeps it -/

theorem member_concat :
    Member run room (history ++ [record]) ↔ record.Starts run room ∨
      Member run room history ∧ ¬record.Opens room ∧ ¬record.Freezes run := concat_iff

theorem pending_concat :
    Pending reads run room binding (history ++ [record]) ↔
      (record.Names reads run binding ∧ Member run room history) ∨
      Pending reads run room binding history ∧ ¬record.Opens room ∧ ¬record.Freezes run ∧
        ¬record.Calls run ∧ ¬record.Returns run := concat_iff

theorem bound_concat :
    Bound reads room binding (history ++ [record]) ↔ Answers reads room binding history record ∨
      Bound reads room binding history ∧ ¬record.Opens room ∧
        ¬record.Loses reads binding.provider ∧
        ∀ account, ¬Answers reads room ⟨binding.provider, account⟩ history record :=
  concat_iff

theorem Member.started (member : Member run room history) :
    ∃ record ∈ history, record.kind = .runStarted ∧ record.run = run := by
  obtain ⟨earlier, started, since, rfl, starts, -⟩ := (member_iff).mp member
  exact ⟨started, by simp, starts.1, starts.2.1⟩

theorem Pending.member (waits : Pending reads run room binding history) :
    Member run room history := by
  obtain ⟨before, called, pending, rfl, ⟨names, joined⟩, calm⟩ := (pending_iff).mp waits
  obtain ⟨earlier, started, between, rfl, starts, since⟩ := (member_iff).mp joined
  have called_kind := names.kind_eq
  refine (member_iff).mpr ⟨earlier, started, between ++ called :: pending, by simp, starts, ?_⟩
  intro record member
  simp only [mem_append, mem_cons] at member
  rcases member with early | rfl | waiting
  · exact since record early
  · exact ⟨Record.not_opens (by simp [called_kind]), Record.not_freezes (by simp [called_kind])⟩
  · exact ⟨(calm record waiting).1, (calm record waiting).2.1⟩

/-- The book's maps are what the stream says. -/
structure Holds (reads : Readers δ π ρ μ) (records : List (Record δ)) (book : EndpointBook π ρ μ) :
    Prop where
  rooms : ∀ run room, book.sessionRooms[run]? = some room ↔ Member run room records
  attempts : ∀ run binding, book.attempts[run]? = some binding ↔
    ∃ room, Pending reads run room binding records
  affinity : ∀ room binding, book.sessionAccount room binding.provider = some binding.account ↔
    Bound reads room binding records

theorem holds_new : Holds reads [] (new : EndpointBook π ρ μ) where
  rooms run room := iff_of_false (by simp [new]) not_nil
  attempts run binding := iff_of_false (by simp [new]) fun ⟨_, waits⟩ => not_nil waits
  affinity room binding := iff_of_false (by simp [new, sessionAccount]) not_nil

variable {after book : EndpointBook π ρ μ}

theorem holds_still (holds : Holds reads records book)
    (starts : ∀ run room, ¬record.Starts run room) (opens : ∀ room, ¬record.Opens room)
    (freezes : ∀ run, ¬record.Freezes run) (calls : ∀ run, ¬record.Calls run)
    (returns : record.kind ≠ .modelReturned) (loses : ∀ provider, ¬record.Loses reads provider)
    (rooms : after.sessionRooms = book.sessionRooms) (attempts : after.attempts = book.attempts)
    (affinity : after.affinity = book.affinity) : Holds reads (records ++ [record]) after where
  rooms run room := by
    rw [rooms, holds.rooms, member_concat]
    simp only [starts, opens, freezes, false_or, not_false_eq_true, and_self, and_true]
  attempts run binding := by
    have answered : ¬record.Returns run := fun returned => returns returned.1
    have named : ¬record.Names reads run binding := fun names => calls run names.1
    rw [attempts, holds.attempts]
    simp only [pending_concat, opens, freezes, calls, answered, named, false_and, false_or,
      not_false_eq_true, and_self, and_true]
  affinity room binding := by
    have unanswered : ∀ other, ¬Answers reads room other records record :=
      fun other answers => returns answers.1
    have same : after.sessionAccount room binding.provider =
        book.sessionAccount room binding.provider := by
      rw [sessionAccount, affinity]
      rfl
    rw [same, holds.affinity]
    simp only [bound_concat, unanswered, opens, loses, false_or, not_false_eq_true, and_self,
      and_true, implies_true]

theorem holds_passed (holds : Holds reads records book)
    (other : record.kind ∉ ([.runStarted, .sessionOpened, .runFrozen, .modelCalled, .modelReturned, .endpointLost] : List EventKind))
    (rooms : after.sessionRooms = book.sessionRooms) (attempts : after.attempts = book.attempts)
    (affinity : after.affinity = book.affinity) : Holds reads (records ++ [record]) after := by
  simp only [mem_cons, not_mem_nil, or_false, not_or] at other
  obtain ⟨started, opened, frozen, called, returned, lost⟩ := other
  exact holds_still holds (fun _ _ it => started it.1) (fun _ it => opened it.1)
    (fun _ it => frozen it.1) (fun _ it => called it.1) returned (fun _ it => lost it.1) rooms
    attempts affinity

theorem holds_nowhere (holds : Holds reads records book) (nowhere : record.addr = none)
    (kind : record.kind = .runStarted ∨ record.kind = .sessionOpened) :
    Holds reads (records ++ [record]) book := by
  have unplaced : ∀ room, record.addr ≠ some room := by
    intro room placed
    rw [nowhere] at placed
    cases placed
  have other : ∀ {found : EventKind}, found ≠ .runStarted → found ≠ .sessionOpened →
      record.kind ≠ found := by
    rintro found first second rfl
    exact kind.elim first second
  exact holds_still holds (fun _ room it => unplaced room it.2.2) (fun room it => unplaced room it.2)
    (fun _ it => other (by decide) (by decide) it.1) (fun _ it => other (by decide) (by decide) it.1)
    (other (by decide) (by decide)) (fun _ it => other (by decide) (by decide) it.1) rfl rfl rfl

section Moves

attribute [local simp] Record.Starts Record.Opens Record.Freezes Record.Calls Record.Names Record.Returns Record.Loses
  Answers member_concat pending_concat bound_concat

variable {addr : Address} (holds : Holds reads records book)

include holds

theorem holds_started (kind : record.kind = .runStarted)
    (placed : record.addr = some addr)
    (fresh : ∀ earlier ∈ records, earlier.kind = .runStarted → earlier.run ≠ record.run) :
    Holds reads (records ++ [record])
      { book with sessionRooms := book.sessionRooms.insert record.run addr } where
  rooms run room := by
    rw [OrdMap.get_insert, member_concat]
    by_cases same : record.run = run
    · have absent : ¬Member run room records := by
        intro member
        obtain ⟨earlier, inside, earlier_kind, earlier_run⟩ := member.started
        exact fresh earlier inside earlier_kind (earlier_run.trans same.symm)
      simp [kind, same, placed, absent]
    · simp [kind, same, holds.rooms]
  attempts run binding := by
    simp [holds.attempts, kind]
  affinity room binding := by
    have kept := holds.affinity room binding
    simp only [sessionAccount] at kept ⊢
    simp [kept, kind]

theorem holds_called (kind : record.kind = .modelCalled)
    {called : Option ProviderAccountBinding} (read : reads.called record.data = .ok called)
    {attempts : OrdMap RunId ProviderAccountBinding}
    (moved : ∀ run, attempts[run]? = if record.run = run ∧ record.run ∈ book.sessionRooms then called else book.attempts[run]?) :
    Holds reads (records ++ [record]) { book with attempts } where
  rooms run room := by
    simp [holds.rooms, kind]
  attempts run binding := by
    show attempts[run]? = some binding ↔ _
    rw [moved]
    have joined : record.run ∈ book.sessionRooms ↔ ∃ room, Member record.run room records := by
      rw [OrdMap.mem_iff_get]
      simp only [holds.rooms]
    by_cases same : record.run = run
    · subst same
      by_cases member : record.run ∈ book.sessionRooms
      · have some_room := joined.mp member
        simp [member, kind, read, some_room]
      · have no_room : ∀ room, ¬Member record.run room records :=
          fun room inside => member (joined.mpr ⟨room, inside⟩)
        have idle : ∀ room, ¬Pending reads record.run room binding records :=
          fun room waits => no_room room waits.member
        simp [member, holds.attempts, no_room, idle]
    · simp [same, holds.attempts, kind]
  affinity room binding := by
    have kept := holds.affinity room binding
    simp only [sessionAccount] at kept ⊢
    simp [kept, kind]

theorem holds_frozen (kind : record.kind = .runFrozen) :
    Holds reads (records ++ [record]) { book with
      attempts := book.attempts.erase record.run
      sessionRooms := book.sessionRooms.erase record.run } where
  rooms run room := by
    by_cases same : record.run = run <;>
      simp [same, holds.rooms, kind]
  attempts run binding := by
    by_cases same : record.run = run <;>
      simp [same, holds.attempts, kind]
  affinity room binding := by
    have kept := holds.affinity room binding
    simp only [sessionAccount] at kept ⊢
    simp [kept, kind]

theorem holds_returned (kind : record.kind = .modelReturned)
    (room_is : book.sessionRooms[record.run]? = some addr) {held : ProviderAccountBinding}
    (held_is : book.attempts[record.run]? = some held) :
    Holds reads (records ++ [record]) { book with
      attempts := book.attempts.erase record.run
      affinity := book.affinity.insert addr
        (((book.affinity[addr]?).getD ∅).insert held.provider held.account) } where
  rooms run room := by
    simp [holds.rooms, kind]
  attempts run binding := by
    by_cases same : record.run = run <;>
      simp [same, holds.attempts, kind]
  affinity room binding := by
    have answers : ∀ room binding, Answers reads room binding records record ↔
        addr = room ∧ held = binding := by
      intro room binding
      constructor
      · rintro ⟨-, waits⟩
        have of_room := (holds.rooms record.run room).mpr waits.member
        have of_run := (holds.attempts record.run binding).mpr ⟨room, waits⟩
        rw [room_is] at of_room
        rw [held_is] at of_run
        exact ⟨Option.some.inj of_room, Option.some.inj of_run⟩
      · rintro ⟨rfl, rfl⟩
        obtain ⟨room, waits⟩ := (holds.attempts record.run held).mp held_is
        have of_room := (holds.rooms record.run room).mpr waits.member
        rw [room_is] at of_room
        cases of_room
        exact ⟨kind, waits⟩
    have kept := holds.affinity room binding
    simp only [sessionAccount] at kept ⊢
    simp only [bound_concat, answers, Record.Opens, Record.Loses, kind, reduceCtorEq, false_and,
      not_false_eq_true, true_and, OrdMap.get_insert, ← kept]
    by_cases here : addr = room
    · subst here
      by_cases listed : held.provider = binding.provider
      · obtain ⟨provider, account⟩ := binding
        obtain ⟨held_provider, held_account⟩ := held
        cases listed
        simp
      · have other : held ≠ binding := fun same => listed (by rw [same])
        have apart : ∀ account, held ≠ ⟨binding.provider, account⟩ :=
          fun account same => listed (by rw [same])
        cases book.affinity[addr]? <;> simp [listed, other, apart]
    · simp [here]

theorem holds_unasked (kind : record.kind = .modelReturned)
    (unasked : ∀ room binding, ¬Pending reads record.run room binding records) :
    Holds reads (records ++ [record]) book where
  rooms run room := by
    simp [holds.rooms, kind]
  attempts run binding := by
    by_cases same : record.run = run
    · subst same
      simp [holds.attempts, unasked, kind]
    · simp [same, holds.attempts, kind]
  affinity room binding := by
    simp [holds.affinity, unasked, kind]

theorem holds_opened (kind : record.kind = .sessionOpened)
    (placed : record.addr = some addr) :
    Holds reads (records ++ [record]) { book with
      affinity := book.affinity.erase addr
      attempts := book.attempts.filter fun run _ => book.sessionRooms[run]? != some addr
      sessionRooms := book.sessionRooms.filter fun _ room => room != addr } where
  rooms run room := by
    simp only [Std.ExtTreeMap.getElem?_filter', Option.filter_eq_some_iff, holds.rooms,
      member_concat, Record.Starts, Record.Opens, Record.Freezes, kind, placed]
    simp only [bne_iff_ne, ne_eq, reduceCtorEq, false_and, false_or, not_false_eq_true, and_true,
      true_and, Option.some.injEq]
    exact and_congr_right fun _ => not_congr eq_comm
  attempts run binding := by
    simp only [Std.ExtTreeMap.getElem?_filter', Option.filter_eq_some_iff, holds.attempts,
      pending_concat, Record.Names, Record.Calls, Record.Opens, Record.Freezes, Record.Returns,
      kind, placed]
    simp only [bne_iff_ne, ne_eq, reduceCtorEq, false_and, false_or, not_false_eq_true, and_true,
      true_and, Option.some.injEq]
    constructor
    · rintro ⟨⟨room, waits⟩, other⟩
      refine ⟨room, waits, ?_⟩
      rintro rfl
      exact other ((holds.rooms run addr).mpr waits.member)
    · rintro ⟨room, waits, other⟩
      refine ⟨⟨room, waits⟩, ?_⟩
      rw [(holds.rooms run room).mpr waits.member]
      exact fun same => other (Option.some.inj same).symm
  affinity room binding := by
    have kept := holds.affinity room binding
    simp only [sessionAccount] at kept ⊢
    by_cases here : addr = room <;>
      simp [here, kept, kind, placed]

omit holds

theorem get_erase_of_isEmpty {bindings : OrdMap (List Char) ServerLabel} {name : List Char}
    (provider : List Char) :
    (if (bindings.erase name).isEmpty then none else some (bindings.erase name)).bind
      (fun left => left[provider]?) = (bindings.erase name)[provider]? := by
  split
  · next empty =>
      rw [Std.ExtTreeMap.isEmpty_iff.mp empty]
      simp
  · rfl

theorem holds_lost (holds : Holds reads records book) (kind : record.kind = .endpointLost)
    {name : List Char} (read : reads.lost record.data = .ok name)
    (rooms : after.sessionRooms = book.sessionRooms) (attempts : after.attempts = book.attempts)
    (affinity : after.affinity = book.affinity.filterMap fun _ bindings => if (bindings.erase name).isEmpty then none else some (bindings.erase name)) :
    Holds reads (records ++ [record]) after where
  rooms run room := by
    simp [rooms, holds.rooms, kind]
  attempts run binding := by
    simp [attempts, holds.attempts, kind]
  affinity room binding := by
    have kept := holds.affinity room binding
    have moved : after.sessionAccount room binding.provider =
        (book.affinity[room]?).bind fun bindings => (bindings.erase name)[binding.provider]? := by
      rw [sessionAccount, affinity, Std.ExtTreeMap.getElem?_filterMap']
      cases book.affinity[room]? with
      | none => rfl
      | some bindings => exact get_erase_of_isEmpty binding.provider
    rw [moved]
    simp only [sessionAccount] at kept
    by_cases lost : name = binding.provider
    · cases book.affinity[room]? <;>
        simp [lost, kind, read]
    · simp [lost, kept, kind, read]

end Moves

theorem holds_absorb (holds : Holds reads records book)
    (fresh : record.kind = .runStarted → ∀ earlier ∈ records, earlier.kind = .runStarted → earlier.run ≠ record.run)
    (done : absorb reads book record = .ok after) : Holds reads (records ++ [record]) after := by
  unfold absorb at done
  split at done
  · next kind =>
      obtain ⟨attached, -, made⟩ := Outcome.bind_eq_ok.mp done
      cases made
      exact holds_passed holds (by rw [kind]; decide) rfl rfl rfl
  · next kind =>
      obtain ⟨name, read, made⟩ := Outcome.bind_eq_ok.mp done
      cases made
      exact holds_lost holds kind read rfl rfl rfl
  · next kind =>
      obtain ⟨⟨tag, choice⟩, -, made⟩ := Outcome.bind_eq_ok.mp done
      cases made
      exact holds_passed holds (by rw [kind]; decide) rfl rfl rfl
  · next kind =>
      cases placed : record.addr with
      | none =>
        rw [placed] at done
        cases done
        exact holds_nowhere holds placed (.inl kind)
      | some addr =>
        rw [placed] at done
        cases done
        exact holds_started holds kind placed (fresh kind)
  · next kind =>
      obtain ⟨called, read, made⟩ := Outcome.bind_eq_ok.mp done
      by_cases member : record.run ∈ book.sessionRooms
      · rw [if_pos member] at made
        cases called with
        | none =>
          cases made
          refine holds_called holds kind read fun run => ?_
          rw [OrdMap.get_erase]
          exact if_congr (iff_of_eq (by simp [member])) rfl rfl
        | some binding =>
          cases made
          refine holds_called holds kind read fun run => ?_
          rw [OrdMap.get_insert]
          exact if_congr (iff_of_eq (by simp [member])) rfl rfl
      · rw [if_neg member] at made
        cases made
        exact holds_called holds kind read fun run => by simp [member]
  · next kind =>
      cases room_is : book.sessionRooms[record.run]? with
      | none =>
        rw [room_is] at done
        cases done
        refine holds_unasked holds kind fun room binding waits => ?_
        have joined := (holds.rooms record.run room).mpr waits.member
        rw [room_is] at joined
        cases joined
      | some addr =>
        cases held_is : book.attempts[record.run]? with
        | none =>
          rw [room_is, held_is] at done
          cases done
          refine holds_unasked holds kind fun room binding waits => ?_
          have asked := (holds.attempts record.run binding).mpr ⟨room, waits⟩
          rw [held_is] at asked
          cases asked
        | some held =>
          rw [room_is, held_is] at done
          cases done
          exact holds_returned holds kind room_is held_is
  · next kind =>
      cases placed : record.addr with
      | none =>
        rw [placed] at done
        cases done
        exact holds_nowhere holds placed (.inr kind)
      | some addr =>
        rw [placed] at done
        cases done
        exact holds_opened holds kind placed
  · next kind =>
      cases done
      exact holds_frozen holds kind
  · next attached lost selected started called returned opened frozen =>
      cases done
      refine holds_passed holds ?_ rfl rfl rfl
      simp only [mem_cons, not_mem_nil, or_false, not_or]
      exact ⟨started, opened, frozen, called, returned, lost⟩

/-- No run is started twice. -/
def DistinctRuns (records : List (Record δ)) : Prop :=
  ((records.filter fun record => record.kind = .runStarted).map Record.run).Nodup

theorem distinctRuns_concat (distinct : DistinctRuns (records ++ [record])) :
    DistinctRuns records ∧ (record.kind = .runStarted →
      ∀ earlier ∈ records, earlier.kind = .runStarted → earlier.run ≠ record.run) := by
  unfold DistinctRuns at *
  rw [filter_append, map_append, nodup_append] at distinct
  refine ⟨distinct.1, fun kind earlier member earlier_kind => distinct.2.2 _ ?_ _ ?_⟩
  · exact mem_map_of_mem (mem_filter.mpr ⟨member, decide_eq_true earlier_kind⟩)
  · simp [kind]

theorem holds_absorbAll (distinct : DistinctRuns records)
    (absorbed : absorbAll reads new records = .ok book) : Holds reads records book := by
  have turn : ∀ done record held after, (DistinctRuns done → Holds reads done held) →
      absorb reads held record = .ok after →
        DistinctRuns (done ++ [record]) → Holds reads (done ++ [record]) after := by
    intro done record held after holds step distinct
    obtain ⟨earlier, fresh⟩ := distinctRuns_concat distinct
    exact holds_absorb (holds earlier) fresh step
  exact @Outcome.foldlM_holds _ _ _ (absorb reads)
    (fun done held => DistinctRuns done → Holds reads done held) [] _ _ _ (fun _ => holds_new) turn
    absorbed distinct

/-! ### What it answers -/

theorem LastAnswered.exists_qualifies (last : LastAnswered reads room binding records) :
    ∃ before returned after, records = before ++ returned :: after ∧
      Qualifies reads room binding before returned after := by
  obtain ⟨before, returned, after, joined, qualifies, -⟩ := last
  exact ⟨before, returned, after, joined, qualifies⟩

theorem Qualifies.exists_bound {after : List (Record δ)}
    (qualifies : Qualifies reads room binding before returned after) :
    ∃ account, Bound reads room ⟨binding.provider, account⟩ (before ++ returned :: after) := by
  obtain ⟨answers, calm⟩ := qualifies_iff.mp qualifies
  clear qualifies
  induction after using List.reverseRecOn with
  | nil => exact ⟨binding.account, bound_concat.mpr (.inl answers)⟩
  | append_singleton after last ih =>
    obtain ⟨account, bound⟩ := ih fun record member => calm record (by simp [member])
    obtain ⟨unopened, unlost⟩ := calm last (by simp)
    have joined : before ++ returned :: (after ++ [last]) = before ++ returned :: after ++ [last] := by
      simp
    rw [joined]
    by_cases again : ∃ other,
        Answers reads room ⟨binding.provider, other⟩ (before ++ returned :: after) last
    · obtain ⟨other, again⟩ := again
      exact ⟨other, bound_concat.mpr (.inl again)⟩
    · exact ⟨account, bound_concat.mpr
        (.inr ⟨bound, unopened, unlost, fun other answered => again ⟨other, answered⟩⟩)⟩

theorem Holds.sessionAccount_eq_none (holds : Holds reads records book) {provider : List Char} :
    book.sessionAccount room provider = none ↔
      ∀ account, ¬Bound reads room ⟨provider, account⟩ records := by
  rw [Option.eq_none_iff_forall_ne_some]
  exact forall_congr' fun account => not_congr (holds.affinity room ⟨provider, account⟩)

theorem Holds.sessionAccount_eq {others : List (Record δ)} {other : EndpointBook π ρ μ}
    (holds : Holds reads records book) (held : Holds reads others other)
    (same : ∀ room binding, Bound reads room binding records ↔ Bound reads room binding others)
    (room : Address) (provider : List Char) :
    book.sessionAccount room provider = other.sessionAccount room provider := by
  refine Option.ext fun account => ?_
  rw [holds.affinity room ⟨provider, account⟩, same, held.affinity room ⟨provider, account⟩]

/-! ### An attempt that does not return -/

/-- No answer to the run comes before its next call. -/
def Unreturned (run : RunId) (after : List (Record δ)) : Prop :=
  ∀ mid returned rest, after = mid ++ returned :: rest → returned.Returns run →
    ∃ record ∈ mid, record.Calls run

/-- Two streams say the same, but for the calls that some runs wait on. -/
structure Agree (reads : Readers δ π ρ μ) (heeded : RunId → Prop) (one other : List (Record δ)) :
    Prop where
  members : ∀ run room, Member run room one ↔ Member run room other
  waits : ∀ run, heeded run → ∀ room binding,
    Pending reads run room binding one ↔ Pending reads run room binding other
  bound : ∀ room binding, Bound reads room binding one ↔ Bound reads room binding other

theorem agree_call {called : Record δ} (calls : called.Calls run) (history : List (Record δ)) :
    Agree reads (· ≠ run) (history ++ [called]) history where
  members other room := by
    simp [member_concat, Record.Starts, Record.Opens, Record.Freezes, calls.1]
  waits other apart room binding := by
    simp [pending_concat, Record.Names, Record.Calls, Record.Opens, Record.Freezes, Record.Returns,
      calls.1, calls.2, Ne.symm apart]
  bound room binding := by
    simp [bound_concat, Answers, Record.Opens, Record.Loses, calls.1]

theorem Agree.concat {heeded : RunId → Prop} {one other : List (Record δ)} {record : Record δ}
    (agree : Agree reads heeded one other)
    (answered : record.kind = .modelReturned → heeded record.run) :
    Agree reads heeded (one ++ [record]) (other ++ [record]) where
  members run room := by
    simp only [member_concat, agree.members]
  waits run listened room binding := by
    simp only [pending_concat, agree.members, agree.waits run listened]
  bound room binding := by
    have same : ∀ binding, Answers reads room binding one record ↔
        Answers reads room binding other record :=
      fun binding => and_congr_right fun kind => agree.waits _ (answered kind) room binding
    simp only [bound_concat, agree.bound, same]

variable {one other : List (Record δ)}

theorem Agree.called (agree : Agree reads (· ≠ run) one other)
    (calls : record.Calls run) :
    Agree reads (fun _ => True) (one ++ [record]) (other ++ [record]) where
  members _ _ := by
    simp only [member_concat, agree.members]
  waits asked _ room binding := by
    by_cases same : asked = run
    · subst same
      simp only [pending_concat, agree.members, calls, not_true_eq_false, false_and, and_false,
        or_false]
    · simp only [pending_concat, agree.members, agree.waits asked same]
  bound room binding := by
    have idle : ∀ binding history, ¬Answers reads room binding history record :=
      fun binding history answers => by cases answers.1.symm.trans calls.1
    simp only [bound_concat, agree.bound, idle]

theorem Agree.append (agree : Agree reads (fun _ => True) one other)
    (after : List (Record δ)) : Agree reads (fun _ => True) (one ++ after) (other ++ after) := by
  induction after generalizing one other with
  | nil => simpa using agree
  | cons record after ih =>
    have next := ih (@Agree.concat _ _ _ _ _ _ _ _ record agree fun _ => trivial)
    rwa [append_assoc, append_assoc] at next

theorem Agree.unreturned {run : RunId} {after one other : List (Record δ)}
    (agree : Agree reads (· ≠ run) one other) (unreturned : Unreturned run after) (room : Address)
    (binding : ProviderAccountBinding) :
    Bound reads room binding (one ++ after) ↔ Bound reads room binding (other ++ after) := by
  induction after generalizing one other with
  | nil => simpa using agree.bound room binding
  | cons record after ih =>
    rw [← singleton_append, ← append_assoc, ← append_assoc]
    by_cases calls : record.Calls run
    · exact ((agree.called calls).append after).bound room binding
    · refine ih (agree.concat fun kind same => ?_) ?_
      · obtain ⟨_, impossible, -⟩ := unreturned [] record after rfl ⟨kind, same⟩
        cases impossible
      · rintro mid returned rest rfl returns
        obtain ⟨found, member, found_calls⟩ := unreturned (record :: mid) returned rest rfl returns
        rcases mem_cons.mp member with rfl | member
        · exact absurd found_calls calls
        · exact ⟨found, member, found_calls⟩

/-! ### Whatever the book, a record it can read is absorbed -/

theorem exists_absorb (done : absorb reads book record = .ok after) (other : EndpointBook π ρ μ) :
    ∃ next, absorb reads other record = .ok next := by
  unfold absorb at done ⊢
  split at done
  · obtain ⟨attached, read, -⟩ := Outcome.bind_eq_ok.mp done
    rw [read]
    exact ⟨_, rfl⟩
  · obtain ⟨name, read, -⟩ := Outcome.bind_eq_ok.mp done
    rw [read]
    exact ⟨_, rfl⟩
  · obtain ⟨choice, read, -⟩ := Outcome.bind_eq_ok.mp done
    rw [read]
    exact ⟨_, rfl⟩
  · cases record.addr <;> exact ⟨_, rfl⟩
  · obtain ⟨called, read, -⟩ := Outcome.bind_eq_ok.mp done
    rw [read]
    by_cases member : record.run ∈ other.sessionRooms
    · cases called <;> simp [member, bind, Except.bind, pure, Except.pure]
    · simp [member, bind, Except.bind, pure, Except.pure]
  · cases other.sessionRooms[record.run]? <;> cases other.attempts[record.run]? <;> exact ⟨_, rfl⟩
  · cases record.addr <;> exact ⟨_, rfl⟩
  · exact ⟨_, rfl⟩
  · exact ⟨_, rfl⟩

theorem exists_absorbAll (done : absorbAll reads book records = .ok after)
    (other : EndpointBook π ρ μ) : ∃ next, absorbAll reads other records = .ok next := by
  induction records generalizing book other with
  | nil => exact ⟨other, rfl⟩
  | cons record records ih =>
    obtain ⟨middle, first, rest⟩ := Outcome.bind_eq_ok.mp done
    obtain ⟨turned, absorbed⟩ := exists_absorb first other
    obtain ⟨next, ends⟩ := ih rest turned
    exact ⟨next, Outcome.bind_eq_ok.mpr ⟨turned, absorbed, ends⟩⟩

theorem absorbAll_append {first rest : List (Record δ)} :
    absorbAll reads book (first ++ rest) = .ok after ↔
      ∃ held, absorbAll reads book first = .ok held ∧ absorbAll reads held rest = .ok after := by
  rw [absorbAll, foldlM_append]
  exact Outcome.bind_eq_ok

theorem DistinctRuns.without_call {after : List (Record δ)} {called : Record δ}
    (calls : called.Calls run) (distinct : DistinctRuns (before ++ called :: after)) :
    DistinctRuns (before ++ after) := by
  have other : called.kind ≠ .runStarted := by simp [calls.1]
  simpa [DistinctRuns, filter_cons, other] using distinct

/-- The book answers with the account the room's session last answered with, whichever attempts did
not return and wherever a snapshot was taken. -/
theorem session_account (format : Postcard (EndpointBook π ρ μ)) {records : List (Record δ)}
    (distinct : DistinctRuns records) {book : EndpointBook π ρ μ}
    (absorbed : absorbAll reads new records = .ok book) :
    (∀ room binding, book.sessionAccount room binding.provider = some binding.account ↔
      LastAnswered reads room binding records) ∧
    (∀ room provider, book.sessionAccount room provider = none ↔
      ∀ before returned after account, records = before ++ returned :: after →
        ¬Qualifies reads room ⟨provider, account⟩ before returned after) ∧
    (∀ before called after run, records = before ++ called :: after → called.Calls run →
      Unreturned run after → ∃ other, absorbAll reads new (before ++ after) = .ok other ∧
        ∀ room provider, book.sessionAccount room provider = other.sessionAccount room provider) ∧
    ∀ first rest, records = first ++ rest → ∃ held back, absorbAll reads new first = .ok held ∧
      restored format (snapshot format held) = some back ∧
      absorbAll reads back rest = .ok book := by
  have holds := holds_absorbAll distinct absorbed
  refine ⟨?_, ?_, ?_, ?_⟩
  · intro room binding
    rw [holds.affinity, lastAnswered_iff]
  · intro room provider
    rw [holds.sessionAccount_eq_none]
    constructor
    · rintro unbound before returned after account rfl qualifies
      obtain ⟨other, bound⟩ := qualifies.exists_bound
      exact unbound other bound
    · intro unqualified account bound
      obtain ⟨before, returned, after, joined, qualifies⟩ :=
        (lastAnswered_iff.mpr bound).exists_qualifies
      exact unqualified before returned after account joined qualifies
  · rintro before called after run rfl calls unreturned
    obtain ⟨held, early, late⟩ := (absorbAll_append).mp absorbed
    obtain ⟨turned, -, late⟩ := Outcome.bind_eq_ok.mp late
    obtain ⟨other, ends⟩ := exists_absorbAll late held
    have without := (absorbAll_append).mpr ⟨held, early, ends⟩
    refine ⟨other, without, holds.sessionAccount_eq
      (holds_absorbAll (distinct.without_call calls) without) fun room binding => ?_⟩
    have same := @Agree.unreturned _ _ _ _ reads run after _ _ (agree_call calls before) unreturned
      room binding
    rwa [append_assoc, singleton_append] at same
  · rintro first rest rfl
    obtain ⟨held, early, late⟩ := (absorbAll_append).mp absorbed
    exact ⟨held, held, early, restored_snapshot format held, late⟩

/-! ### Streams with one run -/

def lab : Address := ⟨['l', 'a', 'b'], rfl⟩

def house : ProviderAccountBinding := ⟨['h', 'o', 'u', 's', 'e'], ⟨['f', 'i', 'r', 's', 't'], by decide⟩⟩

/-- Payloads that hold what a call names, and nothing else. -/
def plainReaders : Readers (Option ProviderAccountBinding) (List Char) (List Char) (List Char) where
  attached _ := .error (.failure .invalidArgs "read payload" "" "")
  lost _ := .error (.failure .invalidArgs "read payload" "" "")
  choice _ := .error (.failure .invalidArgs "read payload" "" "")
  called data := .ok data

def plainEndpoint : Postcard (AttachedEndpoint (List Char) (List Char)) :=
  (Postcard.text.pair (Postcard.text.list.option.pair Postcard.text)).through
    (fun attached => (attached.name, attached.accounts, attached.settings))
    (fun parts => some ⟨parts.1, parts.2.1, parts.2.2⟩) fun _ => rfl

def plainRecord (kind : EventKind) : Record (Option ProviderAccountBinding) :=
  ⟨kind, RunId.city, some lab, if kind = .modelCalled then some house else none⟩

theorem session_account_answered :
    LastAnswered plainReaders lab house
      [plainRecord .runStarted, plainRecord .modelCalled, plainRecord .modelReturned] :=
  ((session_account (codec plainEndpoint Postcard.text) (by unfold DistinctRuns; decide) rfl).1 lab
    house).mp (by decide +kernel)

/-- The same without heed to when the run started: its calls before that count, and a freeze before
that stands in the way. -/
def QualifiesAnytime (reads : Readers δ π ρ μ) (room : Address) (binding : ProviderAccountBinding)
    (before : List (Record δ)) (returned : Record δ) (after : List (Record δ)) : Prop :=
  returned.kind = .modelReturned ∧
    (∃ earlier started since, before = earlier ++ started :: since ∧
      started.Starts returned.run room ∧
      ∀ record ∈ since ++ returned :: after, ¬record.Opens room) ∧
    (∀ record ∈ before, ¬record.Freezes returned.run) ∧
    (∃ front called pending, before = front ++ called :: pending ∧
      called.Names reads returned.run binding ∧
      ∀ record ∈ pending, ¬record.Calls returned.run ∧ ¬record.Returns returned.run) ∧
    ∀ record ∈ after, ¬record.Loses reads binding.provider

/-- A call before the start of its run binds nothing, and a freeze before it stops nothing. -/
theorem not_session_account_anytime :
    (∃ book, absorbAll plainReaders new
        [plainRecord .modelCalled, plainRecord .runStarted, plainRecord .modelReturned] = .ok book ∧
      book.sessionAccount lab house.provider = none ∧
      QualifiesAnytime plainReaders lab house
        [plainRecord .modelCalled, plainRecord .runStarted] (plainRecord .modelReturned) []) ∧
    ∃ book, absorbAll plainReaders new [plainRecord .runFrozen, plainRecord .runStarted,
        plainRecord .modelCalled, plainRecord .modelReturned] = .ok book ∧
      book.sessionAccount lab house.provider = some house.account ∧
      ¬QualifiesAnytime plainReaders lab house [plainRecord .runFrozen, plainRecord .runStarted,
        plainRecord .modelCalled] (plainRecord .modelReturned) [] := by
  refine ⟨⟨_, rfl, by decide +kernel, rfl, ?_, ?_, ?_, by simp⟩, _, rfl, by decide +kernel, ?_⟩
  · exact ⟨[plainRecord .modelCalled], plainRecord .runStarted, [], rfl, ⟨rfl, rfl, rfl⟩,
      by simp [Record.Opens, plainRecord]⟩
  · simp [Record.Freezes, plainRecord]
  · exact ⟨[], plainRecord .modelCalled, [plainRecord .runStarted], rfl, ⟨⟨rfl, rfl⟩, rfl⟩,
      by simp [Record.Calls, Record.Returns, plainRecord]⟩
  · rintro ⟨-, -, unfrozen, -⟩
    exact unfrozen (plainRecord .runFrozen) (by simp) ⟨rfl, rfl⟩

end Sprawling.EndpointBook
