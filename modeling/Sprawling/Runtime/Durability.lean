import Sprawling.Base.Trace
import Sprawling.Runtime.RunRules

/-! The intent is durable before the effect, at every point a run may stop. -/

namespace Sprawling

open Effect List Run

namespace Deed

/-- The line a deed holds, under its entry. -/
def holding : Deed → Option (Entry × EventDraft)
  | .held entry draft => some (entry, draft)
  | _ => none

/-- The lines a deed leaves durable. -/
def landing : Deed → List EventDraft
  | .carried drafts => drafts
  | .refused _ landed => landed
  | _ => []

end Deed

namespace Durability

def entries (deeds : List Deed) : List (Entry × EventDraft) := deeds.filterMap Deed.holding

def linesHeld (deeds : List Deed) : List EventDraft := (entries deeds).map Prod.snd

def onLedger (deeds : List Deed) : List EventDraft := deeds.flatMap Deed.landing

example :
    let draft : EventDraft := ⟨⟨⟨List.replicate 16 0, rfl⟩⟩, [], none, .cancelReceived⟩
    onLedger [.carried [draft], .refused [draft, draft] [draft]] = [draft, draft] := by
  decide +kernel

def Refused (deeds : List Deed) : Prop := ∃ drafts landed, .refused drafts landed ∈ deeds

/-- What must already be durable when a deed is done: before a tool that does not only read is
invoked, every line held and last of them the call's; before a request goes out, every line held
and last of them the attempt's. A barrier hands over every line held that is not durable yet, and a
refused one leaves the first of them. -/
def Announced (setting : Setting) (before : List Deed) : Deed → Prop
  | .invoked call declared =>
    declared ≠ some .read →
      onLedger before = linesHeld before ∧ ∃ draft render,
        (linesHeld before).getLast? = some draft ∧
          draft.line = setting.scan (.toolCalled call (Line.subjectOf call.args) declared render)
  | .sent _ =>
    onLedger before = linesHeld before ∧ ∃ draft payload,
      (linesHeld before).getLast? = some draft ∧ draft.line = .modelCalled payload
  | .carried drafts => linesHeld before = onLedger before ++ drafts
  | .refused drafts landed => linesHeld before = onLedger before ++ drafts ∧ landed <+: drafts
  | _ => True

/-- At every point of the run: the durable lines are the first of the lines held, the deed done
there was announced, and after a refused barrier the run only takes the texts that reach it. -/
def Orderly (setting : Setting) (deeds : List Deed) : Prop :=
  Trace.Always (fun before deed =>
    onLedger (before ++ [deed]) <+: linesHeld (before ++ [deed]) ∧
      Announced setting before deed ∧ (Refused before → ∃ text, deed = .arrived text)) deeds

/-- An entry that resolves, resolves to the place its own line has in the ledger. -/
def Resolves {β : Type} (floor : Floor β) : Prop :=
  ∀ entry draft ref, (entry, draft) ∈ entries floor.deeds → floor.lines.durable entry = .ok ref →
    floor.book.records[ref.seq]? = some draft

/-- What holds of a run wherever it stops. -/
structure Durable {β : Type} (setting : Setting) (floor : Floor β) : Prop where
  orderly : Orderly setting floor.deeds
  resolves : Resolves floor
  ledger : (onLedger floor.deeds).Sublist floor.book.records

theorem entries_concat (deeds : List Deed) (deed : Deed) :
    entries (deeds ++ [deed]) = entries deeds ++ deed.holding.toList := by
  rw [entries, filterMap_append]
  cases said : deed.holding with
  | none => simp [entries, said]
  | some held => simp [entries, said]

theorem linesHeld_concat (deeds : List Deed) (deed : Deed) :
    linesHeld (deeds ++ [deed]) = linesHeld deeds ++ deed.holding.toList.map Prod.snd := by
  rw [linesHeld, entries_concat, map_append]
  rfl

theorem onLedger_concat (deeds : List Deed) (deed : Deed) :
    onLedger (deeds ++ [deed]) = onLedger deeds ++ deed.landing := by
  rw [onLedger, flatMap_append, flatMap_singleton]
  rfl

theorem Orderly.concat {setting : Setting} {deeds : List Deed} {deed : Deed}
    (orderly : Orderly setting deeds)
    (first : onLedger (deeds ++ [deed]) <+: linesHeld (deeds ++ [deed]))
    (announced : Announced setting deeds deed)
    (ended : Refused deeds → ∃ text, deed = .arrived text) : Orderly setting (deeds ++ [deed]) :=
  Trace.always_concat.mpr ⟨orderly, first, announced, ended⟩

variable {deeds : List Deed}

theorem Refused.of_concat {deed : Deed}
    (taken : ∀ drafts landed, deed ≠ .refused drafts landed) (refused : Refused (deeds ++ [deed])) :
    Refused deeds := by
  obtain ⟨drafts, landed, member⟩ := refused
  rcases mem_append.mp member with earlier | last
  · exact ⟨drafts, landed, earlier⟩
  · exact absurd (mem_singleton.mp last).symm (taken drafts landed)

theorem Orderly.first {setting : Setting} (orderly : Orderly setting deeds) :
    onLedger deeds <+: linesHeld deeds := by
  rcases eq_nil_or_concat deeds with rfl | ⟨before, deed, rfl⟩
  · exact prefix_rfl
  · rw [concat_eq_append] at orderly ⊢
    exact (Trace.always_concat.mp orderly).2.1

section Keeping

variable {β : Type} {setting : Setting} {floor : Floor β}

/-- No barrier was refused: every line held is durable or still held, and the refs are those of the
durable ones, in order. -/
structure Tally (held : List (Entry × EventDraft)) (landed : List EventDraft) (lines : HeldLines)
    (book : Book) : Prop where
  whole : held.map Prod.snd = landed ++ lines.held
  refs : lines.refs.length = landed.length
  named : ∀ (place : Nat) (ref : RunEventRef), lines.refs[place]? = some ref →
    book.records[ref.seq]? = landed[place]?
  places : ∀ (place : Nat) (entry : Entry) (draft : EventDraft),
    held[place]? = some (entry, draft) → entry.place = place
  ledger : landed.Sublist book.records

theorem Tally.resolves {held : List (Entry × EventDraft)} {landed : List EventDraft}
    {lines : HeldLines} {book : Book} (tally : Tally held landed lines book) {entry : Entry}
    {draft : EventDraft} {ref : RunEventRef} (member : (entry, draft) ∈ held)
    (found : lines.durable entry = .ok ref) : book.records[ref.seq]? = some draft := by
  obtain ⟨place, there⟩ := mem_iff_getElem?.mp member
  have same := tally.places place entry draft there
  have taken : lines.refs[place]? = some ref := by
    rw [HeldLines.durable, same] at found
    cases slot : lines.refs[place]? with
    | none =>
      rw [slot] at found
      cases found
    | some here =>
      rw [slot] at found
      cases found
      rfl
  have inside : place < landed.length := by
    rw [← tally.refs]
    exact (List.getElem?_eq_some_iff.mp taken).1
  have said : (held.map Prod.snd)[place]? = some draft := by
    rw [getElem?_map, there]
    rfl
  rw [tally.named place ref taken, ← said, tally.whole, getElem?_append_left inside]

/-- A run no barrier was refused in. -/
structure Standing (setting : Setting) (floor : Floor β) : Prop where
  orderly : Orderly setting floor.deeds
  taken : ¬Refused floor.deeds
  tally : Tally (entries floor.deeds) (onLedger floor.deeds) floor.lines floor.book

theorem Standing.lines (standing : Standing setting floor) :
    linesHeld floor.deeds = onLedger floor.deeds ++ floor.lines.held := standing.tally.whole

/-- A deed that holds and lands nothing, and is no refusal. -/
def Quiet (deed : Deed) : Prop :=
  deed.holding = none ∧ deed.landing = [] ∧ ∀ drafts landed, deed ≠ .refused drafts landed

variable {deed : Deed}

theorem Quiet.entries (quiet : Quiet deed) (deeds : List Deed) :
    entries (deeds ++ [deed]) = entries deeds := by
  rw [entries_concat, quiet.1]
  exact append_nil _

theorem Quiet.linesHeld (quiet : Quiet deed) (deeds : List Deed) :
    linesHeld (deeds ++ [deed]) = linesHeld deeds := by
  rw [Durability.linesHeld, quiet.entries]
  rfl

theorem Quiet.onLedger (quiet : Quiet deed) (deeds : List Deed) :
    onLedger (deeds ++ [deed]) = onLedger deeds := by
  rw [onLedger_concat, quiet.2.1, append_nil]

variable (standing : Standing setting floor)

include standing

theorem Standing.noted (quiet : Quiet deed)
    (announced : Announced setting floor.deeds deed) : Standing setting (floor.noted deed) := by
  refine ⟨?_, fun refused => standing.taken (refused.of_concat quiet.2.2), ?_⟩
  · refine Orderly.concat standing.orderly ?_ announced fun refused => absurd refused standing.taken
    rw [quiet.onLedger, quiet.linesHeld, standing.lines]
    exact prefix_append _ _
  · show Tally (entries (floor.deeds ++ [deed])) (onLedger (floor.deeds ++ [deed])) floor.lines
      floor.book
    rw [quiet.entries, quiet.onLedger]
    exact standing.tally

theorem Standing.appended (addr : Option Address)
    (line : Line) : Standing setting (floor.appended addr line) := by
  have tally := standing.tally
  have noted : (floor.appended addr line).deeds =
      floor.deeds ++ [Deed.held floor.lines.entry (floor.lines.draft addr line)] := rfl
  have held : entries (floor.appended addr line).deeds =
      entries floor.deeds ++ [(floor.lines.entry, floor.lines.draft addr line)] := by
    rw [noted, entries_concat]
    rfl
  have landed : onLedger (floor.appended addr line).deeds = onLedger floor.deeds := by
    rw [noted, onLedger_concat]
    exact append_nil _
  have lines : linesHeld (floor.appended addr line).deeds =
      onLedger floor.deeds ++ (floor.lines.held ++ [floor.lines.draft addr line]) := by
    rw [linesHeld, held, map_append, tally.whole, append_assoc]
    rfl
  refine ⟨?_, fun refused => standing.taken (refused.of_concat fun _ _ other => by cases other), ?_⟩
  · rw [noted]
    refine Orderly.concat standing.orderly ?_ trivial fun refused => absurd refused standing.taken
    rw [← noted, landed, lines]
    exact prefix_append _ _
  · rw [held, landed]
    refine ⟨?_, tally.refs, tally.named, ?_, tally.ledger⟩
    · rw [← held]
      exact lines
    · intro place entry draft found
      rw [getElem?_append] at found
      split at found
      · exact tally.places place entry draft found
      · next beyond =>
          have width : (entries floor.deeds).length = floor.lines.entry.place := by
            have counted := congrArg List.length tally.whole
            rw [length_map, length_append] at counted
            rw [HeldLines.entry, tally.refs, counted]
          rw [getElem?_singleton] at found
          split at found
          · cases found
            omega
          · cases found

theorem Standing.flushed (something : floor.lines.held ≠ [])
    (carried : floor.book.fate.refusal = none) : Standing setting floor.flushed := by
  have tally := standing.tally
  have noted : floor.flushed.deeds = floor.deeds ++ [Deed.carried floor.lines.held] := rfl
  have held : entries floor.flushed.deeds = entries floor.deeds := by
    rw [noted, entries_concat]
    exact append_nil _
  have landed : onLedger floor.flushed.deeds = onLedger floor.deeds ++ floor.lines.held := by
    rw [noted, onLedger_concat]
    rfl
  have book : floor.flushed.book.records =
      floor.book.records ++ floor.book.fate.others ++ floor.lines.held := by
    simp [Floor.flushed, Floor.noted, HeldLines.barrier, something, Book.appendAll, carried,
      Book.landed]
  have refs : floor.flushed.lines.refs = floor.lines.refs ++
      (List.range floor.lines.held.length).map fun place =>
        ⟨(floor.book.records ++ floor.book.fate.others).length + place⟩ := by
    simp [Floor.flushed, Floor.noted, HeldLines.barrier, something, Book.appendAll, carried]
  refine ⟨?_, fun refused => standing.taken (refused.of_concat fun _ _ other => by cases other), ?_⟩
  · rw [noted]
    refine Orderly.concat standing.orderly ?_ standing.lines
      fun refused => absurd refused standing.taken
    rw [← noted, landed, linesHeld, held, tally.whole]
  · rw [held, landed]
    refine ⟨?_, ?_, ?_, tally.places, ?_⟩
    · rw [Act.flushed_held something carried, append_nil]
      exact tally.whole
    · rw [refs, length_append, length_map, length_range, length_append, tally.refs]
    · intro place ref found
      rw [refs, getElem?_append] at found
      rw [book]
      split at found
      · next early =>
          have there := tally.named place ref found
          rw [tally.refs] at early
          rw [getElem?_append_left early, ← there, append_assoc]
          have inside : ref.seq < floor.book.records.length := by
            rw [getElem?_eq_getElem early] at there
            exact (List.getElem?_eq_some_iff.mp there).1
          exact getElem?_append_left inside
      · next late =>
          rw [tally.refs] at late found
          rw [getElem?_map] at found
          obtain ⟨offset, counted, rfl⟩ := Option.map_eq_some_iff.mp found
          obtain ⟨inside, same⟩ := List.getElem?_eq_some_iff.mp counted
          rw [getElem_range] at same
          rw [getElem?_append_right (Nat.le_add_right _ _),
            getElem?_append_right (by omega), ← same]
          congr 1
          exact Nat.add_sub_cancel_left _ _
    · rw [book]
      exact (tally.ledger.trans (sublist_append_left _ _)).append (List.Sublist.refl _)

theorem Standing.durable : Durable setting floor where
  orderly := standing.orderly
  resolves := fun _ _ _ member found => standing.tally.resolves member found
  ledger := standing.tally.ledger

theorem Standing.dropped {refusal : Refusal}
    (something : floor.lines.held ≠ []) (refused : floor.book.fate.refusal = some refusal) :
    Durable setting floor.dropped ∧ floor.dropped.lines.held = [] := by
  have tally := standing.tally
  have noted : floor.dropped.deeds =
      floor.deeds ++ [Deed.refused floor.lines.held (floor.book.landed floor.lines.held)] := rfl
  have held : entries floor.dropped.deeds = entries floor.deeds := by
    rw [noted, entries_concat]
    exact append_nil _
  have kept : floor.book.landed floor.lines.held = floor.lines.held.take refusal.kept := by
    rw [Book.landed, refused]
  have landed : onLedger floor.dropped.deeds =
      onLedger floor.deeds ++ floor.lines.held.take refusal.kept := by
    rw [noted, onLedger_concat, kept]
    rfl
  have book : floor.dropped.book.records =
      floor.book.records ++ floor.book.fate.others ++ floor.lines.held.take refusal.kept := by
    simp [Floor.dropped, Floor.noted, HeldLines.barrier, something, Book.appendAll, refused,
      Book.landed]
  have refs : floor.dropped.lines.refs = floor.lines.refs := by
    simp [Floor.dropped, Floor.noted, HeldLines.barrier, something, Book.appendAll, refused]
  refine ⟨⟨?_, ?_, ?_⟩, ?_⟩
  · rw [noted]
    refine Orderly.concat standing.orderly ?_ ⟨standing.lines, ?_⟩
      fun refused => absurd refused standing.taken
    · rw [← noted, landed, linesHeld, held, tally.whole]
      exact (prefix_append_right_inj _).mpr (List.take_prefix _ _)
    · rw [kept]
      exact take_prefix _ _
  · intro entry draft ref member found
    rw [held] at member
    rw [HeldLines.durable, refs] at found
    have there := tally.resolves member found
    rw [book, append_assoc, getElem?_append_left (List.getElem?_eq_some_iff.mp there).1]
    exact there
  · rw [landed, book]
    exact (tally.ledger.trans (sublist_append_left _ _)).append (List.Sublist.refl _)
  · simp [Floor.dropped, Floor.noted, HeldLines.barrier, something, Book.appendAll, refused]

theorem Standing.told (text : List Char) :
    Standing setting (floor.told text) := by
  have noted : Standing setting (floor.noted (.arrived text)) :=
    standing.noted (by simp [Quiet, Deed.holding, Deed.landing]) trivial
  exact ⟨noted.orderly, noted.taken, noted.tally⟩

theorem Standing.announced {line : Line}
    (announced : Act.Announced floor line) :
    onLedger floor.deeds = linesHeld floor.deeds ∧ ∃ draft,
      (linesHeld floor.deeds).getLast? = some draft ∧ draft.line = line := by
  obtain ⟨nothing, before, entry, drafts, draft, noted, said⟩ := announced
  constructor
  · rw [standing.lines, nothing, append_nil]
  · refine ⟨draft, ?_, said⟩
    have split : floor.deeds = before ++ [Deed.held entry draft] ++ [Deed.carried (drafts ++ [draft])] := by
      rw [noted, append_assoc]
      rfl
    rw [split, linesHeld_concat, linesHeld_concat]
    simp [Deed.holding]

end Keeping

section Runs

variable {β τ : Type} (setting : Setting)

/-- Where a turn that failed stands: as a run no barrier was refused in, or as one that ended on a
refused barrier, with nothing held. -/
def Ended (reason : AxError) (floor : Floor β) : Prop :=
  Standing setting floor ∨
    (reason.code.carried = false ∧ Durable setting floor ∧ floor.lines.held = [])

variable {setting}

theorem keeps_barrier : Keeps (Standing setting) (Ended setting) (Act.barrier : Act β Unit) := by
  apply Act.keeps_barrier
  · exact fun floor something carried standing => standing.flushed something carried
  · intro floor refusal something refused standing
    exact Or.inr ⟨refusal.fatal, standing.dropped something refused⟩

theorem abides : @Act.Abides β (Standing setting) (Ended setting) where
  appends := fun addr line _ standing => standing.appended addr line
  barriers := keeps_barrier
  tells := fun text _ standing => standing.told text
  waits := fun _ _ standing => ⟨standing.orderly, standing.taken, standing.tally⟩

variable {floor : Floor β}

theorem Standing.benched (standing : Standing setting floor) (bench : β) :
    Standing setting { floor with bench } := ⟨standing.orderly, standing.taken, standing.tally⟩

theorem Standing.read {tools : ConcurrentInvoke β τ} {call : ToolCall}
    (standing : Standing setting floor) (reading : tools.readsOnly call = true) :
    Standing setting (floor.noted (.invoked call (tools.declared call))) := by
  apply standing.noted (by simp [Quiet, Deed.holding, Deed.landing])
  intro acting
  exact absurd (of_decide_eq_true reading) acting

theorem call_rules (hooks : RunHooks β τ) (request : List ChatMessage) :
    ModelCall.Rules hooks request
      (fun floor => Standing setting floor ∧ floor.conversation.messages = request)
      (Ended setting) where
  ends := fun _ _ start => Or.inl start.1
  appends := fun addr line _ start => ⟨start.1.appended addr line, start.2⟩
  barriers := by
    have frame : Keeps (fun floor : Floor β => floor.conversation.messages = request)
        (fun _ floor => floor.conversation.messages = request) Act.barrier :=
      Act.keeps_barrier (fun _ _ _ same => same) (fun _ _ _ _ same => same)
    apply ensures_weaken (ensures_and keeps_barrier frame)
    · exact fun _ _ kept => kept
    · exact fun _ _ refused => refused.1
  reads := fun _ _ reading start => ⟨start.1.read reading, start.2⟩
  sends := by
    intro floor announced start
    refine ⟨?_, start.2⟩
    apply start.1.noted (by simp [Quiet, Deed.holding, Deed.landing])
    obtain ⟨durable, draft, last, said⟩ := start.1.announced announced
    exact ⟨durable, draft, _, last, said⟩

theorem wave_rules (hooks : RunHooks β τ) (calls : List ToolCall) :
    Wave.Rules setting hooks.tools (stillGoing hooks) calls (Standing setting)
      (Ended setting) where
  ends := fun _ _ standing => Or.inl standing
  appends := abides.appends
  barriers := keeps_barrier
  asks := keeps_stillGoing abides
  admits := fun _ _ _ standing => standing.benched _
  accounts := fun _ _ _ _ _ _ standing =>
    (standing.benched _).noted (by simp [Quiet, Deed.holding, Deed.landing]) trivial
  reads := fun _ _ _ reading standing => standing.read reading
  acts := by
    intro call _ floor _ announced standing
    apply standing.noted (by simp [Quiet, Deed.holding, Deed.landing])
    intro _
    obtain ⟨durable, draft, last, said⟩ := standing.announced announced
    exact ⟨durable, draft, _, last, said⟩

theorem Standing.closed (standing : Standing setting floor) (calls : Nat) (exchange : Exchange) :
    Standing setting (closedBy calls exchange floor) := by
  have noted : Standing setting
      (floor.noted (.closed calls exchange.assistant exchange.results)) :=
    standing.noted (by simp [Quiet, Deed.holding, Deed.landing]) trivial
  exact ⟨noted.orderly, noted.taken, noted.tally⟩

theorem Durable.told (durable : Durable setting floor) (text : List Char) :
    Durable setting (floor.told text) := by
  have quiet : Quiet (.arrived text) := by simp [Quiet, Deed.holding, Deed.landing]
  have noted : (floor.told text).deeds = floor.deeds ++ [Deed.arrived text] := rfl
  refine ⟨?_, ?_, ?_⟩
  · rw [noted]
    refine Orderly.concat durable.orderly ?_ trivial fun _ => ⟨text, rfl⟩
    rw [quiet.onLedger, quiet.linesHeld]
    exact durable.orderly.first
  · intro entry draft ref member found
    rw [noted, quiet.entries] at member
    exact durable.resolves entry draft ref member found
  · rw [noted, quiet.onLedger]
    exact durable.ledger

variable {reason : AxError}

theorem Ended.told (ended : Ended setting reason floor) (text : List Char) :
    Ended setting reason (floor.told text) := by
  rcases ended with standing | ⟨fatal, durable, nothing⟩
  · exact Or.inl (standing.told text)
  · exact Or.inr ⟨fatal, durable.told text, nothing⟩

theorem Ended.frame (ended : Ended setting reason floor) (conversation : Conversation)
    (arrived : Option RunPolicy) : Ended setting reason { floor with conversation, arrived } := by
  rcases ended with standing | ⟨fatal, durable, nothing⟩
  · exact Or.inl ⟨standing.orderly, standing.taken, standing.tally⟩
  · exact Or.inr ⟨fatal, ⟨durable.orderly, durable.resolves, durable.ledger⟩, nothing⟩

theorem standing_rules (hooks : RunHooks β τ) (addr : Address) :
    Run.Rules setting hooks addr (.steady (Standing setting) (Ended setting)) where
  between := abides
  opened := fun _ => abides
  working := fun _ => abides
  over_ := abides
  ends := fun _ _ standing => Or.inl standing
  rests := fun _ standing => standing
  prompts := fun _ _ standing => ⟨standing.orderly, standing.taken, standing.tally⟩
  calls := fun _ standing => standing
  call := call_rules hooks
  marks := fun _ standing => ⟨standing.orderly, standing.taken, standing.tally⟩
  fails := fun _ floor ended => ended.frame floor.conversation.markSent floor.arrived
  hears := fun _ text _ ended => ended.told text
  waits := fun _ policy floor ended => ended.frame floor.conversation policy
  replies := fun _ _ => trivial
  checkpoints := by
    intro calls _
    apply keeps_checkpointWave
    · exact fun _ _ standing => Or.inl standing
    · exact abides.appends
    · exact fun bench _ standing => standing.benched bench
    · exact fun _ _ standing => ⟨standing.orderly, standing.taken, standing.tally⟩
    · exact fun _ _ standing =>
        standing.noted (by simp [Quiet, Deed.holding, Deed.landing]) trivial
  leaves := fun _ _ standing => standing
  notes := fun _ _ _ standing =>
    standing.noted (by simp [Quiet, Deed.holding, Deed.landing]) trivial
  wave := wave_rules hooks
  stops := fun _ _ standing => standing
  closes := fun _ count exchange _ _ _ standing => standing.closed count exchange
  silences := fun _ exchange _ _ _ standing => standing.closed 0 exchange

theorem Standing.settled (standing : Standing setting floor) :
    Durable setting (run Act.barrier floor).2 := by
  have kept := keeps_barrier floor standing
  cases done : run Act.barrier floor with
  | mk result after =>
    rw [done] at kept
    cases result with
    | ok _ => exact Standing.durable kept
    | error reason =>
      rcases kept with standing | ⟨-, durable, -⟩
      · exact standing.durable
      · exact durable

theorem Ended.settled (ended : Ended setting reason floor) :
    Durable setting (run Act.barrier floor).2 := by
  rcases ended with standing | ⟨-, durable, nothing⟩
  · exact standing.settled
  · rw [Act.run_barrier_nothing nothing]
    exact durable

theorem standing_dispatch (plan : Run.RunPlan) (book : Book) (bench : β) :
    Standing setting (dispatch plan book bench) where
  orderly := by
    refine Orderly.concat Trace.always_nil prefix_rfl trivial ?_
    exact fun _ => ⟨plan.taskText, rfl⟩
  taken := by
    rintro ⟨drafts, landed, member⟩
    cases mem_singleton.mp member
  tally := by
    refine ⟨rfl, rfl, ?_, ?_, nil_sublist _⟩
    · intro place ref found
      cases found
    · intro place entry draft found
      cases found

/-- Wherever a run stops: the durable lines are the first of its lines, in order and none twice; a
tool that does not only read was invoked, and a request sent, only with its line and every line held
before it durable; and an entry that resolves, resolves to its own line. -/
theorem drive_durable (plan : Run.RunPlan) (book : Book) (bench : β)
    (turns : List (Run.Driven β τ)) :
    Durable setting (Run.drive setting plan.addr turns (dispatch plan book bench)) := by
  apply @Run.drive_keeps _ _ _ (Run.Stages.steady (Standing setting) (Ended setting))
  · exact fun turn _ => ⟨_, standing_rules turn.hooks plan.addr⟩
  · exact standing_dispatch plan book bench
  · exact fun _ standing => standing.durable
  · exact fun _ standing => standing.settled
  · exact fun _ _ ended => ended.settled
  · intro reason floor after carried ended done
    rcases ended with standing | ⟨fatal, -, -⟩
    · have kept := keeps_barrier floor standing
      rw [done] at kept
      exact kept
    · rw [carried] at fatal
      cases fatal

end Runs

/-- A ledger that refuses the first wave it is handed and keeps none of its lines. -/
def refusing : Book where
  records := []
  fates := [{
    others := []
    refusal := some { kept := 0, reason := .failure .storageFatal "append" "" "", fatal := rfl } }]

/-- A turn whose first barrier is refused held three lines; the barrier tried again answers, and
none of the three is durable or held. -/
theorem refused_lines_skipped :
    let failed := Effect.run (Run.advance .plain Run.RunPlan.plain.addr .plain)
      (dispatch .plain refusing ())
    let retried := Effect.run Act.barrier failed.2
    retried.1 = .ok () ∧ (linesHeld retried.2.deeds).length = 3 ∧
      onLedger retried.2.deeds = [] ∧ retried.2.lines.held = [] := by
  refine ⟨rfl, rfl, rfl, rfl⟩

end Durability

end Sprawling
