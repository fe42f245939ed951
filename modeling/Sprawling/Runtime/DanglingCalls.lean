import Mathlib.Data.List.Sort
import Sprawling.Kernel.Record
import Sprawling.Storage.Ledger

/-! Crash recovery over verified records: which tool calls have no outcome, and the line that
closes one. -/

namespace Sprawling

open List OrdMap

/-- The word for a line's kind. -/
def Line.kind : Line → String
  | .runStarted _ => "run_started"
  | .promptAssembled _ => "prompt_assembled"
  | .promptShapeCompared _ => "prompt_shape_compared"
  | .modelCalled _ => "model_called"
  | .prefixHeld _ => "prefix_held"
  | .modelReturned _ _ => "model_returned"
  | .toolCalled _ _ _ _ => "tool_called"
  | .toolResult _ _ _ _ _ => "tool_result"
  | .checkpointCommitted _ => "checkpoint_committed"
  | .steerReceived _ _ => "steer_received"
  | .cancelReceived => "cancel_received"
  | .elsewhere kind _ => kind

/-- A record of the city's ledger. -/
abbrev RunRecord (Hash : Type) := EventRecord Hash EventDraft

namespace EventRecord

variable {Hash : Type}

def isCall (record : RunRecord Hash) : Bool := record.draft.line.kind == "tool_called"

def isResult (record : RunRecord Hash) : Bool := record.draft.line.kind == "tool_result"

/-- The id a call or a result carries, where its payload can be read. -/
def toolId (record : RunRecord Hash) : Option (List Char) :=
  match record.draft.line with
  | .toolCalled call _ _ _ => some call.id
  | .toolResult toolUseId _ _ _ _ => some toolUseId
  | _ => none

theorem not_isResult_of_isCall {record : RunRecord Hash} (call : record.isCall = true) :
    record.isResult = false := by
  have kind : record.draft.line.kind = "tool_called" := by simpa [isCall] using call
  simp [isResult, kind]

end EventRecord

/-- The records of a verified ledger, in its order. -/
structure VerifiedRecords (Hash : Type) where
  records : List (RunRecord Hash)
  ascending : records.Pairwise fun first second => first.seq.value < second.seq.value

/-- The calls still open, one per run, and the calls already found dangling. -/
structure DanglingCalls (Hash : Type) where
  opened : OrdMap RunId (RunRecord Hash)
  dangling : List (RunRecord Hash)

namespace DanglingCalls

variable {Hash : Type}

def fresh : DanglingCalls Hash := ⟨∅, []⟩

/-- Reads one record, in ledger order. -/
def observe (calls : DanglingCalls Hash) (record : RunRecord Hash) : DanglingCalls Hash :=
  let key := record.draft.run
  if record.isCall then
    { opened := calls.opened.insert key record
      dangling := calls.dangling ++ (calls.opened[key]?).toList }
  else if record.isResult then { calls with opened := calls.opened.erase key }
  else calls

def observeAll (calls : DanglingCalls Hash) (records : List (RunRecord Hash)) :
    DanglingCalls Hash :=
  records.foldl observe calls

def bySeq (first second : RunRecord Hash) : Bool := first.seq.value ≤ second.seq.value

/-- The calls with no outcome, ascending by seq. -/
def intoCalls (calls : DanglingCalls Hash) : List (RunRecord Hash) :=
  (calls.dangling ++ calls.opened.toList.map Prod.snd).mergeSort bySeq

/-- What the start-up scan finds in a ledger's records. -/
def found (records : List (RunRecord Hash)) : List (RunRecord Hash) :=
  (fresh.observeAll records).intoCalls

end DanglingCalls

/-- How serde writes an error as a payload, and the sentence it refuses a payload with. -/
structure PayloadSpelling where
  ofError : AxError → Except AxError Json
  unread : Line → String

/-- The `tool_result` draft that closes a dangling call with `E_TOOL_OUTCOME_UNKNOWN`. -/
def outcomeUnknownDraft {Hash : Type} (spelling : PayloadSpelling) (call : RunRecord Hash) :
    Except AxError EventDraft :=
  if call.isCall then
    match call.draft.line with
    | .toolCalled called _ _ _ => do
        let error := AxError.failure .toolOutcomeUnknown "recover tool outcome"
          s!"{String.ofList called.name.text} ({String.ofList called.id})"
          "the call may or may not have taken effect; verify the external state before retrying"
        let payload ← spelling.ofError error
        .ok {
          run := call.draft.run
          who := call.draft.who
          addr := none
          line := .toolResult called.id called.name (.failed payload) (some .v3) none }
    | line =>
      .error (.failure .wireMismatch "read a ledger payload" (spelling.unread line)
        "replay with the build that wrote this record")
  else
    .error (.failure .invalidArgs "draft unknown outcome" "record is not a tool_called"
      "pass the `tool_called` record that has no `tool_result` after it; only a call can be closed as an unknown outcome")

namespace DanglingCalls

section Reported

variable {Hash : Type}

/-- The next call or result of a run. -/
def nextOf (run : RunId) (records : List (RunRecord Hash)) : Option (RunRecord Hash) :=
  records.find? fun record => record.draft.run = run && (record.isCall || record.isResult)

/-- Whether the next call or result of the call's run is a result. -/
def answeredNext (call : RunRecord Hash) (later : List (RunRecord Hash)) : Bool :=
  (nextOf call.draft.run later).any EventRecord.isResult

/-- The calls their run does not follow with a result next. -/
def unanswered : List (RunRecord Hash) → List (RunRecord Hash)
  | [] => []
  | record :: rest =>
    if record.isCall && !answeredNext record rest then record :: unanswered rest
    else unanswered rest

/-- The calls their run followed with another call before any result. -/
def overtaken : List (RunRecord Hash) → List (RunRecord Hash)
  | [] => []
  | record :: rest =>
    if record.isCall && (nextOf record.draft.run rest).any EventRecord.isCall then
      record :: overtaken rest
    else overtaken rest

/-- The calls with no later result of their id in their run. -/
def unansweredById : List (RunRecord Hash) → List (RunRecord Hash)
  | [] => []
  | record :: rest =>
    if record.isCall && !rest.any fun later =>
        later.isResult && later.draft.run = record.draft.run && later.toolId = record.toolId then
      record :: unansweredById rest
    else unansweredById rest

variable {run : RunId} {record : RunRecord Hash} {rest : List (RunRecord Hash)}

theorem nextOf_of_other (other : record.draft.run ≠ run) :
    nextOf run (record :: rest) = nextOf run rest := by
  simp [nextOf, other]

theorem nextOf_of_tool (same : record.draft.run = run)
    (tool : record.isCall = true ∨ record.isResult = true) :
    nextOf run (record :: rest) = some record := by
  simp [nextOf, same, tool]

theorem nextOf_of_neither (call : record.isCall = false) (result : record.isResult = false) :
    nextOf run (record :: rest) = nextOf run rest := by
  simp [nextOf, call, result]

theorem nextOf_append (run : RunId) (first second : List (RunRecord Hash)) :
    nextOf run (first ++ second) = (nextOf run first).or (nextOf run second) :=
  find?_append

theorem unanswered_sublist (records : List (RunRecord Hash)) :
    (unanswered records).Sublist records := by
  induction records with
  | nil => exact List.Sublist.slnil
  | cons record rest ih =>
    unfold unanswered
    split
    · exact ih.cons_cons record
    · exact ih.cons record

/-- The open calls that what follows does not answer. -/
def leftOpen (entries : List (RunId × RunRecord Hash)) (later : List (RunRecord Hash)) :
    List (RunRecord Hash) :=
  (entries.map Prod.snd).filter fun call => !answeredNext call later

theorem leftOpen_perm {first second : List (RunId × RunRecord Hash)} (perm : first.Perm second)
    (later : List (RunRecord Hash)) : (leftOpen first later).Perm (leftOpen second later) :=
  (perm.map Prod.snd).filter _

theorem leftOpen_append (first second : List (RunId × RunRecord Hash))
    (later : List (RunRecord Hash)) :
    leftOpen (first ++ second) later = leftOpen first later ++ leftOpen second later := by
  simp [leftOpen]

theorem leftOpen_congr {entries : List (RunId × RunRecord Hash)}
    {later sooner : List (RunRecord Hash)}
    (same : ∀ entry ∈ entries, nextOf entry.2.draft.run later = nextOf entry.2.draft.run sooner) :
    leftOpen entries later = leftOpen entries sooner := by
  unfold leftOpen
  apply filter_congr
  intro call member
  obtain ⟨entry, inside, rfl⟩ := mem_map.mp member
  rw [answeredNext, answeredNext, same entry inside]

/-- Every open call is under its own run. -/
def Keyed (calls : DanglingCalls Hash) : Prop :=
  ∀ entry ∈ calls.opened.toList, entry.2.draft.run = entry.1

/-- The entries of the other runs. -/
def others (calls : DanglingCalls Hash) (run : RunId) : List (RunId × RunRecord Hash) :=
  calls.opened.toList.filter fun entry => entry.1 ≠ run

variable {calls : DanglingCalls Hash}

theorem Keyed.others_next (keyed : calls.Keyed) (rest : List (RunRecord Hash)) :
    ∀ entry ∈ calls.others record.draft.run,
      nextOf entry.2.draft.run (record :: rest) = nextOf entry.2.draft.run rest := by
  intro entry member
  obtain ⟨inside, apart⟩ := mem_filter.mp member
  apply nextOf_of_other
  rw [keyed entry inside]
  simpa using Ne.symm (by simpa using apart)

theorem Keyed.observe (keyed : calls.Keyed) (record : RunRecord Hash) :
    (calls.observe record).Keyed := by
  intro entry member
  unfold DanglingCalls.observe at member
  split at member
  · rcases mem_cons.mp ((toList_insert_perm _ _ _).mem_iff.mp member) with same | inside
    · rw [same]
    · exact keyed entry (mem_filter.mp inside).1
  · split at member
    · rw [toList_erase] at member
      exact keyed entry (mem_filter.mp member).1
    · exact keyed entry member

/-- Everything held of some calls and what follows them: the calls found dangling, the open calls
that are not answered, and the calls that come later and are not. -/
def outstanding (calls : DanglingCalls Hash) (later : List (RunRecord Hash)) :
    List (RunRecord Hash) :=
  calls.dangling ++ leftOpen calls.opened.toList later ++ unanswered later

/-- A call or a result of a run answers the call the run has open, when it is a result. -/
theorem Keyed.leftOpen_tool (keyed : calls.Keyed)
    (tool : record.isCall = true ∨ record.isResult = true) (rest : List (RunRecord Hash)) :
    (leftOpen calls.opened.toList (record :: rest)).Perm
      ((calls.opened[record.draft.run]?).toList.filter (fun _ => !record.isResult) ++
        leftOpen (calls.others record.draft.run) rest) := by
  have next : nextOf record.draft.run (record :: rest) = some record := nextOf_of_tool rfl tool
  have own : leftOpen ((calls.opened[record.draft.run]?).toList.map fun value =>
      (record.draft.run, value)) (record :: rest) =
        (calls.opened[record.draft.run]?).toList.filter (fun _ => !record.isResult) := by
    cases found : calls.opened[record.draft.run]? with
    | none => rfl
    | some older =>
      have under : older.draft.run = record.draft.run :=
        keyed (record.draft.run, older) (Std.ExtTreeMap.mem_toList_iff_getElem?_eq_some.mpr found)
      cases result : record.isResult <;> simp [leftOpen, answeredNext, under, next, result]
  have split := leftOpen_perm (toList_perm_split calls.opened record.draft.run) (record :: rest)
  rw [leftOpen_append, own] at split
  rwa [← leftOpen_congr (keyed.others_next rest)]

theorem outstanding_call (keyed : calls.Keyed) (call : record.isCall = true)
    (rest : List (RunRecord Hash)) :
    (outstanding calls (record :: rest)).Perm (outstanding (calls.observe record) rest) := by
  -- The open call of the run, if any, is not answered by another call.
  have before := keyed.leftOpen_tool (.inl call) rest
  simp only [EventRecord.not_isResult_of_isCall call, Bool.not_false, filter_true] at before
  have after : (leftOpen (calls.observe record).opened.toList rest).Perm
      (leftOpen [(record.draft.run, record)] rest ++ leftOpen (calls.others record.draft.run) rest) := by
    rw [← leftOpen_append]
    simp only [DanglingCalls.observe, call, if_true]
    exact leftOpen_perm (toList_insert_perm _ _ _) rest
  have own : unanswered (record :: rest) =
      leftOpen [(record.draft.run, record)] rest ++ unanswered rest := by
    cases answered : answeredNext record rest <;> simp [unanswered, leftOpen, call, answered]
  have held : (calls.observe record).dangling =
      calls.dangling ++ (calls.opened[record.draft.run]?).toList := by
    simp [DanglingCalls.observe, call]
  rw [outstanding, outstanding, own, held]
  refine ((before.append_left calls.dangling).append_right _).trans ?_
  refine List.Perm.trans ?_ ((after.symm.append_left _).append_right _)
  simp only [append_assoc]
  refine (List.Perm.append_left _ (List.Perm.append_left _ ?_))
  rw [← append_assoc, ← append_assoc]
  exact perm_append_comm.append_right _

theorem outstanding_result (keyed : calls.Keyed) (call : record.isCall = false)
    (result : record.isResult = true) (rest : List (RunRecord Hash)) :
    (outstanding calls (record :: rest)).Perm (outstanding (calls.observe record) rest) := by
  have before := keyed.leftOpen_tool (.inr result) rest
  simp only [result, Bool.not_true, filter_false, nil_append] at before
  have own : unanswered (record :: rest) = unanswered rest := by simp [unanswered, call]
  have observed : calls.observe record = { calls with opened := calls.opened.erase record.draft.run } := by
    simp [DanglingCalls.observe, call, result]
  rw [outstanding, outstanding, own, observed, toList_erase]
  exact (before.append_left _).append_right _

theorem outstanding_other (call : record.isCall = false) (result : record.isResult = false)
    (rest : List (RunRecord Hash)) :
    outstanding calls (record :: rest) = outstanding (calls.observe record) rest := by
  have observed : calls.observe record = calls := by simp [DanglingCalls.observe, call, result]
  have own : unanswered (record :: rest) = unanswered rest := by simp [unanswered, call]
  rw [observed, outstanding, outstanding, own,
    leftOpen_congr fun entry _ => nextOf_of_neither call result]

theorem observeAll_perm (records : List (RunRecord Hash)) (keyed : calls.Keyed) :
    (outstanding calls records).Perm (outstanding (calls.observeAll records) []) := by
  induction records generalizing calls with
  | nil => exact List.Perm.refl _
  | cons record rest ih =>
    have onward := ih (keyed.observe record)
    cases call : record.isCall with
    | true => exact (outstanding_call keyed call rest).trans onward
    | false =>
      cases result : record.isResult with
      | true => exact (outstanding_result keyed call result rest).trans onward
      | false => exact (outstanding_other call result rest) ▸ onward

theorem intoCalls_perm (calls : DanglingCalls Hash) :
    calls.intoCalls.Perm (outstanding calls []) := by
  have all : leftOpen calls.opened.toList [] = calls.opened.toList.map Prod.snd := by
    simp [leftOpen, answeredNext, nextOf]
  rw [outstanding, all, unanswered, append_nil]
  exact mergeSort_perm _ _

theorem found_eq (ledger : VerifiedRecords Hash) :
    found ledger.records = unanswered ledger.records := by
  have start : outstanding fresh ledger.records = unanswered ledger.records := by
    simp [outstanding, fresh, leftOpen]
  have perm : (found ledger.records).Perm (unanswered ledger.records) := by
    rw [← start]
    exact (intoCalls_perm _).trans (observeAll_perm _ (by simp [Keyed, fresh])).symm
  have ascending := ledger.ascending.sublist (unanswered_sublist ledger.records)
  have sorted : (found ledger.records).Pairwise fun first second => bySeq first second = true := by
    apply pairwise_mergeSort
    · intro first second third lower upper
      simp only [bySeq, decide_eq_true_eq] at lower upper ⊢
      exact Nat.le_trans lower upper
    · intro first second
      simp only [bySeq, Bool.or_eq_true, decide_eq_true_eq]
      exact Nat.le_total _ _
  apply List.Perm.eq_of_pairwise _ sorted
    (ascending.imp fun {first second} less => by simpa [bySeq] using Nat.le_of_lt less) perm
  intro first second inFirst inSecond lower upper
  simp only [bySeq, decide_eq_true_eq] at lower upper
  have distinct : ((unanswered ledger.records).map fun record => record.seq.value).Nodup :=
    pairwise_map.mpr (ascending.imp Nat.ne_of_lt)
  exact inj_on_of_nodup_map distinct (perm.mem_iff.mp inFirst) inSecond
    (Nat.le_antisymm lower upper)

theorem unanswered_append_results {records closing : List (RunRecord Hash)}
    (results : ∀ record ∈ closing, record.isResult = true)
    (closed : ∀ call ∈ unanswered records, ∃ answer ∈ closing, answer.draft.run = call.draft.run) :
    unanswered (records ++ closing) = overtaken records := by
  induction records with
  | nil =>
    have quiet : ∀ list : List (RunRecord Hash), (∀ record ∈ list, record.isResult = true) →
        unanswered list = [] := by
      intro list all
      induction list with
      | nil => rfl
      | cons record rest ih =>
        have call : record.isCall = false := by
          by_contra wrong
          have apart := EventRecord.not_isResult_of_isCall (by simpa using wrong)
          rw [all record (mem_cons_self ..)] at apart
          cases apart
        simp [unanswered, call, ih fun later member => all later (mem_cons_of_mem _ member)]
    exact quiet closing results
  | cons record rest ih =>
    have later : unanswered (rest ++ closing) = overtaken rest := by
      apply ih
      intro call member
      apply closed call
      unfold unanswered
      split
      · exact mem_cons_of_mem _ member
      · exact member
    rw [cons_append, unanswered, overtaken, later]
    cases call : record.isCall with
    | false => simp
    | true =>
      cases next : nextOf record.draft.run rest with
      | some follower =>
        have tool := find?_some next
        have still : answeredNext record (rest ++ closing) = follower.isResult := by
          simp [answeredNext, nextOf_append, next]
        cases other : follower.isCall with
        | true => simp [still, other, EventRecord.not_isResult_of_isCall other]
        | false =>
          have result : follower.isResult = true := by
            simp only [other, Bool.false_or, Bool.and_eq_true] at tool
            exact tool.2
          simp [still, other, result]
      | none =>
        have reported : record ∈ unanswered (record :: rest) := by
          simp [unanswered, call, answeredNext, next]
        obtain ⟨answer, inside, run⟩ := closed record reported
        have answered : answeredNext record (rest ++ closing) = true := by
          rw [answeredNext, nextOf_append, next, Option.none_or]
          cases first : nextOf record.draft.run closing with
          | none =>
            have missed := find?_eq_none.mp first answer inside
            simp [run, results answer inside] at missed
          | some found =>
            exact results found (mem_of_find?_eq_some first)
        simp [answered]

end Reported

end DanglingCalls

section Verified

variable {Hash : Type} [DecidableEq Hash]

/-- The records an observer is handed while lines are checked; a line of a newer vocabulary is
passed over. -/
def observed {Record : Type} (codec : Codec Hash Record) :
    LineCheck Hash → List Bytes → Except LineFault (List Record)
  | _, [] => .ok []
  | check, raw :: rest => do
      let (checked, after) ← check.advance codec raw
      let records ← observed codec after rest
      match checked with
      | .known record => .ok (record :: records)
      | .ignoredUnknown _ => .ok records

variable {wire : Wire Hash EventDraft}

theorem seq_of_known (lawful : wire.Lawful) {check after : LineCheck Hash} {raw : Bytes}
    {record : RunRecord Hash} (passed : check.advance wire.toCodec raw = .ok (.known record, after)) :
    record.seq = check.expected := by
  obtain ⟨judged, -⟩ := advance_eq_ok.mp passed
  unfold LineCheck.judge readableEnvelope at judged
  cases read : wire.envelope raw with
  | error e => simp [read] at judged
  | ok envelope =>
    -- Whatever the version, the line is read back through its canonical form.
    have known : envelope.seq = check.expected ∧ classify wire.toCodec envelope raw = .ok (.known record) := by
      cases version : readableLogV envelope.v <;> simp only [read, version] at judged
      all_goals first
        | cases judged
        | (cases kind : classify wire.toCodec envelope raw with
           | error fault => simp [kind] at judged
           | ok checked =>
             simp only [kind, Except.ok.injEq, Judged.mk.injEq] at judged
             exact ⟨judged.1, by rw [judged.2.2]⟩)
    obtain ⟨placed, classified⟩ := known
    unfold classify at classified
    split at classified
    · obtain ⟨parsed, canonical, same⟩ := Outcome.map_eq_ok.mp classified
      cases same
      unfold canonicalRecord at canonical
      cases typed : wire.parseLine raw with
      | error e => simp [typed] at canonical
      | ok found =>
        simp only [typed] at canonical
        cases written : wire.canonicalLine found with
        | error e => simp [written] at canonical
        | ok echo =>
          simp only [written] at canonical
          split at canonical
          · cases canonical
          · next equal =>
              cases canonical
              have echoed : echo = raw := by simpa using equal
              obtain ⟨ig, envelopes⟩ := lawful.line_envelope written
              rw [echoed, read] at envelopes
              cases envelopes
              exact placed
    · split at classified <;> cases classified

theorem observed_ascending (lawful : wire.Lawful) {check : LineCheck Hash} {lines : List Bytes}
    {records : List (RunRecord Hash)} (passed : observed wire.toCodec check lines = .ok records) :
    (records.Pairwise fun first second => first.seq.value < second.seq.value) ∧
      ∀ record ∈ records, check.expected.value ≤ record.seq.value := by
  induction lines generalizing check records with
  | nil =>
    cases passed
    exact ⟨List.Pairwise.nil, by simp⟩
  | cons raw rest ih =>
    obtain ⟨⟨checked, after⟩, advanced, passed⟩ := Outcome.bind_eq_ok.mp passed
    obtain ⟨later, taken, passed⟩ := Outcome.bind_eq_ok.mp passed
    obtain ⟨ascending, above⟩ := ih taken
    have stepped := Seq.next_eq_ok.mp (advance_eq_ok.mp advanced).2.1
    cases checked with
    | ignoredUnknown seq =>
      cases passed
      exact ⟨ascending, fun record member => by have := above record member; omega⟩
    | known record =>
      cases passed
      have here := congrArg Seq.value (seq_of_known lawful advanced)
      constructor
      · rw [pairwise_cons]
        exact ⟨fun other member => by have := above other member; omega, ascending⟩
      · intro other member
        rcases mem_cons.mp member with same | inside
        · rw [same, here]
        · have := above other inside
          omega

/-- The records of a ledger whose lines verify from genesis. -/
def VerifiedRecords.ofLines (lawful : wire.Lawful) {lines : List Bytes}
    {records : List (RunRecord Hash)}
    (passed : observed wire.toCodec (LineCheck.atGenesis wire.toCodec) lines = .ok records) :
    VerifiedRecords Hash :=
  ⟨records, (observed_ascending lawful passed).1⟩

end Verified

section Repair

variable {Hash : Type} {spelling : PayloadSpelling}

theorem outcomeUnknownDraft_spec {call : RunRecord Hash} {draft : EventDraft}
    (drafted : outcomeUnknownDraft spelling call = .ok draft) {answer : RunRecord Hash}
    (same : answer.draft = draft) :
    answer.isResult = true ∧ answer.draft.run = call.draft.run ∧ answer.toolId = call.toolId := by
  unfold outcomeUnknownDraft at drafted
  split at drafted
  · split at drafted
    · next called subject effect render line =>
        obtain ⟨payload, -, drafted⟩ := Outcome.bind_eq_ok.mp drafted
        cases drafted
        refine ⟨?_, by rw [same], ?_⟩
        · simp [EventRecord.isResult, same, Line.kind]
        · simp [EventRecord.toolId, same, line]
    · cases drafted
  · cases drafted

/-- The start-up scan's repair: the drafts of every call found, appended in order. -/
def Repairs (spelling : PayloadSpelling) (ledger extended : VerifiedRecords Hash)
    (closing : List (RunRecord Hash)) : Prop :=
  (DanglingCalls.found ledger.records).mapM (outcomeUnknownDraft spelling) =
      .ok (closing.map EventRecord.draft) ∧
    extended.records = ledger.records ++ closing

variable {ledger extended : VerifiedRecords Hash} {closing : List (RunRecord Hash)}

variable (repaired : Repairs spelling ledger extended closing)

include repaired

theorem Repairs.results :
    ∀ answer ∈ closing, answer.isResult = true := by
  intro answer member
  obtain ⟨call, -, drafted⟩ := (Outcome.mapM_paired repaired.1).2 answer.draft (mem_map_of_mem member)
  exact (outcomeUnknownDraft_spec drafted rfl).1

theorem Repairs.closes :
    ∀ call ∈ DanglingCalls.found ledger.records, ∃ answer ∈ closing,
      answer.isResult = true ∧ answer.draft.run = call.draft.run ∧ answer.toolId = call.toolId := by
  intro call member
  obtain ⟨draft, inside, drafted⟩ := (Outcome.mapM_paired repaired.1).1 call member
  obtain ⟨answer, placed, same⟩ := mem_map.mp inside
  exact ⟨answer, placed, outcomeUnknownDraft_spec drafted same⟩

theorem found_repaired :
    DanglingCalls.found extended.records = DanglingCalls.overtaken ledger.records := by
  rw [DanglingCalls.found_eq, repaired.2]
  apply DanglingCalls.unanswered_append_results repaired.results
  intro call member
  rw [← DanglingCalls.found_eq] at member
  obtain ⟨answer, inside, -, run, -⟩ := repaired.closes call member
  exact ⟨answer, inside, run⟩

omit repaired

/-- The start-up scan finds each call its run does not follow with a result next, once and in the
order of the ledger; the repair gives each a result of its id in its run, and where no run followed
a call with another before any result, the next scan finds nothing. -/
theorem startupScan_repairs (spelling : PayloadSpelling) (ledger : VerifiedRecords Hash) :
    DanglingCalls.found ledger.records = DanglingCalls.unanswered ledger.records ∧
      ∀ (extended : VerifiedRecords Hash) (closing : List (RunRecord Hash)),
        Repairs spelling ledger extended closing →
          (∀ call ∈ DanglingCalls.found ledger.records, ∃ answer ∈ closing,
            answer.isResult = true ∧ answer.draft.run = call.draft.run ∧
              answer.toolId = call.toolId) ∧
          (DanglingCalls.overtaken ledger.records = [] →
            DanglingCalls.found extended.records = []) := by
  refine ⟨DanglingCalls.found_eq ledger, fun extended closing repaired => ⟨repaired.closes, ?_⟩⟩
  intro none
  rw [found_repaired repaired, none]

section Crossing

/-- The record at a seq of a call or an answer of the city's run. -/
def toolRecord (seq : Nat) (lt : seq < 2 ^ 64) (line : Line) : RunRecord Unit :=
  { v := eventLogV
    seq := ⟨seq, lt⟩
    prev := ()
    draft := {
      run := RunId.city
      who := "resident".toList
      addr := none
      line } }

def callOf (id : String) : Line :=
  .toolCalled ⟨id.toList, .exec, .obj []⟩ none none none

def answerOf (id : String) : Line :=
  .toolResult id.toList .exec (.answered (.obj [])) none none

def plainSpelling : PayloadSpelling where
  ofError error := .ok (.obj [("code", .str error.code.spelling.toList)])
  unread _ := "missing field `id`"

/-- A run whose second call goes unanswered. -/
def leftOpenLedger : VerifiedRecords Unit where
  records := [toolRecord 0 Seq.zero_fits (callOf "a"), toolRecord 1 Seq.one_fits (answerOf "a"),
    toolRecord 2 Seq.two_fits (callOf "b")]
  ascending := by decide

/-- Two calls of one run, answered in their order after both were made. -/
def crossingLedger : VerifiedRecords Unit where
  records := [toolRecord 0 Seq.zero_fits (callOf "a"), toolRecord 1 Seq.one_fits (callOf "b"),
    toolRecord 2 Seq.two_fits (answerOf "a"), toolRecord 3 Seq.three_fits (answerOf "b")]
  ascending := by decide

def unknownOf (seq : Nat) (lt : seq < 2 ^ 64) (id : String) : RunRecord Unit :=
  toolRecord seq lt (.toolResult id.toList .exec
    (.failed (.obj [("code", .str "E_TOOL_OUTCOME_UNKNOWN".toList)])) (some .v3) none)

def leftOpenRepaired : VerifiedRecords Unit where
  records := leftOpenLedger.records ++ [unknownOf 3 Seq.three_fits "b"]
  ascending := by decide

def crossingRepaired : VerifiedRecords Unit where
  records := crossingLedger.records ++ [unknownOf 4 Seq.four_fits "a"]
  ascending := by decide

theorem startupScan_repairs_leftOpen :
    DanglingCalls.found leftOpenLedger.records = [toolRecord 2 (by decide) (callOf "b")] ∧
      DanglingCalls.found leftOpenRepaired.records = [] := by
  have scan := startupScan_repairs plainSpelling leftOpenLedger
  have reported : DanglingCalls.found leftOpenLedger.records =
      [toolRecord 2 (by decide) (callOf "b")] := scan.1.trans (by decide)
  refine ⟨reported, ?_⟩
  refine (scan.2 leftOpenRepaired [unknownOf 3 (by decide) "b"] ⟨?_, rfl⟩).2 (by decide)
  rw [reported]
  rfl

/-- Both calls have a later result of their id, and the first is found, before the repair and after
it. -/
theorem found_of_crossing :
    DanglingCalls.unansweredById crossingLedger.records = [] ∧
      DanglingCalls.found crossingLedger.records = [toolRecord 0 (by decide) (callOf "a")] ∧
      Repairs plainSpelling crossingLedger crossingRepaired [unknownOf 4 (by decide) "a"] ∧
      DanglingCalls.found crossingRepaired.records = [toolRecord 0 (by decide) (callOf "a")] := by
  have reported : DanglingCalls.found crossingLedger.records =
      [toolRecord 0 (by decide) (callOf "a")] :=
    (DanglingCalls.found_eq crossingLedger).trans (by decide)
  refine ⟨by decide, reported, ⟨?_, rfl⟩, ?_⟩
  · rw [reported]
    rfl
  · exact (DanglingCalls.found_eq crossingRepaired).trans (by decide)

end Crossing

end Repair

end Sprawling
