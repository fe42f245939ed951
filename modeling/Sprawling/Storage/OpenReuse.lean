import Sprawling.Storage.OpenCalm
import Sprawling.Storage.ProveChain

/-! Opening a ledger with records of earlier proofs, against opening it line by line. -/

namespace Sprawling

open List Lines ChainAudit Reading CityWire Site LineCheck Effect Digest

/-- What an open leaves behind: the surviving lines, the bytes dropped, and the position. -/
structure Opened (Hash : Type) where
  lines : List Bytes
  recovered : Option Nat
  segPath : FileName
  segLen : Nat
  nextSeq : Seq
  prev : Hash
deriving DecidableEq

namespace Open

variable {Hash Draft : Type}

/-- An open as its caller sees it; a refusal shows nothing. -/
def shown (ran : Except StorageError OpenReport × Site Hash) : Option (Opened Hash) :=
  match ran.1 with
  | .error _ => none
  | .ok report =>
    some
      { lines := JsonlLedger.readRawLines ran.2
        recovered := report.recovered
        segPath := ran.2.ledger.segPath
        segLen := ran.2.ledger.segLen
        nextSeq := ran.2.ledger.nextSeq
        prev := ran.2.ledger.prev }

variable [DecidableEq Hash]

/-- The ledger in `dir` opened on a disk without faults. -/
def opened (wire : Wire Hash Draft) (now : Nat) (proof : TailProof Hash) (dir : Directory) :
    Option (Opened Hash) :=
  shown ((openThrough wire now proof).run (ofDirectory dir (unopened wire)))

/-- A record that is taken in place of the segment's first bytes. -/
structure Standing (wire : Wire Hash Draft) (version : Nat) (held : ProofRecords Hash)
    (last : FileName × Bytes) (entry : LineCheck Hash) (record : SegmentRecord Hash) : Prop where
  stored : held.read last.1 = some record
  current : record.version = version
  fits : record.len ≤ last.2.length
  entered : record.entry = entry
  hashed : wire.blake3 (last.2.take record.len) = record.digest

variable {wire : Wire Hash Draft}

omit [DecidableEq Hash] in
theorem hashWindows_eq {content : Bytes} {length : Nat} (fits : length ≤ content.length)
    (fuel done : Nat) (within : done ≤ length) (enough : length < done + fuel) :
    hashWindows content length fuel (content.take done) = some (content.take length) := by
  induction fuel generalizing done with
  | zero => omega
  | succ fuel ih =>
    have size : (content.take done).length = done := length_take_of_le (by omega)
    rw [hashWindows, size]
    by_cases more : done < length
    · rw [if_pos more]
      generalize step : min scanWindowBytes (length - done) = window
      have positive : 0 < window := by
        have wide : 0 < scanWindowBytes := by decide
        omega
      have bound : done + window ≤ length := by omega
      have chunk : content.take done ++ readAt content done window =
          content.take (done + window) := by
        rw [readAt, take_add]
      have some : (readAt content done window).isEmpty = false := by
        rw [isEmpty_eq_false_iff, ← length_pos_iff, readAt, length_take, length_drop]
        omega
      simp only [some, Bool.false_eq_true, if_false]
      rw [chunk]
      exact ih (done + window) bound (by omega)
    · rw [if_neg more, show done = length by omega]

/-- Checking starts behind a standing record, and at the segment's first byte without one. -/
theorem tailStart_cases (wire : Wire Hash Draft) (version : Nat) (held : ProofRecords Hash)
    (last : FileName × Bytes) (entry : LineCheck Hash) :
    (∃ record, Standing wire version held last entry record ∧
      (tailStart wire version held last entry).start = record.len ∧
      (tailStart wire version held last entry).check = record.exit) ∨
    ((∀ record, ¬ Standing wire version held last entry record) ∧
      (tailStart wire version held last entry).start = 0 ∧
      (tailStart wire version held last entry).check = entry) := by
  unfold tailStart
  cases stored : held.read last.1 with
  | none =>
    right
    refine ⟨fun record standing => ?_, rfl, rfl⟩
    have absent := standing.stored
    rw [stored] at absent
    cases absent
  | some record =>
    have same : ∀ other, Standing wire version held last entry other → other = record := by
      intro other standing
      exact Option.some.inj (standing.stored.symm.trans stored)
    simp only [SegmentRecord.prefixLength]
    by_cases permitted : record.version = version ∧ record.len ≤ last.2.length
    · rw [if_pos permitted]
      simp only
      by_cases placed : record.entry = entry
      · have windows := hashWindows_eq permitted.2 (record.len + 1) 0 (Nat.zero_le _) (by omega)
        rw [take_zero] at windows
        simp only [placed, ne_eq, not_true_eq_false, if_false, windows, SegmentRecord.stands,
          true_and]
        by_cases hashed : wire.blake3 (last.2.take record.len) = record.digest
        · left
          simp only [hashed, if_true]
          exact ⟨record, ⟨stored, permitted.1, permitted.2, placed, hashed⟩, rfl, rfl⟩
        · right
          simp only [hashed, if_false]
          refine ⟨fun other standing => ?_, rfl, rfl⟩
          rw [same other standing] at standing
          exact hashed standing.hashed
      · right
        simp only [ne_eq, placed, not_false_eq_true, if_true]
        refine ⟨fun other standing => ?_, rfl, rfl⟩
        rw [same other standing] at standing
        exact placed standing.entered
    · right
      rw [if_neg permitted]
      refine ⟨fun other standing => ?_, rfl, rfl⟩
      rw [same other standing] at standing
      exact permitted ⟨standing.current, standing.fits⟩

section Examine

variable {segments : List (FileName × Bytes)} {last : FileName × Bytes} {bound : TailBoundary Hash}
  {proof : TailProof Hash}

/-- What examining the tail answers when its lines split. -/
theorem examine_of_splits (lawful : wire.Lawful) (entering : boundary wire segments last.1 = .ok bound)
    {good junk : List Bytes} {after : LineCheck Hash}
    (fits : (proof.start wire last bound.check).start ≤ last.2.length)
    (split : Splits wire (proof.start wire last bound.check).check
      (complete newline (last.2.drop (proof.start wire last bound.check).start))
      good junk after) :
    ∃ counted, examineTail wire segments last proof = .ok
      { check := after
        keep := (proof.start wire last bound.check).start + (join newline good).length
        dropped := recordsEnd (last.2.drop (proof.start wire last bound.check).start) -
          (join newline good).length
        total := last.2.length
        prior := bound.prior
        counted } := by
  unfold examineTail
  simp only [entering]
  generalize proof.start wire last bound.check = from_ at fits split
  rcases scan_of_splits lawful split last.1 from_.lines from_.counted.linesChecked with
    ⟨ended, scanned, checked, valid, total, filled⟩
  rw [scanned]
  have whole : ended.total = last.2.length := by
    rw [total, length_drop]
    omega
  have dropped : ended.filled - ended.seen.validLen =
      recordsEnd (last.2.drop from_.start) - (join newline good).length := by
    rw [filled, valid, filledAfter_eq]
    omega
  simp only [checked, whole, dropped]
  simp only [valid]
  exact ⟨_, rfl⟩

theorem examine_of_unsplit (lawful : wire.Lawful) (entering : boundary wire segments last.1 = .ok bound)
    (never : ∀ good junk after, ¬ Splits wire (proof.start wire last bound.check).check
      (complete newline (last.2.drop (proof.start wire last bound.check).start))
      good junk after) :
    ∃ e, examineTail wire segments last proof = .error e := by
  unfold examineTail
  simp only [entering]
  generalize proof.start wire last bound.check = from_ at never
  rcases scan_of_unsplit lawful never last.1 from_.lines from_.counted.linesChecked with
    ⟨e, refused⟩
  rw [refused]
  exact ⟨e, rfl⟩

end Examine

section Shown

variable {now : Nat} {proof : TailProof Hash} {dir : Directory} {last : FileName × Bytes}

theorem opened_of_refused (some : dir.segments.getLast? = some last)
    (probed : probeVersion wire dir.segments = .ok ()) {e : StorageError}
    (refused : examineTail wire dir.segments last proof = .error e) :
    opened wire now proof dir = none := by
  have same := directory_ofDirectory dir (unopened wire)
  rw [opened, run_open_unexamined (by rw [same]; exact some) (by rw [same]; exact probed)
    (by rw [same]; exact refused)]
  rfl

variable {found : TailFound Hash}

theorem opened_of_examined (some : dir.segments.getLast? = some last)
    (probed : probeVersion wire dir.segments = .ok ())
    (examined : examineTail wire dir.segments last proof = .ok found) :
    opened wire now proof dir =
      shown ((conclude wire now last.1 found).run (ofDirectory dir (unopened wire))) := by
  have same := directory_ofDirectory dir (unopened wire)
  rw [opened, run_open_examined (by rw [same]; exact some) (by rw [same]; exact probed)
    (by rw [same]; exact examined)]
  rfl

omit [DecidableEq Hash] in
theorem shown_report_counted (dropped : Nat) (counted other : ProofCount) (site : Site Hash) :
    shown ((reportRecovery wire now dropped counted).run site) =
      shown ((reportRecovery wire now dropped other).run site) := by
  unfold reportRecovery
  split
  · simp only [run_bind, run_look]
    split
    · simp only [run_bind]
      cases (JsonlLedger.appendLogTruncated wire now dropped).run site with
      | mk answer after => cases answer <;> rfl
    · rfl
  · rfl

omit [DecidableEq Hash] in
theorem shown_conclude_counted (found : TailFound Hash) (other : ProofCount) (site : Site Hash) :
    shown ((conclude wire now last.1 { found with counted := other }).run site) =
      shown ((conclude wire now last.1 found).run site) := by
  unfold conclude
  simp only [run_bind]
  have settled : (settleTail last.1 { found with counted := other }).run site =
      (settleTail last.1 found).run site := rfl
  rw [settled]
  cases (settleTail last.1 found).run site with
  | mk answer after =>
    cases answer with
    | error e => rfl
    | ok _ => exact shown_report_counted _ _ _ _

theorem mem_of_last (some : dir.segments.getLast? = some last) :
    dir[last.1]? = Option.some last.2 := by
  have member := mem_of_getLast? some
  have listed := (mem_filter.mp member).1
  exact Std.ExtTreeMap.mem_toList_iff_getElem?_eq_some.mp listed

omit [DecidableEq Hash] in
theorem answers_settle (some : dir.segments.getLast? = some last) (total : found.total = last.2.length) :
    ∃ middle, (settleTail last.1 found).run (ofDirectory dir (unopened wire)) = (.ok (), middle) ∧
      middle.Calm ∧ Fresh middle ∧ middle.ledger.nextSeq = found.check.expected := by
  have calm : (ofDirectory dir (unopened wire)).Calm := rfl
  have present : (ofDirectory dir (unopened wire)).directory[last.1]? = Option.some last.2 := by
    rw [directory_ofDirectory]
    exact mem_of_last some
  rcases answers_settleTail calm present total with ⟨middle, ran, quiet, -, writer⟩
  refine ⟨middle, ran, quiet, ?_, by rw [writer]; rfl⟩
  rw [Fresh, writer]
  exact ⟨rfl, rfl⟩

theorem opened_of_room (lawful : wire.Lawful) (some : dir.segments.getLast? = some last)
    (probed : probeVersion wire dir.segments = .ok ())
    (examined : examineTail wire dir.segments last proof = .ok found)
    (total : found.total = last.2.length)
    (room : found.dropped = 0 ∨ found.check.expected ≠ Seq.last) :
    ∃ answer, opened wire now proof dir = Option.some answer ∧
      answer.recovered = if found.dropped > 0 then Option.some found.dropped else none := by
  rw [opened_of_examined some probed examined, conclude]
  rcases answers_settle some total with ⟨middle, ran, quiet, fresh, next⟩
  have report : ∃ after, (reportRecovery wire now found.dropped found.counted).run middle = (.ok
      { recovered := if found.dropped > 0 then Option.some found.dropped else none
        counted := found.counted }, after) :=
    answers_reportRecovery lawful quiet fresh (by rw [next]; exact room)
  rcases report with ⟨after, reported⟩
  rw [run_bind_ok ran, reported]
  exact ⟨_, rfl, rfl⟩

theorem opened_of_exhausted (lawful : wire.Lawful) (some : dir.segments.getLast? = some last)
    (probed : probeVersion wire dir.segments = .ok ())
    (examined : examineTail wire dir.segments last proof = .ok found)
    (total : found.total = last.2.length) (owed : found.dropped > 0)
    (exhausted : found.check.expected = Seq.last) : opened wire now proof dir = none := by
  rw [opened_of_examined some probed examined, conclude]
  rcases answers_settle some total with ⟨middle, ran, quiet, fresh, next⟩
  have report : Refuses (reportRecovery wire now found.dropped found.counted) middle :=
    refuses_reportRecovery lawful quiet fresh owed (next.trans exhausted)
  rcases report with ⟨e, after, refused⟩
  rw [run_bind_ok ran, refused]
  rfl

end Shown

section Prefix

variable {entry : LineCheck Hash}

theorem prefix_of_standing (injective : Function.Injective wire.blake3) {version : Nat}
    {held : ProofRecords Hash} {last : FileName × Bytes} {record : SegmentRecord Hash}
    (standing : Standing wire version held last entry record)
    (sound : ChainAudit.Sound wire.toCodec record) :
    Lines.tail newline (last.2.take record.len) = [] ∧
      entry.advanceAll wire.toCodec (segmentLines (last.2.take record.len)) =
        .ok record.exit := by
  rcases sound with ⟨bytes, digest, -, ended, -, led⟩
  have same : last.2.take record.len = bytes := injective (standing.hashed.trans digest)
  rw [same, ← standing.entered]
  exact ⟨ended, advanceAll_of_strict (led 0 (Nat.zero_le _))⟩

omit [DecidableEq Hash] in
theorem blank_torn (lawful : wire.Lawful) : carriesEnvelope wire.toCodec [] = false := by
  cases carried : carriesEnvelope wire.toCodec [] with
  | false => rfl
  | true =>
    unfold carriesEnvelope at carried
    cases read : wire.envelope [] with
    | ok envelope => exact absurd rfl (lawful.envelope_bytes read).1
    | error e =>
      simp only [reverse_nil, takeWhile_nil, read] at carried
      cases carried

theorem splits_blank (lawful : wire.Lawful) {middle after : LineCheck Hash}
    {front back good junk : List Bytes} (lead : entry.advanceAll wire.toCodec front = .ok middle)
    (split : Splits wire entry (front ++ [] :: back) good junk after) :
    good = front ∧ after = middle ∧
      ∀ line ∈ back, carriesEnvelope wire.toCodec line = false := by
  rcases splits_of_append lawful lead split with ⟨rest, rfl, deeper⟩
  cases rest with
  | nil =>
    refine ⟨append_nil front, (Except.ok.inj deeper.chain).symm, fun line member => ?_⟩
    have cut : [] :: back = junk := deeper.cut
    exact deeper.torn line (cut ▸ mem_cons_of_mem _ member)
  | cons first rest =>
    have same := deeper.cut
    rw [cons_append, List.cons.injEq] at same
    have carried := carriesEnvelope_of_advanceAll lawful deeper.chain first mem_cons_self
    rw [← same.1, blank_torn lawful] at carried
    cases carried

theorem nil_of_torn (lawful : wire.Lawful) {after : LineCheck Hash} {lines : List Bytes}
    (passed : entry.advanceAll wire.toCodec lines = .ok after)
    (torn : ∀ line ∈ lines, carriesEnvelope wire.toCodec line = false) : lines = [] := by
  cases lines with
  | nil => rfl
  | cons line lines =>
    have carried := carriesEnvelope_of_advanceAll lawful passed line mem_cons_self
    rw [torn line mem_cons_self] at carried
    cases carried

end Prefix

/-- What follows a recorded prefix can be resumed: its lines continue the chain and then are torn
writes, and a seq is left for the record of the bytes dropped. -/
def Resumable (wire : Wire Hash Draft) (exit : LineCheck Hash) (rest : Bytes) : Prop :=
  ∃ good junk after, Splits wire exit (complete newline rest) good junk after ∧
    (recordsEnd rest - (join newline good).length = 0 ∨ after.expected ≠ Seq.last)

/-- No record that stands for the start of the last segment covers an empty line, unless what
follows it cannot be resumed. -/
def ReusesNoBlank (wire : Wire Hash Draft) (version : Nat) (held : ProofRecords Hash)
    (dir : Directory) : Prop :=
  ∀ last bound record, dir.segments.getLast? = some last →
    probeVersion wire dir.segments = .ok () → boundary wire dir.segments last.1 = .ok bound →
    Standing wire version held last bound.check record →
    [] ∉ complete newline (last.2.take record.len) ∨
      ¬ Resumable wire record.exit (last.2.drop record.len)

section Reuse

variable {dir : Directory} {last : FileName × Bytes} {bound : TailBoundary Hash} {version : Nat}
  {held : ProofRecords Hash} {record : SegmentRecord Hash} {now : Nat}

/-- A last segment taken up behind a record, whose bytes end at a line. -/
structure Reused (wire : Wire Hash Draft) (dir : Directory) (last : FileName × Bytes)
    (bound : TailBoundary Hash) (version : Nat) (held : ProofRecords Hash)
    (record : SegmentRecord Hash) : Prop where
  some : dir.segments.getLast? = some last
  probed : probeVersion wire dir.segments = .ok ()
  entering : boundary wire dir.segments last.1 = .ok bound
  fits : record.len ≤ last.2.length
  start : (tailStart wire version held last bound.check).start = record.len
  check : (tailStart wire version held last bound.check).check = record.exit
  ended : Lines.tail newline (last.2.take record.len) = []
  led : bound.check.advanceAll wire.toCodec (segmentLines (last.2.take record.len)) =
    .ok record.exit

namespace Reused

variable (reused : Reused wire dir last bound version held record)

include reused

theorem whole_prefix :
    join newline (complete newline (last.2.take record.len)) =
      last.2.take record.len := by
  have joined : Lines.whole newline (last.2.take record.len) ++ _ = _ :=
    whole_append_tail (last.2.take record.len)
  rw [reused.ended, append_nil] at joined
  exact joined

theorem complete_content :
    complete newline last.2 = complete newline (last.2.take record.len) ++
      complete newline (last.2.drop record.len) := by
  rw [← complete_append_of_tail_nil reused.ended, take_append_drop]

theorem recordsEnd_content :
    recordsEnd last.2 = record.len + recordsEnd (last.2.drop record.len) := by
  have split := recordsEnd_join_append
    (complete newline (last.2.take record.len)) (last.2.drop record.len)
  rw [reused.whole_prefix, take_append_drop, length_take_of_le reused.fits] at split
  exact split

variable {good junk : List Bytes} {after : LineCheck Hash}

theorem behind :
    ((TailProof.records version held).start wire last bound.check).start = record.len ∧
      ((TailProof.records version held).start wire last bound.check).check = record.exit :=
  ⟨reused.start, reused.check⟩

variable (lawful : wire.Lawful)

include lawful

theorem examined
    (split : Splits wire record.exit (complete newline (last.2.drop record.len)) good junk after) :
    ∃ counted, examineTail wire dir.segments last (.records version held) = .ok
      { check := after
        keep := record.len + (join newline good).length
        dropped := recordsEnd (last.2.drop record.len) - (join newline good).length
        total := last.2.length
        prior := bound.prior
        counted } := by
  obtain ⟨start, check⟩ := reused.behind
  rw [← start, ← check] at split
  have found := examine_of_splits lawful reused.entering (by rw [start]; exact reused.fits) split
  rw [start] at found
  exact found

theorem unexamined (never : ∀ good junk after, ¬ Splits wire record.exit
      (complete newline (last.2.drop record.len)) good junk after) :
    opened wire now (.records version held) dir = none := by
  obtain ⟨start, check⟩ := reused.behind
  rw [← start, ← check] at never
  rcases examine_of_unsplit lawful reused.entering never with ⟨e, refused⟩
  exact opened_of_refused reused.some reused.probed refused

theorem examined_strict
    (split : Splits wire bound.check (complete newline last.2) good junk after) :
    ∃ counted, examineTail wire dir.segments last .strict = .ok
      { check := after
        keep := (join newline good).length
        dropped := recordsEnd last.2 - (join newline good).length
        total := last.2.length
        prior := bound.prior
        counted } := by
  have start : (TailProof.strict.start wire last bound.check).start = 0 := rfl
  have check : (TailProof.strict.start wire last bound.check).check = bound.check := rfl
  rw [← check, ← drop_zero (l := last.2), ← start] at split
  have found := examine_of_splits lawful reused.entering (by rw [start]; exact Nat.zero_le _) split
  rw [start, Nat.zero_add, drop_zero] at found
  exact found

theorem unexamined_strict (never : ∀ good junk after,
      ¬ Splits wire bound.check (complete newline last.2) good junk after) :
    opened wire now .strict dir = none := by
  have refusal : ∃ e, examineTail wire dir.segments last .strict = .error e :=
    examine_of_unsplit lawful reused.entering never
  rcases refusal with ⟨e, refused⟩
  exact opened_of_refused reused.some reused.probed refused

theorem alike_of_no_blank (filled : [] ∉ complete newline (last.2.take record.len)) :
    opened wire now (.records version held) dir = opened wire now .strict dir := by
  have lines : segmentLines (last.2.take record.len) =
      complete newline (last.2.take record.len) := by
    rw [segmentLines, filter_eq_self]
    intro line member
    cases line with
    | nil => exact absurd member filled
    | cons byte line => rfl
  have led := reused.led
  rw [lines] at led
  by_cases splits : ∃ good junk after, Splits wire record.exit
      (complete newline (last.2.drop record.len)) good junk after
  · rcases splits with ⟨good, junk, after, split⟩
    have strict := splits_append led split
    rw [← reused.complete_content] at strict
    rcases reused.examined lawful split with ⟨counted, found⟩
    rcases reused.examined_strict lawful strict with ⟨counted', found'⟩
    have length : (join newline
        (complete newline (last.2.take record.len) ++ good)).length =
          record.len + (join newline good).length := by
      rw [join_append, length_append, reused.whole_prefix, length_take_of_le reused.fits]
    have dropped : recordsEnd last.2 - (record.len + (join newline good).length) =
        recordsEnd (last.2.drop record.len) - (join newline good).length := by
      rw [reused.recordsEnd_content]
      omega
    rw [length, dropped] at found'
    rw [opened_of_examined reused.some reused.probed found,
      opened_of_examined reused.some reused.probed found']
    exact shown_conclude_counted
      { check := after
        keep := record.len + (join newline good).length
        dropped := recordsEnd (last.2.drop record.len) - (join newline good).length
        total := last.2.length
        prior := bound.prior
        counted := counted' } counted _
  · have never : ∀ good junk after, ¬ Splits wire record.exit
        (complete newline (last.2.drop record.len)) good junk after :=
      fun good junk after split => splits ⟨good, junk, after, split⟩
    rw [reused.unexamined lawful never]
    refine (reused.unexamined_strict lawful fun good junk after split => ?_).symm
    rw [reused.complete_content] at split
    rcases splits_of_append lawful led split with ⟨rest, -, deeper⟩
    exact never rest junk after deeper

theorem strict_of_blank (blank : [] ∈ complete newline (last.2.take record.len))
    (split : Splits wire bound.check (complete newline last.2) good junk after) :
    after = record.exit ∧ (join newline good).length < record.len ∧
      Splits wire record.exit (complete newline (last.2.drop record.len)) []
        (complete newline (last.2.drop record.len)) record.exit := by
  rcases eq_append_cons_of_mem blank with ⟨front, back, shape, filled⟩
  have kept : (front.filter fun line => !line.isEmpty) = front := by
    rw [filter_eq_self]
    intro line member
    cases line with
    | nil => exact absurd member filled
    | cons byte line => rfl
  have led := reused.led
  rw [segmentLines, shape, filter_append, kept,
    filter_cons_of_neg (by simp)] at led
  rcases advanceAll_append.mp led with ⟨middle, lead, later⟩
  rw [reused.complete_content, shape, append_assoc, cons_append] at split
  rcases splits_blank lawful lead split with ⟨rfl, rfl, torn⟩
  have bare : (back.filter fun line => !line.isEmpty) = [] := by
    apply nil_of_torn lawful later
    intro line member
    exact torn line (mem_append_left _ (mem_filter.mp member).1)
  rw [bare] at later
  have same : after = record.exit := Except.ok.inj later
  refine ⟨same, ?_, rfl, rfl, fun line member => torn line (mem_append_right _ member)⟩
  have length := congrArg List.length reused.whole_prefix
  rw [shape, join_append, length_append, length_take_of_le reused.fits, join_cons] at length
  simp only [length_append, length_cons] at length
  omega

omit lawful

theorem strict_owes {front : List Bytes}
    (short : (join newline front).length < record.len) :
    recordsEnd last.2 - (join newline front).length >
      recordsEnd (last.2.drop record.len) := by
  rw [reused.recordsEnd_content]
  omega

theorem refused_of_stuck
    (lawful : wire.Lawful) (stuck : ¬ Resumable wire record.exit (last.2.drop record.len)) :
    opened wire now (.records version held) dir = none := by
  by_cases splits : ∃ good junk after, Splits wire record.exit
      (complete newline (last.2.drop record.len)) good junk after
  · rcases splits with ⟨good, junk, after, split⟩
    rcases reused.examined lawful split with ⟨counted, found⟩
    have owed : ¬ (recordsEnd (last.2.drop record.len) -
        (join newline good).length = 0 ∨ after.expected ≠ Seq.last) :=
      fun room => stuck ⟨good, junk, after, split, room⟩
    rw [not_or, not_not] at owed
    exact opened_of_exhausted lawful reused.some reused.probed found rfl
      (Nat.pos_of_ne_zero owed.1) owed.2
  · exact reused.unexamined lawful
      fun good junk after split => splits ⟨good, junk, after, split⟩

theorem differ_of_resumable
    (lawful : wire.Lawful) (blank : [] ∈ complete newline (last.2.take record.len))
    (resumable : Resumable wire record.exit (last.2.drop record.len)) :
    opened wire now (.records version held) dir ≠ opened wire now .strict dir := by
  intro alike
  rcases resumable with ⟨good, junk, after, split, room⟩
  rcases reused.examined lawful split with ⟨counted, found⟩
  have success : ∃ answer, opened wire now (.records version held) dir = Option.some answer ∧ _ :=
    opened_of_room lawful reused.some reused.probed found rfl room
  rcases success with ⟨answer, answered, recovered⟩
  by_cases strict : ∃ front back other,
      Splits wire bound.check (complete newline last.2) front back other
  · rcases strict with ⟨front, back, other, strictly⟩
    rcases reused.strict_of_blank lawful blank strictly with ⟨rfl, short, torn⟩
    rcases splits_unique lawful split torn with ⟨rfl, -, rfl⟩
    rcases reused.examined_strict lawful strictly with ⟨counted', found'⟩
    have owes := reused.strict_owes short
    by_cases exhausted : record.exit.expected = Seq.last
    · have none : opened wire now .strict dir = Option.none :=
        opened_of_exhausted lawful reused.some reused.probed found' rfl (Nat.zero_lt_of_lt owes)
          exhausted
      rw [alike, none] at answered
      cases answered
    · have success : ∃ answer, opened wire now .strict dir = Option.some answer ∧ _ :=
        opened_of_room lawful reused.some reused.probed found' rfl (.inr exhausted)
      rcases success with ⟨answer', answered', recovered'⟩
      rw [alike, answered'] at answered
      cases answered
      simp only at recovered recovered'
      rw [recovered, if_pos (Nat.zero_lt_of_lt owes)] at recovered'
      by_cases dropped : recordsEnd (last.2.drop record.len) -
          (join newline []).length > 0
      · rw [if_pos dropped, Option.some.injEq] at recovered'
        omega
      · rw [if_neg dropped] at recovered'
        cases recovered'
  · have none : opened wire now .strict dir = Option.none :=
      reused.unexamined_strict lawful
        fun front back other strictly => strict ⟨front, back, other, strictly⟩
    rw [alike, none] at answered
    cases answered

theorem alike_of_stuck
    (lawful : wire.Lawful) (blank : [] ∈ complete newline (last.2.take record.len))
    (stuck : ¬ Resumable wire record.exit (last.2.drop record.len)) :
    opened wire now (.records version held) dir = opened wire now .strict dir := by
  rw [reused.refused_of_stuck lawful stuck]
  by_cases strict : ∃ front back other,
      Splits wire bound.check (complete newline last.2) front back other
  · rcases strict with ⟨front, back, other, strictly⟩
    rcases reused.strict_of_blank lawful blank strictly with ⟨rfl, short, torn⟩
    rcases reused.examined_strict lawful strictly with ⟨counted, found⟩
    have exhausted : record.exit.expected = Seq.last := by
      apply Classical.byContradiction
      intro room
      exact stuck ⟨[], _, _, torn, .inr room⟩
    exact (opened_of_exhausted lawful reused.some reused.probed found rfl
      (Nat.zero_lt_of_lt (reused.strict_owes short)) exhausted).symm
  · exact (reused.unexamined_strict lawful
      fun front back other strictly => strict ⟨front, back, other, strictly⟩).symm

end Reused

end Reuse

variable {dir : Directory} {proof : TailProof Hash} {now : Nat}

theorem opened_empty (empty : dir.segments.getLast? = none) :
    opened wire now proof dir = shown (.ok { recovered := none, counted := {} },
      ofDirectory dir (unopened wire)) := by
  have same := directory_ofDirectory dir (unopened wire)
  rw [opened, run_open_empty (by rw [same]; exact empty)]
  rfl

variable {last : FileName × Bytes} {e : StorageError}

theorem opened_unprobed (some : dir.segments.getLast? = some last)
    (refused : probeVersion wire dir.segments = .error e) : opened wire now proof dir = none := by
  have same := directory_ofDirectory dir (unopened wire)
  rw [opened, run_open_unprobed (by rw [same]; exact some) (by rw [same]; exact refused)]
  rfl

theorem opened_unbounded (some : dir.segments.getLast? = some last)
    (probed : probeVersion wire dir.segments = .ok ())
    (refused : boundary wire dir.segments last.1 = .error e) : opened wire now proof dir = none := by
  have failed : examineTail wire dir.segments last proof = .error e := by
    simp only [examineTail, refused]
  exact opened_of_refused some probed failed

theorem alike_of_unrecorded (lawful : wire.Lawful) {bound : TailBoundary Hash} {version : Nat}
    {held : ProofRecords Hash} (some : dir.segments.getLast? = some last)
    (probed : probeVersion wire dir.segments = .ok ())
    (entering : boundary wire dir.segments last.1 = .ok bound)
    (start : (tailStart wire version held last bound.check).start = 0)
    (check : (tailStart wire version held last bound.check).check = bound.check) :
    opened wire now (.records version held) dir = opened wire now .strict dir := by
  have unrecorded : ∀ counted, Reused wire dir last bound version held
      { version, len := 0, lines := 0, entry := bound.check, exit := bound.check
        digest := counted } := by
    intro digest
    exact ⟨some, probed, entering, Nat.zero_le _, start, check, rfl, rfl⟩
  exact (unrecorded (wire.blake3 [])).alike_of_no_blank lawful (by simp [complete, Lines.split])

/-- Opening with records of earlier proofs shows what opening line by line shows, exactly when no
record stands for bytes that hold an empty line and can be resumed behind. -/
theorem opened_reusing_iff (lawful : wire.Lawful) (injective : Function.Injective wire.blake3)
    (version now : Nat) (dir : Directory) (held : ProofRecords Hash)
    (written : ChainAudit.AllWritten wire.toCodec version held) :
    opened wire now (.records version held) dir = opened wire now .strict dir ↔
      ReusesNoBlank wire version held dir := by
  cases some : dir.segments.getLast? with
  | none =>
    rw [opened_empty some, opened_empty some]
    refine ⟨fun _ last bound record present => ?_, fun _ => rfl⟩
    rw [some] at present
    cases present
  | some last =>
    cases probed : probeVersion wire dir.segments with
    | error e =>
      rw [opened_unprobed some probed, opened_unprobed some probed]
      refine ⟨fun _ last bound record _ passed => ?_, fun _ => rfl⟩
      rw [probed] at passed
      cases passed
    | ok _ =>
      cases entering : boundary wire dir.segments last.1 with
      | error e =>
        rw [opened_unbounded some probed entering, opened_unbounded some probed entering]
        refine ⟨fun _ other bound record present _ passed => ?_, fun _ => rfl⟩
        rw [some] at present
        cases present
        rw [entering] at passed
        cases passed
      | ok bound =>
        rcases tailStart_cases wire version held last bound.check with
          ⟨record, standing, start, check⟩ | ⟨never, start, check⟩
        · have sound := sound_of_written injective
            (written last.1 record standing.stored) standing.current
          have covered := prefix_of_standing injective standing sound
          have reused : Reused wire dir last bound version held record :=
            ⟨some, probed, entering, standing.fits, start, check, covered.1, covered.2⟩
          constructor
          · intro alike other bound' record' present _ entering' standing'
            rw [some] at present
            cases present
            rw [entering] at entering'
            cases entering'
            have same := standing'.stored.symm.trans standing.stored
            cases same
            rw [Classical.or_iff_not_imp_left, not_not]
            intro blank resumable
            exact reused.differ_of_resumable lawful blank resumable alike
          · intro reuses
            by_cases blank : [] ∈ complete newline (last.2.take record.len)
            · rcases reuses last bound record some probed entering standing with filled | stuck
              · exact absurd blank filled
              · exact reused.alike_of_stuck lawful blank stuck
            · exact reused.alike_of_no_blank lawful blank
        · refine ⟨fun _ other bound' record present _ entering' standing => ?_, fun _ => ?_⟩
          · rw [some] at present
            cases present
            rw [entering] at entering'
            cases entering'
            exact absurd standing (never record)
          · exact alike_of_unrecorded lawful some probed entering start check

theorem no_blank_of_one_line {line : Bytes} (filled : line ≠ []) (unended : newline ∉ line)
    (len : Nat) : [] ∉ complete newline ((line ++ [newline]).take len) := by
  rcases Nat.lt_or_ge line.length len with past | inside
  · have one : complete newline (join newline [line]) = [line] :=
      complete_join (forall_mem_singleton.mpr unended)
    rw [join, flatMap_singleton] at one
    have whole : (line ++ [newline]).length ≤ len := by
      rw [length_append]
      exact past
    rw [take_of_length_le whole, one, mem_singleton]
    exact filled.symm
  · rw [take_append_of_le_length inside,
      complete_unended fun member => unended (mem_of_mem_take member)]
    exact not_mem_nil

/-- A segment that holds the first line only is taken up behind its record. -/
theorem reusesNoBlank_genesis :
    ReusesNoBlank (CityWire.wire grownDigests) 1 firstRecords
      (oneSegment (genesisLine ++ [newline])) := by
  have written : ChainAudit.AllWritten grownCodec 1 firstRecords :=
    fun _ _ stored => .proved _ noRecords (fun _ _ absent => nomatch absent) stored
  have direct : ReusesNoBlank (CityWire.wire grownDigests) 1 firstRecords
      (oneSegment (genesisLine ++ [newline])) := by
    intro last bound record held _ _ _
    rw [segments_oneSegment] at held
    cases held
    exact .inl (no_blank_of_one_line (ascii_text_ne_nil _)
      (ascii_bytes (plain_text _)).1 record.len)
  have alike := (opened_reusing_iff (wire_lawful _)
    (tabled_injective grownDigests_distinct) 1 0 _ firstRecords
    written).mpr direct
  exact (opened_reusing_iff (wire_lawful _)
    (tabled_injective grownDigests_distinct) 1 0 _ firstRecords
    written).mp alike

/-! ### An empty line behind the first one -/

/-- The digests of the first line, of a segment that ends in an empty line, and of the record of
the byte a strict open drops from it. -/
def blankDigests : List (Bytes × Bytes) :=
  [(genesisLine, genesisDigest),
    (genesisLine ++ [newline, newline],
      unhex "9fa16da9effcd3d2823d24e7081e066a1256327819798f0b8f4767afc06b6794".toList),
    (CityWire.ascii (CityWire.text
        (.fromDraft (.logTruncated 0 1) ⟨1, Seq.one_fits⟩ genesisDigest)),
      unhex "a99c260285f33b32e51162afad648d8190b7080823915e46a9f45f804de2a558".toList)]

def blankWire : Wire Bytes CityWire.CityDraft := CityWire.wire blankDigests

def blankEnded : Directory := oneSegment (genesisLine ++ [newline, newline])

/-- What a proof of the segment leaves: the audit passes over the empty line. -/
def blankRecords : ProofRecords Bytes :=
  (proveChain blankWire.toCodec 1 blankEnded noRecords).2

theorem blankDigests_distinct : Digest.Distinct blankDigests := by
  delta blankDigests genesisDigest
  repeat rw [String.toList_ofList]
  decide +kernel

/-- The record covers the empty line, which the strict open drops as a torn write. -/
theorem opened_blankEnded_differs :
    Function.Injective blankWire.blake3 ∧
      ChainAudit.AllWritten blankWire.toCodec 1 blankRecords ∧
        (opened blankWire 0 (.records 1 blankRecords) blankEnded).map Opened.recovered = some none ∧
        (opened blankWire 0 .strict blankEnded).map Opened.recovered = some (some 1) := by
  refine ⟨tabled_injective blankDigests_distinct, ?_, ?_⟩
  · intro name record stored
    exact .proved _ noRecords (fun _ _ absent => nomatch absent) stored
  · delta blankRecords blankEnded blankWire blankDigests genesisLine
      genesisDigest CityWire.wire CityWire.read CityWire.fields CityWire.text
      CityWire.beforeV beforeSeq beforePrev beforeT beforeKind
      beforeData beforeDropped ending CityWire.CityDraft.kind
      kindText
    simp only [append_assoc]
    repeat rw [String.toList_ofList]
    constructor <;> decide +kernel

end Open

end Sprawling
