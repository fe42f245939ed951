import Sprawling.Storage.Reading
import Sprawling.Storage.Verify

/-! What a strict walk of the chain proved, one record per segment. -/

namespace Sprawling

/-- What a strict walk proved about the first `len` bytes of one segment. -/
structure SegmentRecord (Hash : Type) where
  version : Nat
  len : Nat
  lines : Nat
  entry : LineCheck Hash
  exit : LineCheck Hash
  digest : Hash

namespace SegmentRecord

variable {Hash Record : Type} (codec : Codec Hash Record) (record : SegmentRecord Hash)

/-- The recorded length when the rule version and the segment's length permit reuse. -/
def prefixLength (total version : Nat) : Option Nat :=
  if record.version = version ∧ record.len ≤ total then some record.len else none

/-- The first `len` bytes this record names, when the segment still holds that much. -/
def recordedBytes (bytes : Bytes) (version : Nat) : Option Bytes :=
  (record.prefixLength bytes.length version).map fun len => bytes.take len

/-- Whether this record stands in for the bytes `hashed`, entered at `entry`. -/
def stands [DecidableEq Hash] (entry : LineCheck Hash) (hashed : Bytes) :
    Option (Nat × LineCheck Hash) :=
  if record.entry = entry ∧ codec.blake3 hashed = record.digest then
    some (record.lines, record.exit)
  else none

end SegmentRecord

/-- Only a handle that holds the writer lock writes records. -/
inductive May where
  | read
  | readAndWrite

/-- What the disk does with one record written to it. -/
structure Keeping where
  landed : Bool
  refused : Option AxError

/-- A city's records by segment, whether this holder may write them, and how the disk treats a
write. -/
structure ProofRecords (Hash : Type) where
  held : FileName → Option (SegmentRecord Hash)
  may : May
  disk : FileName → Keeping

namespace ProofRecords

variable {Hash : Type}

/-- The record of the segment named `segment`, when there is one this build can read. -/
def read (records : ProofRecords Hash) (segment : FileName) : Option (SegmentRecord Hash) :=
  records.held segment

/-- Writes `record` for `segment`, replacing the one there; nothing for a read-only holder. -/
def keep (records : ProofRecords Hash) (segment : FileName) (record : SegmentRecord Hash) :
    Option AxError × ProofRecords Hash :=
  match records.may with
  | .read => (none, records)
  | .readAndWrite =>
    let done := records.disk segment
    (done.refused,
      if done.landed then
        { records with
          held := fun name => if name = segment then some record else records.held name }
      else records)

end ProofRecords

end Sprawling

/-! The whole chain proved from genesis, one segment after another, reusing what an earlier
strict walk proved. -/

namespace Sprawling

open List

/-- What walking the whole chain found. -/
inductive ChainAudit where
  | whole (lines : Nat)
  | broken (reason : AxError)
deriving DecidableEq

/-- What one proof read and computed. -/
structure ProofCount where
  linesChecked : Nat := 0
  segmentsByDigest : Nat := 0
  bytesRead : Nat := 0
  bytesHashed : Nat := 0
  waves : Nat := 0

/-- A proof's verdict, what it cost, and the first record it could not write. -/
structure Proven where
  audit : ChainAudit
  counted : ProofCount
  unkept : Option AxError

namespace ChainAudit

def proofWave : Nat := 8

/-- A segment's record, and the hasher that has taken the bytes it names. -/
structure Hashed (Hash : Type) where
  record : SegmentRecord Hash
  len : Nat
  hasher : Bytes

/-- One segment as its wave read it. -/
structure Read (Hash : Type) where
  bytes : Bytes
  hashed : Option (Hashed Hash)

/-- Reads a segment once and hashes the bytes its record names. -/
def Read.ahead {Hash : Type} (segment : FileName × Bytes) (records : Option (ProofRecords Hash))
    (version : Nat) : Read Hash :=
  { bytes := segment.2
    hashed := (records.bind fun records => records.read segment.1).bind fun record =>
      (record.recordedBytes segment.2 version).map fun hasher =>
        { record, len := hasher.length, hasher } }

/-- The chain state and the counts, between two segments, and the records as they stand. -/
structure Walked (Hash : Type) where
  check : LineCheck Hash
  lines : Nat
  counted : ProofCount
  unkept : Option AxError
  records : Option (ProofRecords Hash)

section Walk

variable {Hash Record : Type} [DecidableEq Hash] (codec : Codec Hash Record)

namespace Walked

/-- Takes the record in place of checking the bytes it names when it stands for them. -/
def reuse (walked : Walked Hash) (hashed : Hashed Hash) :
    Option (Nat × Nat × Bytes) × Walked Hash :=
  let walked := { walked with
    counted := { walked.counted with
      bytesHashed := saturatingAdd walked.counted.bytesHashed hashed.len } }
  match hashed.record.stands codec walked.check hashed.hasher with
  | none => (none, walked)
  | some (lines, exit) =>
    (some (hashed.len, lines, hashed.hasher),
      { walked with
        lines := saturatingAdd walked.lines lines
        check := exit
        counted := { walked.counted with
          segmentsByDigest := saturatingAdd walked.counted.segmentsByDigest 1 } })

/-- The record a wave read for this segment, taken when it stands. -/
def reuseRead (walked : Walked Hash) (read : Read Hash) :
    Option (Nat × Nat × Bytes) × Walked Hash :=
  match read.hashed with
  | none => (none, walked)
  | some hashed => walked.reuse codec hashed

/-- One run between two newlines: an empty one is passed over, a line advances the chain. -/
def line (state : Walked Hash × Nat) (line : Bytes) :
    Except (AxError × Walked Hash) (Walked Hash × Nat) :=
  if line.isEmpty then .ok state
  else
    let walked := { state.1 with
      lines := saturatingAdd state.1.lines 1
      counted := { state.1.counted with
        linesChecked := saturatingAdd state.1.counted.linesChecked 1 } }
    match walked.check.advance codec line with
    | .error fault => .error (fault.intoAx walked.lines, walked)
    | .ok (_, check) => .ok ({ walked with check }, saturatingAdd state.2 1)

/-- Prove one segment's complete lines and answer the record of what was proved. -/
def segment (walked : Walked Hash) (read : Read Hash) (version : Nat) :
    Except (AxError × Walked Hash) (SegmentRecord Hash × Walked Hash) :=
  let walked := { walked with
    counted := { walked.counted with
      bytesRead := saturatingAdd walked.counted.bytesRead read.bytes.length } }
  let entry := walked.check
  let complete := Lines.endOfLast (fun byte => byte == newline) read.bytes
  let reused := walked.reuseRead codec read
  let start := reused.1.getD (0, 0, [])
  let rest := (read.bytes.take complete).drop start.1
  let hasher := start.2.2 ++ rest
  let walked := { reused.2 with
    counted := { reused.2.counted with
      bytesHashed := saturatingAdd reused.2.counted.bytesHashed rest.length } }
  ((rest.splitOn newline).foldlM (line codec) (walked, start.2.1)).map fun done =>
    ({ version
       len := (read.bytes.take complete).length
       lines := done.2
       entry
       exit := done.1.check
       digest := codec.blake3 hasher }, done.1)

end Walked

/-- One segment of a wave: proved, and its record kept when there are records to keep. -/
def step (version : Nat) (walked : Walked Hash) (read : FileName × Read Hash) :
    Except (AxError × Walked Hash) (Walked Hash) :=
  (walked.segment codec read.2 version).map fun (proved, walked) =>
    match walked.records with
    | none => walked
    | some records =>
      let kept := records.keep read.1 proved
      { walked with unkept := walked.unkept.or kept.1, records := some kept.2 }

/-- One wave: read whole before the chain is walked through its segments in order. -/
def waveStep (version : Nat) (walked : Walked Hash) (wave : List (FileName × Bytes)) :
    Except (AxError × Walked Hash) (Walked Hash) :=
  let reads := wave.map fun segment => (segment.1, Read.ahead segment walked.records version)
  reads.foldlM (step codec version)
    { walked with counted := { walked.counted with waves := saturatingAdd walked.counted.waves 1 } }

/-- The walk before its first segment. -/
def Walked.start (records : Option (ProofRecords Hash)) : Walked Hash :=
  { check := LineCheck.atGenesis codec, lines := 0, counted := {}, unkept := none, records }

/-- The one walk behind both faces. -/
def walk (version : Nat) (dir : Directory) (records : Option (ProofRecords Hash)) :
    Proven × Option (ProofRecords Hash) :=
  match (Lines.chunks proofWave (dir.segments.length + 1) dir.segments).foldlM
      (waveStep codec version) (Walked.start codec records) with
  | .error (reason, walked) =>
    ({ audit := .broken reason, counted := walked.counted, unkept := walked.unkept },
      walked.records)
  | .ok walked =>
    ({ audit := .whole walked.lines, counted := walked.counted, unkept := walked.unkept },
      walked.records)

/-- Walk every complete line of the ledger from genesis, reading no record and writing none. -/
def auditChain (version : Nat) (dir : Directory) : ChainAudit :=
  (walk codec version dir none).1.audit

/-- Prove the ledger from genesis, taking a segment's record in place of checking the bytes it
names, and keeping a record for every segment proved. -/
def proveChain (version : Nat) (dir : Directory) (records : ProofRecords Hash) :
    Proven × ProofRecords Hash :=
  let done := walk codec version dir (some records)
  (done.1, done.2.getD records)

/-! ### The strict walk: the same lines, every one of them checked -/

/-- One line through the chain check, numbered as the audit numbers it. -/
def strictLine (state : LineCheck Hash × Nat) (line : Bytes) : Except AxError (LineCheck Hash × Nat) :=
  match state.1.advance codec line with
  | .error fault => .error (fault.intoAx (saturatingAdd state.2 1))
  | .ok (_, check) => .ok (check, saturatingAdd state.2 1)

/-- The verdict over the lines of a ledger, each of them checked. -/
def strictAudit (lines : List Bytes) : ChainAudit :=
  match lines.foldlM (strictLine codec) (LineCheck.atGenesis codec, 0) with
  | .error reason => .broken reason
  | .ok (_, count) => .whole count

/-- What a record stands for: bytes that end at a line, whose lines lead from its entry to its
exit. -/
def Sound (record : SegmentRecord Hash) : Prop :=
  ∃ bytes : Bytes, record.digest = codec.blake3 bytes ∧ record.len = bytes.length ∧
    Lines.tail newline bytes = [] ∧ record.lines ≤ u64Max ∧
    ∀ count ≤ u64Max, (Reading.segmentLines bytes).foldlM (strictLine codec) (record.entry, count) =
      .ok (record.exit, saturatingAdd count record.lines)

/-- Where there are records, the hash is collision free and every record that may be reused
stands for what it says. -/
def SoundRecords (version : Nat) (records : Option (ProofRecords Hash)) : Prop :=
  ∀ held, records = some held → Function.Injective codec.blake3 ∧
    ∀ name record, held.read name = some record → record.version = version → Sound codec record

variable {codec}

def Walked.face (walked : Walked Hash) : LineCheck Hash × Nat := (walked.check, walked.lines)

variable {lines : List Bytes} {entry exit : LineCheck Hash} {count counted : Nat}

/-- Lines the strict walk passes lead from its entry to its exit. -/
theorem advanceAll_of_strict
    (passed : lines.foldlM (strictLine codec) (entry, count) = .ok (exit, counted)) :
    entry.advanceAll codec lines = .ok exit := by
  induction lines generalizing entry count with
  | nil =>
    cases passed
    rfl
  | cons line lines ih =>
    rw [foldlM_cons] at passed
    rcases Outcome.bind_eq_ok.mp passed with ⟨middle, here, rest⟩
    simp only [strictLine] at here
    cases advanced : entry.advance codec line with
    | error fault =>
      rw [advanced] at here
      cases here
    | ok stepped =>
      rw [advanced] at here
      cases here
      exact advanceAll_cons.mpr ⟨stepped.1, stepped.2, advanced, ih rest⟩

theorem foldlM_line_filter (runs : List Bytes) (state : Walked Hash × Nat) :
    runs.foldlM (Walked.line codec) state =
      (runs.filter fun run => !run.isEmpty).foldlM (Walked.line codec) state := by
  induction runs generalizing state with
  | nil => rfl
  | cons run runs ih =>
    cases blank : run.isEmpty with
    | true =>
      have skip : Walked.line codec state run = .ok state := by rw [Walked.line, if_pos blank]
      rw [foldlM_cons, skip, filter_cons_of_neg (by simp [blank])]
      exact ih state
    | false =>
      rw [filter_cons_of_pos (by simp [blank]), foldlM_cons, foldlM_cons]
      cases Walked.line codec state run with
      | error reason => rfl
      | ok after => exact ih after

variable {face : LineCheck Hash × Nat} {records : Option (ProofRecords Hash)}

theorem line_agrees {state : Walked Hash × Nat}
    {run : Bytes} (line : run.isEmpty = false)
    (same : state.1.face = face ∧ state.1.records = records) :
    Outcome.Agree (fun (state : Walked Hash × Nat) face =>
        state.1.face = face ∧ state.1.records = records)
      (fun (failed : AxError × Walked Hash) reason =>
        failed.1 = reason ∧ failed.2.records = records)
      (Walked.line codec state run) (strictLine codec face run) := by
  rcases same with ⟨rfl, rfl⟩
  rw [Walked.line, line]
  simp only [Bool.false_eq_true, if_false, strictLine, Walked.face]
  cases state.1.check.advance codec run with
  | error fault => exact ⟨rfl, rfl⟩
  | ok passed => exact ⟨rfl, rfl⟩

theorem count_of_foldlM_line {runs : List Bytes} {state after : Walked Hash × Nat}
    (lines : ∀ run ∈ runs, run.isEmpty = false) (room : state.2 ≤ u64Max)
    (passed : runs.foldlM (Walked.line codec) state = .ok after) :
    after.2 = saturatingAdd state.2 runs.length := by
  induction runs generalizing state with
  | nil =>
    cases passed
    rw [saturatingAdd, length_nil, Nat.add_zero, Nat.min_eq_left room]
  | cons run runs ih =>
    rw [foldlM_cons] at passed
    rcases Outcome.bind_eq_ok.mp passed with ⟨middle, here, rest⟩
    have counted : middle.2 = saturatingAdd state.2 1 := by
      rw [Walked.line, lines run mem_cons_self] at here
      simp only [Bool.false_eq_true, if_false] at here
      split at here
      · cases here
      · cases here
        rfl
    have later := ih (fun other member => lines other (mem_cons_of_mem _ member))
      (by rw [counted]; exact Nat.min_le_right _ _) rest
    rw [later, counted, length_cons, saturatingAdd, saturatingAdd, saturatingAdd]
    omega

/-- The strict walk counts every line, and what it finds does not depend on the count. -/
theorem strict_count
    (passed : lines.foldlM (strictLine codec) (entry, count) = .ok (exit, counted)) (other : Nat)
    (room : other ≤ u64Max) :
    lines.foldlM (strictLine codec) (entry, other) =
      .ok (exit, saturatingAdd other lines.length) := by
  induction lines generalizing entry count other with
  | nil =>
    cases passed
    rw [saturatingAdd, length_nil, Nat.add_zero, Nat.min_eq_left room]
    rfl
  | cons line lines ih =>
    rw [foldlM_cons] at passed ⊢
    rcases Outcome.bind_eq_ok.mp passed with ⟨middle, here, rest⟩
    simp only [strictLine] at here ⊢
    cases advanced : entry.advance codec line with
    | error fault =>
      rw [advanced] at here
      cases here
    | ok stepped =>
      rw [advanced] at here
      cases here
      refine (ih rest (saturatingAdd other 1) (Nat.min_le_right _ _)).trans ?_
      rw [length_cons, saturatingAdd, saturatingAdd, saturatingAdd]
      congr 2
      omega

variable {bytes : Bytes}

theorem filter_splitOn (ended : Lines.tail newline bytes = []) :
    ((bytes.splitOn newline).filter fun run => !run.isEmpty) = Reading.segmentLines bytes := by
  rw [Lines.splitOn_eq, ended, List.filter_append, Reading.segmentLines]
  simp

theorem segmentLines_append {rest : Bytes} (ended : Lines.tail newline bytes = []) :
    Reading.segmentLines (bytes ++ rest) =
      Reading.segmentLines bytes ++ Reading.segmentLines rest := by
  rw [Reading.segmentLines, Lines.complete_append_of_tail_nil ended, List.filter_append]
  rfl

theorem segmentLines_whole (bytes : Bytes) :
    Reading.segmentLines (Lines.whole newline bytes) = Reading.segmentLines bytes := by
  rw [Reading.segmentLines, Lines.complete_whole]
  rfl

/-- What a wave may hold for a segment: a sound record, and the bytes of the segment it names. -/
def Faithful (codec : Codec Hash Record) (read : Read Hash) : Prop :=
  ∀ hashed, read.hashed = some hashed → Function.Injective codec.blake3 ∧
    Sound codec hashed.record ∧ hashed.record.len ≤ read.bytes.length ∧
    hashed.len = hashed.record.len ∧ hashed.hasher = read.bytes.take hashed.record.len

variable {version : Nat}

theorem faithful_ahead (sound : SoundRecords codec version records) (segment : FileName × Bytes) :
    Faithful codec (Read.ahead segment records version) := by
  intro hashed found
  simp only [Read.ahead, Option.bind_eq_some_iff, Option.map_eq_some_iff] at found
  rcases found with ⟨record, ⟨held, some, stored⟩, hasher, recorded, rfl⟩
  simp only [SegmentRecord.recordedBytes, SegmentRecord.prefixLength, Option.map_eq_some_iff] at recorded
  rcases recorded with ⟨len, fits, rfl⟩
  split at fits
  · next permitted =>
      cases fits
      have held := sound held some
      refine ⟨held.1, held.2 _ record stored permitted.1, permitted.2, ?_, rfl⟩
      exact length_take_of_le permitted.2
  · cases fits

/-- Where checking starts in a segment: after complete lines that lead to the state held, with
their bytes already hashed. -/
structure Resumed (codec : Codec Hash Record) (walked : Walked Hash) (bytes : Bytes)
    (start : Nat × Nat × Bytes) (after : Walked Hash) : Prop where
  bytes_hashed : start.2.2 = bytes.take start.1
  within : start.1 ≤ (Lines.whole newline bytes).length
  ended : Lines.tail newline (bytes.take start.1) = []
  room : start.2.1 ≤ u64Max
  led : ∀ count ≤ u64Max,
    (Reading.segmentLines (bytes.take start.1)).foldlM (strictLine codec) (walked.check, count) =
      .ok (after.check, saturatingAdd count start.2.1)
  counted : after.lines = saturatingAdd walked.lines start.2.1
  records : after.records = walked.records

variable {walked : Walked Hash} {after : Walked Hash}

theorem resumed_at_entry (room : walked.lines ≤ u64Max)
    (same : after.face = walked.face) (kept : after.records = walked.records) :
    Resumed codec walked bytes (0, 0, []) after where
  bytes_hashed := rfl
  within := Nat.zero_le _
  ended := rfl
  room := Nat.zero_le _
  led := by
    intro count bound
    have check : after.check = walked.check := congrArg Prod.fst same
    rw [saturatingAdd, Nat.add_zero, Nat.min_eq_left bound, check]
    rfl
  counted := by
    rw [saturatingAdd, Nat.add_zero, Nat.min_eq_left room]
    exact congrArg Prod.snd same
  records := kept

theorem length_le_whole {first rest : Bytes} (ended : Lines.tail newline first = []) :
    first.length ≤ (Lines.whole newline (first ++ rest)).length := by
  have shape : Lines.whole newline first = first := by
    have cut : Lines.whole newline first ++ Lines.tail newline first = first :=
      Lines.whole_append_tail first
    rwa [ended, append_nil] at cut
  rw [Lines.whole, Lines.complete_append_of_tail_nil ended, Lines.join_append, length_append,
    show Lines.join newline (Lines.complete newline first) = first from shape]
  exact Nat.le_add_right _ _

variable {read : Read Hash}

theorem resumed_of_reuseRead (room : walked.lines ≤ u64Max)
    (faithful : Faithful codec read) :
    Resumed codec walked read.bytes ((walked.reuseRead codec read).1.getD (0, 0, []))
      (walked.reuseRead codec read).2 := by
  unfold Walked.reuseRead
  cases held : read.hashed with
  | none => exact resumed_at_entry room rfl rfl
  | some hashed =>
    rcases faithful hashed held with
      ⟨injective, ⟨bytes, digest, len, ended, bound, led⟩, fits, size, taken⟩
    simp only [Walked.reuse, SegmentRecord.stands]
    split
    · next _ unmatched =>
        split at unmatched
        · cases unmatched
        · exact resumed_at_entry room rfl rfl
    · next _ lines exit matched =>
        split at matched
        · next standing =>
            cases matched
            have same : read.bytes.take hashed.record.len = bytes := by
              rw [← taken]
              exact injective (standing.2.trans digest)
            have shape : bytes ++ read.bytes.drop hashed.record.len = read.bytes := by
              rw [← same]
              exact take_append_drop _ _
            exact
              { bytes_hashed := by simp only [Option.getD_some, taken, size]
                within := by
                  simp only [Option.getD_some, size, len]
                  rw [← shape]
                  exact length_le_whole ended
                ended := by simp only [Option.getD_some, size, same, ended]
                room := bound
                led := by
                  intro count limit
                  simp only [Option.getD_some, size, same]
                  rw [← standing.1]
                  exact led count limit
                counted := rfl
                records := rfl }
        · cases matched

theorem resumed_rest {start : Nat × Nat × Bytes}
    (resumed : Resumed codec walked bytes start after) :
    Lines.tail newline ((Lines.whole newline bytes).drop start.1) = [] ∧
      bytes.take start.1 ++ (Lines.whole newline bytes).drop start.1 = Lines.whole newline bytes := by
  have cut : Lines.whole newline bytes ++ Lines.tail newline bytes = bytes :=
    Lines.whole_append_tail bytes
  have front : bytes.take start.1 = (Lines.whole newline bytes).take start.1 := by
    calc
      bytes.take start.1 =
          (Lines.whole newline bytes ++ Lines.tail newline bytes).take start.1 := by rw [cut]
      _ = _ := take_append_of_le_length resumed.within
  have joined : bytes.take start.1 ++ (Lines.whole newline bytes).drop start.1 =
      Lines.whole newline bytes := by
    rw [front]
    exact take_append_drop _ _
  refine ⟨?_, joined⟩
  have ended : Lines.tail newline (bytes.take start.1 ++ (Lines.whole newline bytes).drop start.1) =
      [] := by
    rw [joined]
    exact Lines.tail_whole bytes
  rwa [Lines.tail_append_of_tail_nil resumed.ended] at ended

/-- One segment, with or without a record, gives the strict verdict on its lines, and the record
it answers is sound. -/
theorem segment_agrees (room : walked.lines ≤ u64Max)
    (faithful : Faithful codec read) (version : Nat) :
    Outcome.Agree
      (fun (done : SegmentRecord Hash × Walked Hash) face =>
        done.2.face = face ∧ done.2.records = walked.records ∧ Sound codec done.1)
      (fun (failed : AxError × Walked Hash) reason =>
        failed.1 = reason ∧ failed.2.records = walked.records)
      (walked.segment codec read version)
      ((Reading.segmentLines read.bytes).foldlM (strictLine codec) walked.face) := by
  unfold Walked.segment
  simp only [Lines.take_endOfLast]
  generalize entered : ({ walked with
    counted := { walked.counted with
      bytesRead := saturatingAdd walked.counted.bytesRead read.bytes.length } } :
    Walked Hash) = entry
  have sameFace : entry.face = walked.face := by rw [← entered]; rfl
  have sameRecords : entry.records = walked.records := by rw [← entered]
  have roomy : entry.lines ≤ u64Max := by rw [← entered]; exact room
  have resumed := resumed_of_reuseRead roomy faithful
  generalize entry.reuseRead codec read = reused at resumed
  generalize reused.1.getD (0, 0, []) = start at resumed
  generalize resuming : ({ reused.2 with
    counted := { reused.2.counted with
      bytesHashed := saturatingAdd reused.2.counted.bytesHashed
        ((Lines.whole newline read.bytes).drop start.1).length } } : Walked Hash) = middle
  have middleRecords : middle.records = walked.records := by
    rw [← resuming, ← sameRecords]
    exact resumed.records
  have middleCheck : middle.check = reused.2.check := by rw [← resuming]
  have middleFace : middle.face = (middle.check, saturatingAdd entry.lines start.2.1) := by
    rw [← resumed.counted, ← resuming]
    rfl
  rcases resumed_rest resumed with ⟨ended, joined⟩
  generalize (Lines.whole newline read.bytes).drop start.1 = rest at ended joined ⊢
  -- The strict walk of the segment is the resumed part, then the rest.
  have strict : ∀ count ≤ u64Max,
      (Reading.segmentLines read.bytes).foldlM (strictLine codec) (entry.check, count) =
        (Reading.segmentLines rest).foldlM (strictLine codec)
          (middle.check, saturatingAdd count start.2.1) := by
    intro count bound
    rw [← segmentLines_whole read.bytes, ← joined, segmentLines_append resumed.ended,
      foldlM_append, resumed.led count bound, middleCheck]
    rfl
  have verdict := strict entry.lines roomy
  rw [show (entry.check, entry.lines) = walked.face from sameFace, ← middleFace] at verdict
  rw [verdict, foldlM_line_filter, filter_splitOn ended]
  have lines : ∀ run ∈ Reading.segmentLines rest, run.isEmpty = false := by
    intro run member
    simpa using (mem_filter.mp member).2
  have agree : Outcome.Agree
      (fun (state : Walked Hash × Nat) face =>
        state.1.face = face ∧ state.1.records = walked.records)
      (fun (failed : AxError × Walked Hash) reason =>
        failed.1 = reason ∧ failed.2.records = walked.records)
      ((Reading.segmentLines rest).foldlM (Walked.line codec) (middle, start.2.1))
      ((Reading.segmentLines rest).foldlM (strictLine codec) middle.face) :=
    Outcome.foldlM_agree ⟨rfl, middleRecords⟩
      fun run member _ _ same => line_agrees (lines run member) same
  cases walkedOn : (Reading.segmentLines rest).foldlM (Walked.line codec) (middle, start.2.1) with
  | error failed =>
    cases judged : (Reading.segmentLines rest).foldlM (strictLine codec) middle.face with
    | error reason =>
      rw [walkedOn, judged] at agree
      exact agree
    | ok face =>
      rw [walkedOn, judged] at agree
      exact agree.elim
  | ok done =>
    cases judged : (Reading.segmentLines rest).foldlM (strictLine codec) middle.face with
    | error reason =>
      rw [walkedOn, judged] at agree
      exact agree.elim
    | ok face =>
      rw [walkedOn, judged] at agree
      refine ⟨agree.1, agree.2, Lines.whole newline read.bytes, ?_, rfl, Lines.tail_whole _,
        ?_, ?_⟩
      · show codec.blake3 _ = _
        rw [resumed.bytes_hashed, joined]
      · show done.2 ≤ u64Max
        rw [count_of_foldlM_line lines resumed.room walkedOn]
        exact Nat.min_le_right _ _
      · intro count bound
        have check : walked.check = entry.check := (congrArg Prod.fst sameFace).symm
        show List.foldlM _ (walked.check, count) _ =
          Except.ok (done.1.check, saturatingAdd count done.2)
        rw [segmentLines_whole, check]
        refine (strict count bound).trans ?_
        refine (strict_count (judged.trans (congrArg Except.ok agree.1.symm))
          (saturatingAdd count start.2.1) (Nat.min_le_right _ _)).trans ?_
        rw [count_of_foldlM_line lines resumed.room walkedOn, saturatingAdd_assoc]

/-- What the walk and the strict walk share between two segments. -/
def Matches (codec : Codec Hash Record) (version : Nat) (walked : Walked Hash)
    (face : LineCheck Hash × Nat) : Prop :=
  walked.face = face ∧ walked.lines ≤ u64Max ∧ SoundRecords codec version walked.records

/-- What the walk and the strict walk share once a line is refused. -/
def MatchesFailed (codec : Codec Hash Record) (version : Nat) (failed : AxError × Walked Hash)
    (reason : AxError) : Prop :=
  failed.1 = reason ∧ SoundRecords codec version failed.2.records

theorem soundRecords_keep {records : ProofRecords Hash} {name : FileName}
    {record : SegmentRecord Hash} (sound : SoundRecords codec version (some records))
    (proved : Sound codec record) :
    SoundRecords codec version (some (records.keep name record).2) := by
  intro held same
  cases same
  have earlier := sound records rfl
  refine ⟨earlier.1, fun other found stored current => ?_⟩
  unfold ProofRecords.keep at stored
  split at stored
  · exact earlier.2 other found stored current
  · simp only at stored
    split at stored
    · simp only [ProofRecords.read] at stored
      split at stored
      · cases stored
        exact proved
      · exact earlier.2 other found stored current
    · exact earlier.2 other found stored current

theorem count_le_of_strict {start : LineCheck Hash × Nat} (bound : start.2 ≤ u64Max)
    (passed : lines.foldlM (strictLine codec) start = .ok face) : face.2 ≤ u64Max := by
  have shape : lines.foldlM (strictLine codec) (start.1, start.2) = .ok (face.1, face.2) := passed
  have counted := shape.symm.trans (strict_count shape start.2 bound)
  simp only [Except.ok.injEq, Prod.mk.injEq, true_and] at counted
  rw [counted]
  exact Nat.min_le_right _ _

theorem step_agrees {read : FileName × Read Hash} (same : Matches codec version walked face)
    (faithful : Faithful codec read.2) :
    Outcome.Agree (Matches codec version) (MatchesFailed codec version)
      (step codec version walked read)
      ((Reading.segmentLines read.2.bytes).foldlM (strictLine codec) face) := by
  rcases same with ⟨rfl, room, sound⟩
  have agree := segment_agrees room faithful version
  unfold step
  cases proved : walked.segment codec read.2 version with
  | error failed =>
    cases judged : (Reading.segmentLines read.2.bytes).foldlM (strictLine codec) walked.face with
    | error reason =>
      rw [proved, judged] at agree
      exact ⟨agree.1, agree.2 ▸ sound⟩
    | ok face =>
      rw [proved, judged] at agree
      exact agree.elim
  | ok done =>
    cases judged : (Reading.segmentLines read.2.bytes).foldlM (strictLine codec) walked.face with
    | error reason =>
      rw [proved, judged] at agree
      exact agree.elim
    | ok face =>
      rw [proved, judged] at agree
      rcases agree with ⟨faces, records, certified⟩
      have bound : done.2.lines ≤ u64Max := by
        have counted : done.2.lines = face.2 := congrArg Prod.snd faces
        rw [counted]
        exact count_le_of_strict room judged
      rw [← records] at sound
      simp only [Except.map]
      cases held : done.2.records with
      | none =>
        simp only
        exact ⟨faces, bound, held ▸ sound⟩
      | some kept =>
        simp only
        exact ⟨faces, bound, soundRecords_keep (held ▸ sound) certified⟩

theorem wave_agrees (wave : List (FileName × Bytes)) (same : Matches codec version walked face) :
    Outcome.Agree (Matches codec version) (MatchesFailed codec version)
      (waveStep codec version walked wave)
      ((wave.flatMap fun segment => Reading.segmentLines segment.2).foldlM (strictLine codec) face) := by
  rw [Outcome.foldlM_flatMap, waveStep]
  simp only [List.foldlM_map]
  refine Outcome.foldlM_agree ?_ fun segment member left right related => ?_
  · exact same
  · exact step_agrees related (faithful_ahead same.2.2 segment)

/-- The walk answers what checking every line answers, and leaves only sound records. -/
theorem walk_strict (version : Nat) (dir : Directory) (records : Option (ProofRecords Hash))
    (sound : SoundRecords codec version records) :
    (walk codec version dir records).1.audit = strictAudit codec (Reading.readRawLinesAt dir) ∧
      SoundRecords codec version (walk codec version dir records).2 := by
  have start : Matches codec version (Walked.start codec records) (LineCheck.atGenesis codec, 0) :=
    ⟨rfl, Nat.zero_le _, sound⟩
  have agree := Outcome.foldlM_agree start
    fun wave (_ : wave ∈ Lines.chunks proofWave (dir.segments.length + 1) dir.segments) _ _ related =>
      wave_agrees wave related
  have lines : ((Lines.chunks proofWave (dir.segments.length + 1) dir.segments).flatMap fun wave =>
      wave.flatMap fun segment => Reading.segmentLines segment.2) = Reading.readRawLinesAt dir := by
    rw [← flatMap_assoc, flatMap_id', Lines.flatten_chunks _ _ _ (by decide) (by omega),
      Reading.readRawLinesAt_eq]
  rw [← Outcome.foldlM_flatMap, lines] at agree
  unfold walk strictAudit
  cases walkedOn : (Lines.chunks proofWave (dir.segments.length + 1) dir.segments).foldlM
      (waveStep codec version) (Walked.start codec records) with
  | error failed =>
    cases judged : (Reading.readRawLinesAt dir).foldlM (strictLine codec)
        (LineCheck.atGenesis codec, 0) with
    | error reason =>
      rw [walkedOn, judged] at agree
      exact ⟨congrArg ChainAudit.broken agree.1, agree.2⟩
    | ok face =>
      rw [walkedOn, judged] at agree
      exact agree.elim
  | ok walked =>
    cases judged : (Reading.readRawLinesAt dir).foldlM (strictLine codec)
        (LineCheck.atGenesis codec, 0) with
    | error reason =>
      rw [walkedOn, judged] at agree
      exact agree.elim
    | ok face =>
      rw [walkedOn, judged] at agree
      exact ⟨congrArg ChainAudit.whole (congrArg Prod.snd agree.1), agree.2.2⟩

theorem auditChain_eq (version : Nat) (dir : Directory) :
    auditChain codec version dir = strictAudit codec (Reading.readRawLinesAt dir) :=
  (walk_strict version dir none fun _ absent => nomatch absent).1

end Walk

end ChainAudit

end Sprawling
