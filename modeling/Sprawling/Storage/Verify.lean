import Sprawling.Base.Outcome
import Sprawling.Kernel.Event

/-! The one per-line check every reader of the ledger applies. -/

namespace Sprawling

/-- Chain state between two lines: what the next line must continue. -/
structure LineCheck (Hash : Type) where
  prev : Hash
  expected : Seq
deriving DecidableEq

/-- A line that passed: a typed record, or an explicitly ignorable line of a newer vocabulary
that still counts in the chain. -/
inductive CheckedLine (Record : Type) where
  | known (record : Record)
  | ignoredUnknown (seq : Seq)
deriving DecidableEq

/-- Why a line did not pass, in the order the check asks. -/
inductive LineFault where
  | notALine (violation : String)
  | versionAhead (v : Nat)
  | notAVersion (v : Nat)
  | chainBreak
  | seqGap (found expected : Seq)
  | unknownKind (kind : String)
  | notCanonical (violation : String)
  | seqExhausted (source : AxError)
deriving DecidableEq

/-- The refusal a reader that walks a whole ledger gives, naming the 1-based line. -/
def LineFault.intoAx (lineNo : Nat) : LineFault → AxError
  | versionAhead v =>
    AxError.failure .logVersionUnsupported "verify ledger" s!"line {lineNo} carries v{v}"
      "written by a newer sprawling; replay it with the version that wrote it"
  | unknownKind kind =>
    AxError.failure .logVersionUnsupported "verify ledger" s!"line {lineNo} kind `{kind}`"
      "unknown kind without ig:true means a newer writer; use the sprawling that wrote it"
  | notAVersion v => corrupt s!"impossible v{v}"
  | notALine violation => corrupt violation
  | notCanonical violation => corrupt violation
  | chainBreak => corrupt "prev does not hash the previous line"
  | seqGap found expected =>
    corrupt s!"seq {found.value} where {expected.value} was expected"
  | seqExhausted source => source
where
  corrupt (violation : String) : AxError :=
    AxError.failure .casCorrupt "verify ledger" s!"line {lineNo}" violation

/-- One line judged on its own: the chain position it claims, and what it is. -/
structure Judged (Hash Record : Type) where
  seq : Seq
  prev : Hash
  checked : CheckedLine Record

section Check

variable {Hash Record : Type} (codec : Codec Hash Record)

def readableEnvelope (raw : Bytes) : Except LineFault (Envelope Hash) :=
  match codec.envelope raw with
  | .error e => .error (.notALine s!"not a ledger line: {e}")
  | .ok envelope =>
    match readableLogV envelope.v with
    | .current => .ok envelope
    | .older => .ok envelope
    | .ahead => .error (.versionAhead envelope.v)
    | .notAVersion => .error (.notAVersion envelope.v)

def canonicalRecord (raw : Bytes) : Except LineFault Record :=
  match codec.parseLine raw with
  | .error e => .error (.notCanonical s!"typed parse failed: {e}")
  | .ok record =>
    match codec.canonicalLine record with
    | .error e => .error (.notCanonical s!"no canonical form: {e}")
    | .ok echo =>
      if echo ≠ raw then .error (.notCanonical "bytes are not writer-canonical")
      else .ok record

/-- What a line of a readable envelope is: a record of a kind this build knows, an ignorable
line of a newer kind, or a fault. -/
def classify (envelope : Envelope Hash) (raw : Bytes) : Except LineFault (CheckedLine Record) :=
  if codec.isEventKind envelope.kind then (canonicalRecord codec raw).map .known
  else if envelope.ig then .ok (.ignoredUnknown envelope.seq)
  else .error (.unknownKind envelope.kind)

/-- The seq a line claims in its envelope, read without judging the rest. -/
def claimedSeq (raw : Bytes) : Option Seq :=
  match readableEnvelope codec raw with
  | .ok envelope => some envelope.seq
  | .error _ => none

namespace LineCheck

def atGenesis : LineCheck Hash := ⟨codec.genesisPrev, Seq.first⟩

/-- Whether the bytes after the last zero carry a ledger envelope. -/
def carriesEnvelope (raw : Bytes) : Bool :=
  match codec.envelope (raw.reverse.takeWhile (· ≠ 0)).reverse with
  | .ok _ => true
  | .error _ => false

/-- Everything `advance` asks of one line except where it sits in the chain. -/
def judge (raw : Bytes) : Except LineFault (Judged Hash Record) :=
  match readableEnvelope codec raw with
  | .error fault => .error fault
  | .ok envelope =>
    match classify codec envelope raw with
    | .error fault => .error fault
    | .ok checked => .ok { seq := envelope.seq, prev := envelope.prev, checked }

variable [DecidableEq Hash]

/-- Judge one line (without its newline) and, when it passes, advance the chain past it. -/
def advance (check : LineCheck Hash) (raw : Bytes) :
    Except LineFault (CheckedLine Record × LineCheck Hash) :=
  match readableEnvelope codec raw with
  | .error fault => .error fault
  | .ok envelope =>
    if envelope.prev ≠ check.prev then .error .chainBreak
    else if envelope.seq ≠ check.expected then .error (.seqGap envelope.seq check.expected)
    else
      match classify codec envelope raw with
      | .error fault => .error fault
      | .ok checked =>
        match check.expected.next with
        | .error e => .error (.seqExhausted e)
        | .ok expected => .ok (checked, ⟨codec.chainHash raw, expected⟩)

/-- Every line of a list advanced past, in order. -/
def advanceAll (check : LineCheck Hash) (lines : List Bytes) : Except LineFault (LineCheck Hash) :=
  lines.foldlM (fun check raw => (check.advance codec raw).map Prod.snd) check

end LineCheck

variable {codec} {raw : Bytes}

theorem claimedSeq_of_judge {judged : Judged Hash Record}
    (passed : LineCheck.judge codec raw = .ok judged) : claimedSeq codec raw = some judged.seq := by
  unfold LineCheck.judge at passed
  cases read : readableEnvelope codec raw with
  | error fault => simp [read] at passed
  | ok envelope =>
    simp only [read] at passed
    cases kind : classify codec envelope raw with
    | error fault => simp [kind] at passed
    | ok checked =>
      simp only [kind, Except.ok.injEq] at passed
      rw [claimedSeq, read, ← passed]

theorem judge_canonical {envelope : Envelope Hash} {record : Record}
    (read : codec.envelope raw = .ok envelope) (current : readableLogV envelope.v = .current)
    (kind : codec.isEventKind envelope.kind = true) (parsed : codec.parseLine raw = .ok record)
    (echo : codec.canonicalLine record = .ok raw) :
    LineCheck.judge codec raw = .ok ⟨envelope.seq, envelope.prev, .known record⟩ := by
  have canonical : canonicalRecord codec raw = .ok record := by simp [canonicalRecord, parsed, echo]
  simp [LineCheck.judge, readableEnvelope, read, current, classify, kind, canonical, Except.map]

variable [DecidableEq Hash] {check after : LineCheck Hash} {checked : CheckedLine Record}

/-- A line passes going forward exactly when it passes on its own and continues the chain. -/
theorem advance_eq_ok :
    LineCheck.advance codec check raw = .ok (checked, after) ↔
      LineCheck.judge codec raw = .ok ⟨check.expected, check.prev, checked⟩ ∧
        check.expected.next = .ok after.expected ∧ after.prev = codec.chainHash raw := by
  unfold LineCheck.advance LineCheck.judge
  cases read : readableEnvelope codec raw with
  | error fault => simp
  | ok envelope =>
    by_cases linked : envelope.prev = check.prev
    · by_cases placed : envelope.seq = check.expected
      · cases kind : classify codec envelope raw with
        | error fault => simp [linked, placed, kind]
        | ok line =>
          simp only [linked, placed, kind, ne_eq, not_true_eq_false, if_false]
          cases counted : check.expected.next with
          | error e => simp
          | ok expected =>
            simp only [Except.ok.injEq, Prod.mk.injEq, Judged.mk.injEq, true_and]
            constructor
            · rintro ⟨rfl, rfl⟩
              exact ⟨rfl, rfl, rfl⟩
            · rintro ⟨rfl, step, hash⟩
              cases after
              exact ⟨rfl, by rw [step, ← hash]⟩
      · constructor
        · intro impossible
          simp [linked, placed] at impossible
        · intro passed
          cases kind : classify codec envelope raw with
          | error fault => simp [kind] at passed
          | ok line => simp [kind, placed] at passed
    · constructor
      · intro impossible
        simp [linked] at impossible
      · intro passed
        cases kind : classify codec envelope raw with
        | error fault => simp [kind] at passed
        | ok line => simp [kind, linked] at passed

theorem advanceAll_cons {rest : List Bytes} :
    check.advanceAll codec (raw :: rest) = .ok after ↔
      ∃ checked middle, check.advance codec raw = .ok (checked, middle) ∧
        middle.advanceAll codec rest = .ok after := by
  simp only [LineCheck.advanceAll, List.foldlM_cons]
  cases check.advance codec raw with
  | error fault =>
    constructor
    · intro impossible
      cases impossible
    · rintro ⟨checked, middle, impossible, -⟩
      cases impossible
  | ok passed =>
    constructor
    · intro rest
      exact ⟨passed.1, passed.2, rfl, rest⟩
    · rintro ⟨checked, middle, same, rest⟩
      cases same
      exact rest

theorem advanceAll_append {first second : List Bytes} :
    check.advanceAll codec (first ++ second) = .ok after ↔
      ∃ middle, check.advanceAll codec first = .ok middle ∧
        middle.advanceAll codec second = .ok after := by
  simp only [LineCheck.advanceAll, List.foldlM_append]
  exact Outcome.bind_eq_ok

theorem envelope_of_advance (passed : check.advance codec raw = .ok (checked, after)) :
    ∃ envelope, codec.envelope raw = .ok envelope := by
  unfold LineCheck.advance readableEnvelope at passed
  cases read : codec.envelope raw with
  | error e => simp [read] at passed
  | ok envelope => exact ⟨envelope, rfl⟩

theorem advance_of_no_envelope {e : String} (unread : codec.envelope raw = .error e) :
    check.advance codec raw = .error (.notALine s!"not a ledger line: {e}") := by
  simp [LineCheck.advance, readableEnvelope, unread]

end Check

end Sprawling
