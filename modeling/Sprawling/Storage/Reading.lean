import Sprawling.Base.Lines
import Sprawling.Base.OrdMap
import Sprawling.Base.Outcome
import Sprawling.Storage.Error

/-! The read-only faces of a ledger directory: complete lines only, in segment order. -/

namespace Sprawling

open List Lines

/-- The files of one directory and their bytes. -/
abbrev Directory := OrdMap FileName Bytes

def newline : UInt8 := 10

namespace Segment

def segmentPrefix : FileName := ['l', 'e', 'd', 'g', 'e', 'r', '-']

def segmentSuffix : FileName := ['.', 'j', 's', 'o', 'n', 'l']

/-- `value` in decimal, zero-padded to `width` digits. -/
def padded : Nat → Nat → FileName
  | 0, _ => []
  | width + 1, value => padded width (value / 10) ++ [Nat.digitChar (value % 10)]

def segmentFileName (firstSeq : Seq) : FileName :=
  segmentPrefix ++ padded 20 firstSeq.value ++ segmentSuffix

def isSegment (name : FileName) : Bool :=
  List.isPrefixOf segmentPrefix name && List.isSuffixOf segmentSuffix name

theorem isSegment_segmentFileName (seq : Seq) : isSegment (segmentFileName seq) = true := by
  simp only [isSegment, segmentFileName, Bool.and_eq_true, isPrefixOf_iff_prefix,
    isSuffixOf_iff_suffix]
  exact ⟨⟨_, (append_assoc _ _ _).symm⟩, ⟨_, rfl⟩⟩

/-- The first sequence a segment's name claims. -/
def segmentFirstSeq (name : FileName) : Option Nat :=
  if isSegment name then
    Text.parseUnsigned (2 ^ 64) ((name.drop segmentPrefix.length).take
      (name.length - segmentPrefix.length - segmentSuffix.length))
  else none

end Segment

namespace Directory

/-- The ledger segments of a directory, in the order they must be read. -/
def segments (dir : Directory) : List (FileName × Bytes) :=
  dir.toList.filter fun file => Segment.isSegment file.1

end Directory

namespace Reading

/-- At most `len` bytes from `offset`; a short answer means the file ends there. -/
def readAt (bytes : Bytes) (offset len : Nat) : Bytes := (bytes.drop offset).take len

def scanWindowBytes : Nat := 64 * 1024

/-- Where the records end: the length without the run of zero bytes past the last record. -/
def recordsEnd (segment : Bytes) : Nat := endOfLast (fun byte => byte != 0) segment

section Scan

variable {ε σ : Type}

/-- The scanner between two bytes. -/
structure Scan (σ : Type) where
  total : Nat
  filled : Nat
  line : Bytes
  zeros : Nat
  seen : σ

/-- Where the scan ended physically, where its nonzero bytes ended, and what the visitor holds. -/
structure ScanEnd (σ : Type) where
  total : Nat
  filled : Nat
  seen : σ

variable (visit : σ → Bytes × Nat → Except ε σ)

/-- One byte of the scan; a zero run is materialized only when a nonzero byte follows it. -/
def scanByte (scan : Scan σ) (byte : UInt8) : Except ε (Scan σ) :=
  let total := scan.total + 1
  if byte = 0 then .ok { scan with total, zeros := scan.zeros + 1 }
  else
    let line := scan.line ++ List.replicate scan.zeros 0
    if byte = newline then
      (visit scan.seen (line, total)).map fun seen =>
        { total, filled := total, line := [], zeros := 0, seen }
    else .ok { scan with total, filled := total, line := line ++ [byte], zeros := 0 }

/-- The scan window after window, until a read comes back short. -/
def scanLoop (bytes : Bytes) : Nat → Scan σ → Except ε (Scan σ)
  | 0, scan => .ok scan
  | fuel + 1, scan => do
      let chunk := readAt bytes scan.total scanWindowBytes
      let after ← chunk.foldlM (scanByte visit) scan
      if chunk.length < scanWindowBytes then .ok after else scanLoop bytes fuel after

/-- Visits complete lines, including empty ones, with their end offsets. -/
def scan (bytes : Bytes) (start : Nat) (seen : σ) : Except ε (ScanEnd σ) :=
  (scanLoop visit bytes (bytes.length + 1)
    { total := start, filled := start, line := [], zeros := 0, seen }).map fun done =>
      { total := done.total, filled := done.filled, seen := done.seen }

end Scan

/-- One segment's complete, nonempty lines. -/
def readLines (segment : Bytes) : List Bytes :=
  match scan (fun (lines : List Bytes) (line : Bytes × Nat) =>
      (.ok (if line.1.isEmpty then lines else lines ++ [line.1]) : Except Empty (List Bytes)))
      segment 0 [] with
  | .ok done => done.seen

/-- Every complete line of the ledger in `dir`. -/
def readRawLinesAt (dir : Directory) : List Bytes :=
  dir.segments.flatMap fun segment => readLines segment.2

/-- Lines with the offset each one ends at, newline included. -/
def withEnds : Nat → List Bytes → List (Bytes × Nat)
  | _, [] => []
  | start, line :: rest =>
    (line, start + line.length + 1) :: withEnds (start + line.length + 1) rest

section ScanSpec

variable {ε σ : Type} {visit : σ → Bytes × Nat → Except ε σ}

def Scan.pending (scan : Scan σ) : Bytes := scan.line ++ List.replicate scan.zeros 0

/-- What the scanner answers about where it stands. -/
def Scan.answer (scan : Scan σ) : ScanEnd σ :=
  { total := scan.total, filled := scan.filled, seen := scan.seen }

/-- The end of the nonzero bytes after reading `rest` from `total`. -/
def filledAfter (filled total : Nat) (rest : Bytes) : Nat :=
  match recordsEnd rest with
  | 0 => filled
  | length + 1 => total + (length + 1)

theorem filledAfter_zero (filled total : Nat) (rest : Bytes) :
    filledAfter filled total (0 :: rest) = filledAfter filled (total + 1) rest := by
  unfold filledAfter recordsEnd endOfLast
  cases found : rposition (fun byte : UInt8 => byte != 0) rest with
  | none =>
    simp only [rposition, found]
    rfl
  | some place =>
    simp only [rposition, found]
    omega

theorem filledAfter_nonzero {byte : UInt8} (nonzero : byte ≠ 0) (filled total : Nat) (rest : Bytes) :
    filledAfter filled total (byte :: rest) = filledAfter (total + 1) (total + 1) rest := by
  unfold filledAfter recordsEnd endOfLast
  cases found : rposition (fun byte : UInt8 => byte != 0) rest with
  | none => simp only [rposition, found, bne_iff_ne, ne_eq, nonzero, not_false_eq_true, if_true]
  | some place =>
    simp only [rposition, found]
    omega

theorem foldlM_scanByte (scan : Scan σ) (rest : Bytes) (unended : newline ∉ scan.pending)
    (room : scan.pending.length ≤ scan.total) :
    (rest.foldlM (scanByte visit) scan).map Scan.answer =
      ((withEnds (scan.total - scan.pending.length)
          (complete newline (scan.pending ++ rest))).foldlM visit scan.seen).map fun seen =>
        { total := scan.total + rest.length
          filled := filledAfter scan.filled scan.total rest
          seen := seen } := by
  induction rest generalizing scan with
  | nil =>
    rw [append_nil, complete, split_unended unended]
    rfl
  | cons byte rest ih =>
    rw [foldlM_cons]
    have length : scan.total + 1 + rest.length = scan.total + (byte :: rest).length := by
      rw [length_cons]
      omega
    by_cases zero : byte = 0
    · -- A zero stays pending until a nonzero byte follows it.
      have pending : ({ scan with total := scan.total + 1, zeros := scan.zeros + 1 } :
          Scan σ).pending = scan.pending ++ [byte] := by
        simp [Scan.pending, replicate_succ', zero]
      have turn := ih { scan with total := scan.total + 1, zeros := scan.zeros + 1 }
        (by rw [pending, zero]; simpa [newline] using unended) (by rw [pending]; simpa using room)
      rw [pending, append_assoc, singleton_append, length_append] at turn
      rw [scanByte, if_pos zero]
      refine turn.trans ?_
      simp only [length_singleton, Nat.add_sub_add_right]
      rw [length, zero, filledAfter_zero]
    · by_cases ended : byte = newline
      · rw [scanByte, if_neg zero, if_pos ended, ended, complete,
          split_line_append unended, withEnds, foldlM_cons]
        rw [show scan.total - scan.pending.length + scan.pending.length + 1 = scan.total + 1 by
          omega]
        show Except.map _ ((visit scan.seen (scan.pending, scan.total + 1)).map _ >>= _) = _
        cases visit scan.seen (scan.pending, scan.total + 1) with
        | error reason => rfl
        | ok seen =>
          have turn := ih { total := scan.total + 1, filled := scan.total + 1, line := [],
                            zeros := 0, seen := seen }
            (by simp [Scan.pending]) (by simp [Scan.pending])
          refine turn.trans ?_
          rw [← ended, length, filledAfter_nonzero zero]
          rfl
      · have pending : ({ scan with
            total := scan.total + 1, filled := scan.total + 1,
            line := scan.line ++ List.replicate scan.zeros 0 ++ [byte], zeros := 0 } :
            Scan σ).pending = scan.pending ++ [byte] := by
          simp [Scan.pending]
        have turn := ih { scan with
            total := scan.total + 1, filled := scan.total + 1,
            line := scan.line ++ List.replicate scan.zeros 0 ++ [byte], zeros := 0 }
          (by rw [pending]; simpa [Ne.symm ended] using unended)
          (by rw [pending]; simpa using room)
        rw [pending, append_assoc scan.pending, singleton_append, length_append] at turn
        rw [scanByte, if_neg zero, if_neg ended]
        refine turn.trans ?_
        simp only [length_singleton, Nat.add_sub_add_right]
        rw [length, filledAfter_nonzero zero]

theorem total_of_foldlM {scan after : Scan σ} {chunk : Bytes}
    (read : chunk.foldlM (scanByte visit) scan = .ok after) :
    after.total = scan.total + chunk.length := by
  induction chunk generalizing scan with
  | nil =>
    cases read
    rfl
  | cons byte chunk ih =>
    rw [foldlM_cons] at read
    rcases Outcome.bind_eq_ok.mp read with ⟨middle, step, rest⟩
    have counted : middle.total = scan.total + 1 := by
      unfold scanByte at step
      split at step
      · cases step
        rfl
      · split at step
        · cases visited : visit scan.seen (scan.line ++ List.replicate scan.zeros 0, scan.total + 1)
          · simp only [visited] at step
            cases step
          · simp only [visited] at step
            cases step
            rfl
        · cases step
          rfl
    rw [ih rest, counted, length_cons]
    omega

theorem scanLoop_eq (bytes : Bytes) (fuel : Nat) (scan : Scan σ)
    (enough : bytes.length < scan.total + fuel) :
    scanLoop visit bytes fuel scan = (bytes.drop scan.total).foldlM (scanByte visit) scan := by
  induction fuel generalizing scan with
  | zero =>
    have past : bytes.drop scan.total = [] := drop_eq_nil_of_le (by omega)
    rw [past]
    rfl
  | succ fuel ih =>
    have cut : readAt bytes scan.total scanWindowBytes ++
        bytes.drop (scan.total + scanWindowBytes) = bytes.drop scan.total := by
      rw [readAt, ← drop_drop]
      exact take_append_drop _ _
    rw [scanLoop, ← cut, foldlM_append]
    cases read : (readAt bytes scan.total scanWindowBytes).foldlM (scanByte visit) scan with
    | error reason => rw [Outcome.bind_error, Outcome.bind_error]
    | ok after =>
      rw [Outcome.bind_ok, Outcome.bind_ok]
      have counted := total_of_foldlM read
      have short : (readAt bytes scan.total scanWindowBytes).length ≤ scanWindowBytes :=
        length_take_le _ _
      have size : (readAt bytes scan.total scanWindowBytes).length =
          min scanWindowBytes (bytes.length - scan.total) := by
        rw [readAt, length_take, length_drop]
      have window : 0 < scanWindowBytes := by decide
      by_cases ended : (readAt bytes scan.total scanWindowBytes).length < scanWindowBytes
      · have past : bytes.drop (scan.total + scanWindowBytes) = [] :=
          drop_eq_nil_of_le (by omega)
        rw [if_pos ended, past]
        rfl
      · rw [if_neg ended, ih after (by omega), counted]
        congr 2
        omega

theorem scan_eq (bytes : Bytes) (start : Nat) (seen : σ) :
    scan visit bytes start seen =
      ((withEnds start (complete newline (bytes.drop start))).foldlM visit seen).map
        fun seen =>
          { total := start + (bytes.drop start).length
            filled := filledAfter start start (bytes.drop start)
            seen := seen } := by
  rw [scan, scanLoop_eq bytes _ _ (by simp only; omega)]
  exact foldlM_scanByte _ _ (by simp [Scan.pending]) (by simp [Scan.pending])

end ScanSpec

theorem recordsEnd_join (lines : List Bytes) :
    recordsEnd (join newline lines) = (join newline lines).length := by
  rcases eq_nil_or_concat lines with bare | ⟨front, line, shape⟩
  · subst bare
    rfl
  · rw [concat_eq_append] at shape
    have split : join newline lines = (join newline front ++ line) ++ [newline] := by
      rw [shape, join_append]
      simp
    have one : endOfLast (fun byte : UInt8 => byte != 0) [newline] = 1 := by decide
    rw [split, recordsEnd, endOfLast_append, one, if_neg (by decide)]
    simp only [length_append, length_singleton]

theorem recordsEnd_join_append (lines : List Bytes) (rest : Bytes) :
    recordsEnd (join newline lines ++ rest) =
      (join newline lines).length + recordsEnd rest := by
  have joined := recordsEnd_join lines
  unfold recordsEnd at joined ⊢
  rw [endOfLast_append, joined]
  split
  · next bare => rw [bare]; rfl
  · rfl

theorem filledAfter_eq (start : Nat) (rest : Bytes) :
    filledAfter start start rest = start + recordsEnd rest := by
  unfold filledAfter
  split
  · next bare => rw [bare]; rfl
  · next length some => rw [some]

theorem foldlM_collect (lines : List (Bytes × Nat)) (held : List Bytes) :
    lines.foldlM (fun (lines : List Bytes) (line : Bytes × Nat) =>
      (.ok (if line.1.isEmpty then lines else lines ++ [line.1]) : Except Empty (List Bytes))) held =
        .ok (held ++ (lines.map Prod.fst).filter fun line => !line.isEmpty) := by
  induction lines generalizing held with
  | nil => simp [pure, Except.pure]
  | cons line lines ih =>
    rw [foldlM_cons]
    refine (ih _).trans ?_
    cases blank : line.1.isEmpty <;> simp [blank]

theorem map_fst_withEnds (start : Nat) (lines : List Bytes) :
    (withEnds start lines).map Prod.fst = lines := by
  induction lines generalizing start with
  | nil => rfl
  | cons line lines ih => simp [withEnds, ih]

/-- The nonempty complete lines of a segment. -/
def segmentLines (segment : Bytes) : List Bytes :=
  (complete newline segment).filter fun line => !line.isEmpty

theorem readLines_eq (segment : Bytes) : readLines segment = segmentLines segment := by
  unfold readLines
  rw [scan_eq, foldlM_collect, map_fst_withEnds]
  rfl

theorem readRawLinesAt_eq (dir : Directory) :
    readRawLinesAt dir = dir.segments.flatMap fun segment => segmentLines segment.2 := by
  simp only [readRawLinesAt, readLines_eq]

end Reading

end Sprawling
