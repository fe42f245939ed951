import Sprawling.Base.Word
import Sprawling.Kernel.Locator
import Sprawling.Storage.Cas
import Sprawling.Storage.Reading

/-! Ranges read off a stored object without lifting the object. -/

namespace Sprawling

open List Reading Word Digest

namespace Cas

def scanChunkBytes : Nat := 64 * 1024

def outOfBounds (hash : Bytes) : StorageError := .rangeOutOfBounds (writeHex hash)

/-- A 0-based closed byte range, read where it sits. -/
def bytesOf (object hash : Bytes) (low high : Nat) : Except StorageError Bytes :=
  if high < low then .error (outOfBounds hash)
  else
    match checkedAdd (u64Values - 1) (high - low) 1 with
    | none => .error (outOfBounds hash)
    | some wanted =>
      let bytes := readAt object low wanted
      if bytes.length ≠ wanted then .error (outOfBounds hash) else .ok bytes

/-- The line the next byte belongs to, whether that line has received any byte yet, and what has
been picked. -/
structure LineScan where
  line : Nat
  lineStarted : Bool
  picked : Bytes

/-- Before the first byte of the first line. -/
def LineScan.start : LineScan where
  line := 1
  lineStarted := false
  picked := []

/-- One byte of the walk. The terminator of the last line asked for ends it with what was picked. -/
def LineScan.step (low high : Nat) (scan : LineScan) (byte : UInt8) : Except Bytes LineScan :=
  if byte ≠ newline then
    .ok { scan with
      lineStarted := true
      picked := if low ≤ scan.line ∧ scan.line ≤ high then scan.picked ++ [byte] else scan.picked }
  else if scan.line = high then .error scan.picked
  else .ok {
    line := Word.saturatingAdd u64Values scan.line 1
    lineStarted := false
    picked := if low ≤ scan.line then scan.picked ++ [newline] else scan.picked }

/-- The walk, a chunk at a time; nothing when the turns run out before the object does. -/
def scanChunks (object : Bytes) (low high : Nat) :
    Nat → Nat → LineScan → Option (Except Bytes LineScan)
  | 0, _, _ => none
  | turns + 1, offset, scan =>
    let chunk := readAt object offset scanChunkBytes
    match chunk.foldlM (LineScan.step low high) scan with
    | .error picked => some (.error picked)
    | .ok scan =>
      if chunk.length < scanChunkBytes then some (.ok scan)
      else scanChunks object low high turns
        (Word.saturatingAdd u64Values offset chunk.length) scan

/-- How many lines the object holds; an unterminated last line counts as one. -/
def LineScan.count (scan : LineScan) : Nat := if scan.lineStarted then scan.line else scan.line - 1

/-- What the end of the walk comes to. -/
def LineScan.close (hash : Bytes) (high : Nat) : Except Bytes LineScan → Except StorageError Bytes
  | .error picked => .ok picked
  | .ok scan => if scan.count < high then .error (outOfBounds hash) else .ok scan.picked

/-- A 1-based closed line range. -/
def linesOf (turns : Nat) (object hash : Bytes) (low high : Nat) :
    Option (Except StorageError Bytes) :=
  if low = 0 ∨ high < low then some (.error (outOfBounds hash))
  else
    (scanChunks object low high turns 0 LineScan.start).map
      (LineScan.close hash high)

/-- The lines of an object without their terminators; an unterminated last line is one. -/
def objectLines (object : Bytes) : List Bytes :=
  let parts := object.splitOn newline
  if parts.getLast? = some [] then parts.dropLast else parts

/-- The bytes from `low` to `high`, both counted from zero. -/
def namedBytes (object hash : Bytes) (low high : Nat) : Except StorageError Bytes :=
  if low ≤ high ∧ high < object.length then .ok ((object.drop low).take (high - low + 1))
  else .error (outOfBounds hash)

/-- The lines from `low` to `high`, both counted from one, with the newlines between them. -/
def namedLines (object hash : Bytes) (low high : Nat) : Except StorageError Bytes :=
  if 0 < low ∧ low ≤ high ∧ high ≤ (objectLines object).length then
    .ok ([newline].intercalate (((objectLines object).drop (low - 1)).take (high - low + 1)))
  else .error (outOfBounds hash)

/-- What a range names of an object's bytes. -/
def named (object hash : Bytes) : Range → Except StorageError Bytes
  | .bytes low high => namedBytes object hash low.toNat high.toNat
  | .lines low high => namedLines object hash low.toNat high.toNat

def bufferBytes : Nat := 2 ^ 63 - 1

section Split

variable {α : Type} [BEq α] [LawfulBEq α] {mark : α}

theorem splitOn_concat_other (items : List α) {item : α} (other : item ≠ mark) :
    ∃ front last, items.splitOn mark = front ++ [last] ∧
      (items ++ [item]).splitOn mark = front ++ [last ++ [item]] := by
  induction items with
  | nil =>
    refine ⟨[], [], rfl, ?_⟩
    rw [nil_append, splitOn_eq_singleton (by simpa using Ne.symm other)]
    rfl
  | cons first rest ih =>
    obtain ⟨front, last, before, after⟩ := ih
    rw [cons_append, splitOn_cons_eq_if_modifyHead, splitOn_cons_eq_if_modifyHead, before, after]
    split
    · exact ⟨[] :: front, last, rfl, rfl⟩
    · cases front with
      | nil => exact ⟨[], first :: last, rfl, rfl⟩
      | cons part front => exact ⟨(first :: part) :: front, last, rfl, rfl⟩

theorem splitOn_concat_mark (items : List α) :
    (items ++ [mark]).splitOn mark = items.splitOn mark ++ [[]] := by
  rw [splitOn_append_cons_self, splitOn_nil]

omit [BEq α] [LawfulBEq α] in
theorem intercalate_concat (glue : List α) {parts : List (List α)} (filled : parts ≠ [])
    (last : List α) : glue.intercalate (parts ++ [last]) = glue.intercalate parts ++ glue ++ last := by
  induction parts with
  | nil => exact absurd rfl filled
  | cons first rest ih =>
    cases rest with
    | nil => simp
    | cons next rest =>
      have later := ih (by simp)
      simp only [cons_append] at later ⊢
      rw [intercalate_cons_cons, intercalate_cons_cons, later]
      simp only [append_assoc]

end Split

section Walk

variable {low high : Nat}

/-- Where the walk stands after the bytes before it: what it counted and picked is what those bytes
say, and it has not passed the last line asked for. -/
structure Scanned (low high : Nat) (before : Bytes) (scan : LineScan) : Prop where
  line : scan.line = (before.splitOn newline).length
  few : scan.line ≤ before.length + 1
  started : scan.lineStarted = true ↔ (before.splitOn newline).getLast? ≠ some []
  picked : scan.picked = [newline].intercalate ((before.splitOn newline).drop (low - 1))
  within : scan.line ≤ high

theorem Scanned.step {before : Bytes} {scan after : LineScan} {byte : UInt8} (positive : 0 < low)
    (scanned : Scanned low high before scan) (short : before.length < bufferBytes)
    (stepped : scan.step low high byte = .ok after) : Scanned low high (before ++ [byte]) after := by
  have line := scanned.line
  have few := scanned.few
  have within := scanned.within
  unfold LineScan.step at stepped
  split at stepped
  · next other =>
      obtain ⟨front, last, parts, longer⟩ := splitOn_concat_other before other
      rw [parts, length_append, length_singleton] at line
      cases stepped
      refine ⟨?_, ?_, ?_, ?_, within⟩
      · rw [longer, length_append, length_singleton]
        exact line
      · rw [length_append]
        exact Nat.le_succ_of_le few
      · simp [longer]
      · have picked := scanned.picked
        rw [parts] at picked
        rw [longer]
        show (if low ≤ scan.line ∧ scan.line ≤ high then _ else _) = _
        by_cases wanted : low ≤ scan.line
        · have inFront : low - 1 ≤ front.length := by omega
          rw [if_pos ⟨wanted, within⟩, picked, drop_append_of_le_length inFront,
            drop_append_of_le_length inFront]
          by_cases none : front.drop (low - 1) = []
          · rw [none]
            simp
          · rw [intercalate_concat _ none, intercalate_concat _ none]
            simp only [append_assoc]
        · have past : (front ++ [last]).length ≤ low - 1 := by
            rw [length_append, length_singleton]
            omega
          have pastToo : (front ++ [last ++ [byte]]).length ≤ low - 1 := by
            rw [length_append, length_singleton]
            omega
          rw [if_neg fun both => wanted both.1, picked, drop_eq_nil_of_le past,
            drop_eq_nil_of_le pastToo]
  · next same =>
      have mark : byte = newline := by simpa using same
      split at stepped
      · cases stepped
      · next notLast =>
          cases stepped
          have next : Word.saturatingAdd u64Values scan.line 1 = scan.line + 1 := by
            apply saturatingAdd_of_lt
            unfold bufferBytes at short
            unfold u64Values
            omega
          rw [mark]
          refine ⟨?_, ?_, ?_, ?_, ?_⟩
          · show Word.saturatingAdd u64Values scan.line 1 = _
            rw [next, splitOn_concat_mark, length_append, length_singleton, line]
          · show Word.saturatingAdd u64Values scan.line 1 ≤ _
            rw [next, length_append]
            exact Nat.succ_le_succ few
          · simp [splitOn_concat_mark]
          · show (if low ≤ scan.line then scan.picked ++ [newline] else scan.picked) = _
            rw [splitOn_concat_mark]
            by_cases wanted : low ≤ scan.line
            · have some_part : (before.splitOn newline).drop (low - 1) ≠ [] := by
                rw [ne_eq, drop_eq_nil_iff]
                omega
              rw [if_pos wanted, drop_append_of_le_length (by omega),
                intercalate_concat _ some_part, scanned.picked, append_nil]
            · rw [if_neg wanted, scanned.picked, drop_eq_nil_of_le (by omega)]
              rw [drop_append, drop_eq_nil_of_le (by omega), nil_append]
              cases low - 1 - (before.splitOn newline).length <;> simp
          · show Word.saturatingAdd u64Values scan.line 1 ≤ high
            rw [next]
            omega

variable {object : Bytes}

/-- `Scanned`, of as much as one buffer holds. -/
def Walked (low high : Nat) (before : Bytes) (scan : LineScan) : Prop :=
  before.length ≤ bufferBytes → Scanned low high before scan

theorem Walked.step (positive : 0 < low) (before : Bytes) (byte : UInt8) (scan after : LineScan)
    (walked : Walked low high before scan) (stepped : scan.step low high byte = .ok after) :
    Walked low high (before ++ [byte]) after := by
  intro short
  rw [length_append, length_singleton] at short
  exact (walked (by omega)).step positive (by omega) stepped

variable {scan : LineScan} {bytes : Bytes}

theorem Scanned.count (scanned : Scanned low high bytes scan) :
    scan.count = (objectLines bytes).length := by
  unfold LineScan.count objectLines
  have started := scanned.started
  by_cases ended : (bytes.splitOn newline).getLast? = some []
  · have still : scan.lineStarted = false := by
      rw [← Bool.not_eq_true, started]
      exact fun other => other ended
    simp only [ended, if_true, still, Bool.false_eq_true, if_false, length_dropLast, scanned.line]
  · simp only [ended, if_false, started.mpr ended, if_true, scanned.line]

end Walk

end Cas

end Sprawling
