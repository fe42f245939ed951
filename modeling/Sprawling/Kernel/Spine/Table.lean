import Sprawling.Base.Outcome
import Sprawling.Kernel.Spine.Rewrite

namespace Sprawling.Spine

open List Scan

/-- The body lines of a table with the rows they read as; separators read as nothing. -/
inductive ReadsBody : List (List Char) → List RoadmapRow → Prop where
  | nil : ReadsBody [] []
  | separator {line : List Char} {cells : List (List Char)} {body : List (List Char)}
      {rows : List RoadmapRow} (cut : splitTableRow line = some cells)
      (six : cells.length = roadmapColumns) (ruled : isSeparator cells = true)
      (rest : ReadsBody body rows) : ReadsBody (line :: body) rows
  | row {line : List Char} {cells : List (List Char)} {body : List (List Char)}
      {first : RoadmapRow} {rows : List RoadmapRow} (cut : splitTableRow line = some cells)
      (six : cells.length = roadmapColumns) (plain : isSeparator cells = false)
      (read : readRow cells = .ok first) (rest : ReadsBody body rows) :
      ReadsBody (line :: body) (first :: rows)

/-- A text cut at its first table. -/
structure Table where
  before : List (List Char)
  header : List Char
  body : List (List Char)
  after : List (List Char)

namespace Table

def lines (table : Table) : List (List Char) :=
  table.before ++ table.header :: (table.body ++ table.after)

/-- The table is the first one, has six columns throughout and reads as `rows`. -/
structure Reads (table : Table) (rows : List RoadmapRow) : Prop where
  outside : ∀ line ∈ table.before, splitTableRow line = none
  headed : ∃ cells, splitTableRow table.header = some cells ∧ cells.length = roadmapColumns
  body : ReadsBody table.body rows
  ended : ∀ line, table.after.head? = some line → splitTableRow line = none

end Table

theorem ReadsBody.append {first second : List (List Char)} {one two : List RoadmapRow}
    (left : ReadsBody first one) (right : ReadsBody second two) :
    ReadsBody (first ++ second) (one ++ two) := by
  induction left with
  | nil => exact right
  | separator cut six ruled _ ih => exact .separator cut six ruled ih
  | row cut six plain read _ ih => exact .row cut six plain read ih

example : scanLines 1 true true [] = { rows := [], problems := [], headerSeen := true } := by
  rw [scanLines]

variable {body : List (List Char)} {rows : List RoadmapRow}

theorem scanLines_body (reads : ReadsBody body rows) (lineNo : Nat) (rest : List (List Char)) :
    ∃ later, scanLines lineNo true true (body ++ rest) =
      { scanLines later true true rest with
        rows := rows ++ (scanLines later true true rest).rows } := by
  induction reads generalizing lineNo with
  | nil => exact ⟨lineNo, rfl⟩
  | separator cut six ruled _ ih =>
    obtain ⟨later, same⟩ := ih (lineNo + 1)
    exact ⟨later, by simp only [cons_append, scanLines, cut, six, ruled]; simpa using same⟩
  | row cut six plain read _ ih =>
    obtain ⟨later, same⟩ := ih (lineNo + 1)
    refine ⟨later, ?_⟩
    simp only [cons_append, scanLines, cut, six, plain, read]
    simp [same, addRow]

variable {before : List (List Char)} {header : List Char} {cells : List (List Char)}

theorem scanLines_front (outside : ∀ line ∈ before, splitTableRow line = none)
    (cut : splitTableRow header = some cells) (six : cells.length = roadmapColumns) (lineNo : Nat)
    (rest : List (List Char)) :
    scanLines lineNo false false (before ++ header :: rest) =
      scanLines (lineNo + before.length + 1) true true rest := by
  induction before generalizing lineNo with
  | nil => simp [scanLines, cut, six]
  | cons line before ih =>
    have plain := outside line mem_cons_self
    have more := ih (fun other member => outside other (mem_cons_of_mem _ member)) (lineNo + 1)
    simp only [cons_append, scanLines, plain, Bool.false_eq_true, if_false, more]
    congr 1
    simp only [length_cons]
    omega

theorem scanLines_after {after : List (List Char)}
    (ended : ∀ line, after.head? = some line → splitTableRow line = none) (lineNo : Nat) :
    scanLines lineNo true true after = { rows := [], problems := [], headerSeen := true } := by
  cases after with
  | nil => rfl
  | cons line after => simp [scanLines, ended line rfl]

variable {rest : List (List Char)}

theorem scanLines_through (outside : ∀ line ∈ before, splitTableRow line = none)
    (headed : ∃ cells, splitTableRow header = some cells ∧ cells.length = roadmapColumns)
    (reads : ReadsBody body rows) (lineNo : Nat) :
    ∃ later, scanLines lineNo false false (before ++ header :: (body ++ rest)) =
      { scanLines later true true rest with
        rows := rows ++ (scanLines later true true rest).rows } := by
  obtain ⟨cells, cut, six⟩ := headed
  rw [scanLines_front outside cut six]
  exact scanLines_body reads _ rest

variable {found : List (List Char)} {lineNo : Nat}

theorem readsBody_of_scan
    (clean : scanLines lineNo true true found = { rows, problems := [], headerSeen := true }) :
    ∃ body after, found = body ++ after ∧ ReadsBody body rows ∧
      ∀ line, after.head? = some line → splitTableRow line = none := by
  induction found generalizing lineNo rows with
  | nil =>
    simp only [scanLines, Scan.mk.injEq] at clean
    exact ⟨[], [], rfl, clean.1 ▸ .nil, by simp⟩
  | cons line found ih =>
    cases cut : splitTableRow line with
    | none =>
      simp only [scanLines, cut, if_true, Scan.mk.injEq] at clean
      refine ⟨[], line :: found, rfl, clean.1 ▸ .nil, ?_⟩
      intro other first
      simp only [head?_cons, Option.some.injEq] at first
      rw [← first, cut]
    | some cells =>
      simp only [scanLines, cut] at clean
      split at clean
      · simp [addProblem] at clean
      · rename_i six
        simp only [ne_eq, not_not] at six
        simp only [Bool.not_true, Bool.false_eq_true, if_false] at clean
        split at clean
        · rename_i ruled
          obtain ⟨body, after, rfl, reads, ended⟩ := ih clean
          exact ⟨line :: body, after, rfl, .separator cut six ruled reads, ended⟩
        · rename_i plain
          cases read : readRow cells with
          | error why => simp [read, addProblem] at clean
          | ok row =>
            simp only [read, addRow, Scan.mk.injEq] at clean
            cases scanned : scanLines (lineNo + 1) true true found with
            | mk others problems headerSeen =>
              simp only [scanned] at clean
              obtain ⟨listed, rfl, rfl⟩ := clean
              obtain ⟨body, after, rfl, reads, ended⟩ := ih scanned
              refine ⟨line :: body, after, rfl, ?_, ended⟩
              rw [← listed]
              exact .row cut six (by simpa using plain) read reads

theorem reads_of_scan
    (clean : scanLines lineNo false false found = { rows, problems := [], headerSeen := true }) :
    ∃ table : Table, table.lines = found ∧ table.Reads rows := by
  induction found generalizing lineNo with
  | nil => simp [scanLines] at clean
  | cons line found ih =>
    cases cut : splitTableRow line with
    | none =>
      simp only [scanLines, cut, Bool.false_eq_true, if_false] at clean
      obtain ⟨table, rfl, reads⟩ := ih clean
      refine ⟨{ table with before := line :: table.before }, rfl, ?_, reads.headed, reads.body,
        reads.ended⟩
      intro other member
      rcases mem_cons.mp member with rfl | member
      · exact cut
      · exact reads.outside other member
    | some cells =>
      simp only [scanLines, cut] at clean
      split at clean
      · simp [addProblem] at clean
      · rename_i six
        simp only [ne_eq, not_not] at six
        simp only [Bool.not_false, if_true] at clean
        obtain ⟨body, after, rfl, reads, ended⟩ := readsBody_of_scan clean
        exact ⟨⟨[], line, body, after⟩, rfl, by simp, ⟨cells, cut, six⟩, reads, ended⟩

theorem splitTableRow_stripReturn (line : List Char) :
    splitTableRow (stripReturn line) = splitTableRow line := by
  have same : Text.trim (stripReturn line) = Text.trim line := by
    unfold stripReturn
    split
    · rename_i last
      obtain ⟨front, rfl⟩ := getLast?_eq_some_iff.mp last
      rw [dropLast_concat]
      have blank : Text.isWhitespace '\r' = true := by decide
      exact (Text.trim_concat blank front).symm
    · rfl
  rw [splitTableRow, splitTableRow, same]

theorem scanLines_map_stripReturn (found rest : List (List Char)) (lineNo : Nat)
    (inTable headerSeen : Bool) :
    scanLines lineNo inTable headerSeen (found.map stripReturn ++ rest) =
      scanLines lineNo inTable headerSeen (found ++ rest) := by
  induction found generalizing lineNo inTable headerSeen with
  | nil => rfl
  | cons line found ih =>
    simp only [map_cons, cons_append, scanLines, splitTableRow_stripReturn, ih]

theorem scanLines_concat_empty (found : List (List Char)) (lineNo : Nat)
    (inTable headerSeen : Bool) :
    scanLines lineNo inTable headerSeen (found ++ [[]]) =
      scanLines lineNo inTable headerSeen found := by
  induction found generalizing lineNo inTable headerSeen with
  | nil =>
    have empty : splitTableRow [] = none := by decide
    simp [scanLines, empty]
  | cons line found ih => simp only [cons_append, scanLines, ih]

theorem scanLines_lines (text : List Char) (lineNo : Nat) (inTable headerSeen : Bool) :
    scanLines lineNo inTable headerSeen (lines text) =
      scanLines lineNo inTable headerSeen (splitLines text) := by
  obtain ⟨front, last, shape⟩ : ∃ front last, splitLines text = front ++ [last] := by
    rcases eq_nil_or_concat (splitLines text) with empty | ⟨front, last, shape⟩
    · exact absurd empty (splitOn_ne_nil _ _)
    · exact ⟨front, last, by simpa using shape⟩
  simp only [lines, shape, dropLast_concat, getLast?_concat, Option.toList_some]
  rw [scanLines_map_stripReturn]
  cases last with
  | nil => simp [scanLines_concat_empty]
  | cons c rest => simp

variable {text : List Char}

theorem checkRoadmapShape_eq :
    checkRoadmapShape text = .wellFormed rows ↔
      scanLines 1 false false (splitLines text) = { rows, problems := [], headerSeen := true } := by
  unfold checkRoadmapShape
  rw [scanLines_lines]
  cases scanLines 1 false false (splitLines text) with
  | mk found problems headerSeen =>
    cases headerSeen <;> cases problems <;> simp

theorem reads_of_check (shape : checkRoadmapShape text = .wellFormed rows) :
    ∃ table : Table, table.lines = splitLines text ∧ table.Reads rows :=
  reads_of_scan (checkRoadmapShape_eq.mp shape)

theorem check_of_reads {table : Table} (cut : splitLines text = table.lines)
    (reads : table.Reads rows) : checkRoadmapShape text = .wellFormed rows := by
  rw [checkRoadmapShape_eq, cut, Table.lines]
  obtain ⟨later, scanned⟩ := scanLines_through reads.outside reads.headed reads.body 1
  rw [scanned, scanLines_after reads.ended]
  simp

theorem check_of_cut {stop : List Char}
    (cut : splitLines text = before ++ header :: (body ++ stop :: rest))
    (outside : ∀ line ∈ before, splitTableRow line = none)
    (headed : ∃ cells, splitTableRow header = some cells ∧ cells.length = roadmapColumns)
    (reads : ReadsBody body rows) (stops : splitTableRow stop = none) :
    checkRoadmapShape text = .wellFormed rows := by
  have shape : splitLines text = (Table.mk before header body (stop :: rest)).lines := cut
  refine check_of_reads shape ⟨outside, headed, reads, ?_⟩
  intro line first
  simp only [head?_cons, Option.some.injEq] at first
  rw [← first, stops]

theorem check_ne_of_columns {wide : List Char}
    (cut : splitLines text = before ++ header :: (body ++ wide :: rest))
    (outside : ∀ line ∈ before, splitTableRow line = none)
    (headed : ∃ cells, splitTableRow header = some cells ∧ cells.length = roadmapColumns)
    (reads : ReadsBody body rows) (parts : splitTableRow wide = some cells)
    (many : cells.length ≠ roadmapColumns) (others : List RoadmapRow) :
    checkRoadmapShape text ≠ .wellFormed others := by
  intro clean
  rw [checkRoadmapShape_eq, cut] at clean
  obtain ⟨later, scanned⟩ := scanLines_through outside headed reads 1
  rw [scanned] at clean
  simp [scanLines, parts, many, addProblem] at clean

end Sprawling.Spine
