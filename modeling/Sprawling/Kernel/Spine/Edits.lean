import Sprawling.Kernel.Spine.Drawn

namespace Sprawling.Spine

open List Option Text

section Rewriting

variable (chosen : List (List Char) → Option (List Char))

/-- One line as `rewrite` leaves it inside the table. -/
def redraw (line : List Char) : List Char :=
  (((splitTableRow line).filter bodyRow).bind chosen).getD line

variable {cells : List (List Char)} {line : List Char}

theorem redraw_row (cut : splitTableRow line = some cells) :
    redraw chosen line = if bodyRow cells then (chosen cells).getD line else line := by
  rw [redraw, cut, filter_some]
  split <;> simp

theorem rewriteLines_done (inTable : Bool) (found : List (List Char)) :
    rewriteLines chosen inTable true found = found := by
  induction found generalizing inTable with
  | nil => rfl
  | cons line found ih => simp [rewriteLines, ih]

theorem rewriteLines_before {before : List (List Char)}
    (outside : ∀ line ∈ before, splitTableRow line = none) (rest : List (List Char)) :
    rewriteLines chosen false false (before ++ rest) =
      before ++ rewriteLines chosen false false rest := by
  induction before with
  | nil => rfl
  | cons line before ih =>
    have plain := outside line mem_cons_self
    have more := ih fun other member => outside other (mem_cons_of_mem _ member)
    simp [rewriteLines, plain, more]

theorem rewriteLines_row
    (cut : splitTableRow line = some cells) (inTable : Bool) (rest : List (List Char)) :
    rewriteLines chosen inTable false (line :: rest) =
      redraw chosen line :: rewriteLines chosen true false rest := by
  simp [rewriteLines, redraw, cut]

variable {rows : List RoadmapRow}

theorem rewriteLines_body {body : List (List Char)}
    (reads : ReadsBody body rows) (rest : List (List Char)) :
    rewriteLines chosen true false (body ++ rest) =
      body.map (redraw chosen) ++ rewriteLines chosen true false rest := by
  induction reads with
  | nil => rfl
  | separator cut _ _ _ ih => simp [rewriteLines_row chosen cut, ih]
  | row cut _ _ _ _ ih => simp [rewriteLines_row chosen cut, ih]

theorem rewriteLines_after {after : List (List Char)}
    (ended : ∀ line, after.head? = some line → splitTableRow line = none) :
    rewriteLines chosen true false after = after := by
  cases after with
  | nil => rfl
  | cons line after => simp [rewriteLines, ended line rfl, rewriteLines_done]

theorem rewriteLines_table {table : Table} (reads : table.Reads rows) :
    rewriteLines chosen false false table.lines =
      table.before ++ redraw chosen table.header ::
        (table.body.map (redraw chosen) ++ table.after) := by
  obtain ⟨cells, cut, -⟩ := reads.headed
  rw [Table.lines, rewriteLines_before chosen reads.outside, rewriteLines_row chosen cut,
    rewriteLines_body chosen reads.body, rewriteLines_after chosen reads.ended]

end Rewriting

variable {cells : List (List Char)} {row : RoadmapRow}

theorem readRow_spec (read : readRow cells = .ok row) :
    indexOf cells = some row.id ∧ row.item ∈ cells := by
  unfold readRow at read
  split at read
  · rename_i indexCell itemCell weightCell needsCell statusCell evidenceCell more
    obtain ⟨id, index, read⟩ := Outcome.bind_eq_ok.mp read
    obtain ⟨weight, -, read⟩ := Outcome.bind_eq_ok.mp read
    obtain ⟨needs, -, read⟩ := Outcome.bind_eq_ok.mp read
    split at read
    · cases read
    · cases read
      cases parsed : NodeId.parse indexCell with
      | error refused =>
        rw [parsed] at index
        cases index
      | ok found =>
        rw [parsed] at index
        cases index
        simp [indexOf, parsed, Except.toOption]
  · cases read

variable {body : List (List Char)}

/-- The line of each row, with the lines before and after it. -/
theorem ReadsBody.split {front back : List RoadmapRow}
    (reads : ReadsBody body (front ++ row :: back)) :
    ∃ first line cells last, body = first ++ line :: last ∧ ReadsBody first front ∧
      splitTableRow line = some cells ∧ cells.length = roadmapColumns ∧
      isSeparator cells = false ∧ readRow cells = .ok row ∧ ReadsBody last back := by
  generalize listed : front ++ row :: back = rows at reads
  induction reads generalizing front with
  | nil => simp at listed
  | @separator line cells body rows cut six ruled rest ih =>
    obtain ⟨first, here, parts, last, rfl, before, found⟩ := ih listed
    exact ⟨line :: first, here, parts, last, rfl, .separator cut six ruled before, found⟩
  | @row line cells body next rows cut six plain read rest ih =>
    cases front with
    | nil =>
      simp only [nil_append, List.cons.injEq] at listed
      obtain ⟨rfl, rfl⟩ := listed
      exact ⟨[], line, cells, body, rfl, .nil, cut, six, plain, read, rest⟩
    | cons leading front =>
      simp only [cons_append, List.cons.injEq] at listed
      obtain ⟨rfl, listed⟩ := listed
      obtain ⟨first, here, parts, last, rfl, before, found⟩ := ih listed
      exact ⟨line :: first, here, parts, last, rfl, .row cut six plain read before, found⟩

theorem splitTableRow_cells {line : List Char}
    (cut : splitTableRow line = some cells) {cell : List Char} (member : cell ∈ cells) :
    trim cell = cell ∧ '|' ∉ cell ∧ ∀ c ∈ cell, c ∈ line := by
  unfold splitTableRow at cut
  split at cut
  · rename_i rest shape
    split at cut
    · cases cut
      obtain ⟨part, listed, rfl⟩ := mem_map.mp member
      refine ⟨trim_of_trimmed (trimmed_trim part), ?_, fun c inside => ?_⟩
      · exact fun bar => not_mem_of_mem_splitOn listed (mem_of_mem_trim bar)
      · have inPart := mem_of_mem_trim inside
        have inRest := dropLast_subset _ (mem_of_mem_splitOn listed inPart)
        apply mem_of_mem_trim
        rw [shape]
        exact mem_cons_of_mem _ inRest
    · cases cut
  · cases cut

variable {rows : List RoadmapRow}

theorem redraw_body {chosen : List (List Char) → Option (List Char)} (reads : ReadsBody body rows)
    (missed : ∀ row ∈ rows, ∀ cells, indexOf cells = some row.id → chosen cells = none) :
    body.map (redraw chosen) = body := by
  induction reads with
  | nil => rfl
  | @separator line cells body rows cut six ruled rest ih =>
    have kept : redraw chosen line = line := by simp [redraw_row chosen cut, bodyRow, ruled]
    rw [map_cons, kept, ih missed]
  | @row line cells body first rows cut six plain read rest ih =>
    have away := missed first mem_cons_self cells (readRow_spec read).1
    have kept : redraw chosen line = line := by simp [redraw_row chosen cut, away]
    rw [map_cons, kept, ih fun row member => missed row (mem_cons_of_mem _ member)]

theorem locateFrom_before {before : List (List Char)}
    (outside : ∀ line ∈ before, splitTableRow line = none) (n : Nat) (rest : List (List Char)) :
    locateFrom n none (before ++ rest) = locateFrom (n + before.length) none rest := by
  induction before generalizing n with
  | nil => rfl
  | cons line before ih =>
    have plain := outside line mem_cons_self
    have more := ih (fun other member => outside other (mem_cons_of_mem _ member)) (n + 1)
    simp only [cons_append, locateFrom, plain, isSome_none, Bool.false_eq_true,
      if_false, more, length_cons]
    congr 1
    omega

theorem locateFrom_body (reads : ReadsBody body rows) (first last : Nat) (rest : List (List Char)) :
    locateFrom (last + 1) (some (first, last)) (body ++ rest) =
      locateFrom (last + body.length + 1) (some (first, last + body.length)) rest := by
  induction reads generalizing last with
  | nil => rfl
  | separator cut _ _ _ ih =>
    simp only [cons_append, locateFrom, cut, isSome_some, if_true, map_some,
      getD_some, ih, length_cons, Nat.add_right_comm last 1, Nat.add_assoc]
  | row cut _ _ _ _ ih =>
    simp only [cons_append, locateFrom, cut, isSome_some, if_true, map_some,
      getD_some, ih, length_cons, Nat.add_right_comm last 1, Nat.add_assoc]

theorem locateTable_reads {text : List Char} {table : Table}
    (cut : table.lines = splitLines text) (reads : table.Reads rows) :
    locateTable text = some (table.before.length, table.before.length + table.body.length) := by
  obtain ⟨cells, headed, -⟩ := reads.headed
  rw [locateTable, ← cut, Table.lines, locateFrom_before reads.outside]
  simp only [Nat.zero_add, locateFrom, headed, isSome_some, if_true, map_none, getD_none]
  rw [locateFrom_body reads.body]
  cases listed : table.after with
  | nil => rfl
  | cons line after => simp [locateFrom, reads.ended line (by simp [listed])]

end Sprawling.Spine
