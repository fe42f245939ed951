import Sprawling.Kernel.Spine.Table

namespace Sprawling.Spine

open List Text

def pad (cell : List Char) : List Char := ' ' :: (cell ++ [' '])

theorem foldl_drawCells (cells : List (List Char)) (line : List Char) :
    cells.foldl (fun line cell => line ++ ' ' :: cell ++ " |".toList) line =
      line ++ cells.flatMap fun cell => pad cell ++ ['|'] := by
  induction cells generalizing line with
  | nil => simp
  | cons cell cells ih =>
    rw [foldl_cons, ih, flatMap_cons]
    simp [pad]

variable {cells : List (List Char)}

theorem flatMap_bar (some_cell : cells ≠ []) :
    cells.flatMap (fun cell => pad cell ++ ['|']) = ['|'].intercalate (cells.map pad) ++ ['|'] := by
  induction cells with
  | nil => exact absurd rfl some_cell
  | cons cell cells ih =>
    cases cells with
    | nil => simp
    | cons next cells =>
      rw [flatMap_cons, ih (by simp)]
      simp [intercalate_cons_cons]

theorem drawCells_eq (some_cell : cells ≠ []) :
    drawCells cells = '|' :: (['|'].intercalate (cells.map pad) ++ ['|']) := by
  rw [drawCells, foldl_drawCells, flatMap_bar some_cell]
  rfl

/-- A drawn row is cut at every bar, those inside its cells included. -/
theorem splitTableRow_drawCells (some_cell : cells ≠ []) :
    splitTableRow (drawCells cells) =
      some (((cells.map pad).flatMap (List.splitOn '|')).map trim) := by
  have bar : Text.isWhitespace '|' = false := by decide
  have clean : Text.Trimmed (drawCells cells) := by
    rw [drawCells_eq some_cell]
    constructor
    · intro c first
      simp only [head?_cons, Option.some.injEq] at first
      rw [← first, bar]
    · intro c last
      rw [← cons_append, getLast?_concat] at last
      rw [← Option.some.inj last, bar]
  rw [splitTableRow, trim_of_trimmed clean, drawCells_eq some_cell]
  simp only [getLast?_concat, if_true, dropLast_concat]
  rw [splitOn_intercalate_flatMap _ (by simpa using some_cell)]

theorem flatMap_splitOn_pad (clean : ∀ cell ∈ cells, '|' ∉ cell) :
    (cells.map pad).flatMap (List.splitOn '|') = cells.map pad := by
  apply flatMap_splitOn_of_clean
  intro part member
  obtain ⟨cell, listed, rfl⟩ := mem_map.mp member
  simp [pad, clean cell listed]

theorem splitTableRow_drawn (some_cell : cells ≠ []) (clean : ∀ cell ∈ cells, '|' ∉ cell) :
    splitTableRow (drawCells cells) = some (cells.map trim) := by
  rw [splitTableRow_drawCells some_cell, flatMap_splitOn_pad clean, map_map]
  congr 2
  funext cell
  exact trim_blank cell

theorem newline_not_mem_drawCells (clean : ∀ cell ∈ cells, '\n' ∉ cell) :
    '\n' ∉ drawCells cells := by
  rw [drawCells, foldl_drawCells]
  intro member
  simp only [singleton_append, mem_cons, mem_flatMap, pad] at member
  rcases member with bar | ⟨cell, listed, inside⟩
  · exact absurd bar (by decide)
  · simp only [cons_append, append_assoc, mem_cons, mem_append, not_mem_nil, or_false] at inside
    rcases inside with blank | inside | blank | bar
    · exact absurd blank (by decide)
    · exact clean cell listed inside
    · exact absurd blank (by decide)
    · exact absurd bar (by decide)

variable {needs : List NodeId}

theorem drawNeeds_avoids {c : Char} (noDigit : c.isDigit = false)
    (noDot : c ≠ '.') (noGlue : c ∉ [',', ' ']) : c ∉ drawNeeds needs := by
  induction needs with
  | nil => simp [drawNeeds]
  | cons need needs ih =>
    have here := need.text_avoids noDigit noDot
    cases needs with
    | nil => simpa [drawNeeds] using here
    | cons next needs =>
      rw [drawNeeds, map_cons, map_cons, intercalate_cons_cons]
      simp only [mem_append, not_or]
      exact ⟨⟨here, noGlue⟩, ih⟩

theorem readNeeds_parts {parts : List (List Char)}
    (spelled : parts.map trim = needs.map NodeId.text) : readNeeds parts = .ok needs := by
  induction parts generalizing needs with
  | nil =>
    cases needs with
    | nil => rfl
    | cons need needs => simp at spelled
  | cons part parts ih =>
    cases needs with
    | nil => simp at spelled
    | cons need needs =>
      simp only [map_cons, List.cons.injEq] at spelled
      have parsed : NodeId.parse (trim part) = .ok need := by
        rw [NodeId.parse_eq_ok, spelled.1]
        exact trim_of_trimmed need.trimmed_text
      have filled : (trim part).isEmpty = false := by
        rw [spelled.1, isEmpty_eq_false_iff]
        exact need.text_ne_nil
      simp only [readNeeds, filled, parsed, ih spelled.2]
      rfl

theorem readNeeds_drawNeeds (needs : List NodeId) :
    readNeeds ((drawNeeds needs).splitOn ',') = .ok needs := by
  cases needs with
  | nil => decide
  | cons need needs =>
    apply readNeeds_parts
    have comma : ∀ part ∈ need.text :: needs.map NodeId.text, ',' ∉ part := by
      intro part member
      rw [← map_cons] at member
      obtain ⟨id, -, rfl⟩ := mem_map.mp member
      exact id.text_avoids (by decide) (by decide)
    have cut : (drawNeeds (need :: needs)).splitOn ',' =
        need.text :: (needs.map NodeId.text).map (' ' :: ·) := splitOn_comma_list comma
    have trimmed : ∀ id : NodeId, trim (' ' :: id.text) = id.text := fun id => by
      rw [trim_cons (by decide), trim_of_trimmed id.trimmed_text]
    rw [cut, map_cons, map_cons, trim_of_trimmed need.trimmed_text, map_map, map_map]
    congr 1
    apply map_congr_left
    intro id _
    exact trimmed id

theorem trim_drawNeeds (needs : List NodeId) : trim (drawNeeds needs) = drawNeeds needs := by
  apply trim_of_trimmed
  apply trimmed_intercalate
  intro part member
  obtain ⟨id, -, rfl⟩ := mem_map.mp member
  exact ⟨id.text_ne_nil, id.trimmed_text⟩

theorem readWeight_decimal (weight : UInt32) :
    readWeight (decimal weight.toNat) = .ok weight := by
  have filled : (decimal weight.toNat).isEmpty = false := by
    rw [isEmpty_eq_false_iff]
    exact decimal_ne_nil _
  simp [readWeight, filled, parseUnsigned_decimal weight.toNat_lt, u32Bound]

theorem parseStatus_spelling (status : RoadmapStatus) :
    parseStatus status.spelling = some status := by
  cases status <;> decide

theorem trim_spelling (status : RoadmapStatus) : trim status.spelling = status.spelling := by
  cases status <;> decide

theorem spelling_avoids (status : RoadmapStatus) :
    '|' ∉ status.spelling ∧ '\n' ∉ status.spelling := by
  cases status <;> decide

theorem decimal_avoids (value : Nat) : '|' ∉ decimal value ∧ '\n' ∉ decimal value :=
  ⟨fun member => absurd (decimal_digits value _ member) (by decide),
    fun member => absurd (decimal_digits value _ member) (by decide)⟩

/-- The six cells of a drawn row. -/
def rowCells (id : NodeId) (item : List Char) (weight : UInt32) (needs : List NodeId)
    (status : RoadmapStatus) (cell : List Char) : List (List Char) :=
  [id.text, item, decimal weight.toNat, drawNeeds needs, status.spelling, cell]

theorem readRow_rowCells (id : NodeId) (item : List Char) (weight : UInt32) (needs : List NodeId)
    (status : RoadmapStatus) (cell : List Char) :
    readRow ((rowCells id item weight needs status cell).map trim) =
      .ok { id, item := trim item, weight, needs, status,
            evidence := readEvidence (trim cell) } := by
  have index : NodeId.parse (trim id.text) = .ok id := by
    rw [NodeId.parse_eq_ok, trim_of_trimmed id.trimmed_text, trim_of_trimmed id.trimmed_text]
  have digits : trim (decimal weight.toNat) = decimal weight.toNat :=
    trim_of_trimmed (trimmed_of_digits (decimal_digits _))
  simp only [rowCells, map_cons, map_nil, readRow, index, digits, readWeight_decimal,
    trim_drawNeeds, readNeeds_drawNeeds, trim_spelling, parseStatus_spelling]
  rfl

theorem not_separator_rowCells (id : NodeId) (item : List Char) (weight : UInt32)
    (needs : List NodeId) (status : RoadmapStatus) (cell : List Char) :
    isSeparator ((rowCells id item weight needs status cell).map trim) = false := by
  obtain ⟨c, rest, shape⟩ := exists_cons_of_ne_nil id.text_ne_nil
  have head : trim id.text = c :: rest := by
    rw [trim_of_trimmed id.trimmed_text, shape]
  have member : c ∈ id.text := by simp [shape]
  have mark : c ≠ '-' ∧ c ≠ ':' := by
    constructor
    · rintro rfl
      exact id.text_avoids (by decide) (by decide) member
    · rintro rfl
      exact id.text_avoids (by decide) (by decide) member
  simp [rowCells, isSeparator, head, mark]

end Sprawling.Spine
