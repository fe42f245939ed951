import Mathlib.Data.List.Nodup
import Sprawling.Kernel.Spine.Edits

namespace Sprawling.Spine

open List Text

/-- The three edits of the table. -/
inductive RoadmapEdit where
  | setStatus (id : NodeId) (status : RoadmapStatus) (evidence : Option Locator)
  | insertChildren (parent : NodeId) (children : List NewChild)
  | appendTopLevel (id : NodeId) (child : NewChild)

def RoadmapEdit.apply (text : List Char) : RoadmapEdit → Except AxError (List Char)
  | setStatus id status evidence => setRoadmapStatus text id status evidence
  | insertChildren parent children => Spine.insertChildren text parent children
  | appendTopLevel id child => Spine.appendTopLevel text id child

/-- Line `n` is the table line below the header that spells `id`. -/
def LineOfRow (text : List Char) (id : NodeId) (n : Nat) : Prop :=
  ∃ first last line cells, locateTable text = some (first, last) ∧ first < n ∧ n ≤ last ∧
    (splitLines text)[n]? = some line ∧ splitTableRow line = some cells ∧ indexOf cells = some id

def evidenceCell : Option Locator → EvidenceCell
  | none => .empty
  | some locator => .present locator

/-- The row with its status and evidence changed. -/
def updateRow (id : NodeId) (status : RoadmapStatus) (evidence : Option Locator)
    (row : RoadmapRow) : RoadmapRow :=
  if row.id = id then { row with status, evidence := evidenceCell evidence } else row

/-- The row a new child becomes. -/
def newRow (id : NodeId) (child : NewChild) : RoadmapRow :=
  { id, item := trim child.item, weight := child.weight, needs := [],
    status := .notStarted, evidence := .empty }

/-- The rows of new children under `parent`, one ordinal after another from `last` on. -/
def newRows (parent : NodeId) : Nat → List NewChild → Except AxError (List RoadmapRow)
  | _, [] => .ok []
  | last, child :: children => do
      let next := min (last + 1) (u32Bound - 1)
      let id ← parent.child next
      let rows ← newRows parent next children
      return newRow id child :: rows

/-- The largest ordinal among the children of `parent`. -/
def lastOrdinal (rows : List RoadmapRow) (parent : NodeId) : Nat :=
  ((rows.filter fun row => row.id.parent = some parent).map fun row => row.id.ordinal).foldl max 0

/-- The row is `parent` or hangs below it. -/
def BelongsTo (parent : NodeId) (row : RoadmapRow) : Prop :=
  row.id = parent ∨ parent.isAncestorOf row.id = true

/-- One line of the text is another and the rest is as it was. -/
def OnlyLineChanged (text out : List Char) (n : Nat) : Prop :=
  (splitLines out).length = (splitLines text).length ∧
    ∀ m, m ≠ n → (splitLines out)[m]? = (splitLines text)[m]?

/-- As many lines as there are new rows were put in at one place. -/
def OnlyLinesAdded (text out : List Char) (count : Nat) : Prop :=
  ∃ before drawn after, splitLines text = before ++ after ∧
    splitLines out = before ++ drawn ++ after ∧ drawn.length = count

/-- The edit did to the text and its rows what it is for. -/
def Carried (text : List Char) (rows : List RoadmapRow) (out : List Char) : RoadmapEdit → Prop
  | .setStatus id status evidence =>
    (∃ n, LineOfRow text id n ∧ OnlyLineChanged text out n) ∧
      checkRoadmapShape out = .wellFormed (rows.map (updateRow id status evidence))
  | .insertChildren parent children =>
    OnlyLinesAdded text out children.length ∧
      ∃ front back last added, rows = front ++ back ∧ front.getLast? = some last ∧
        BelongsTo parent last ∧ (∀ row ∈ back, ¬ BelongsTo parent row) ∧
        newRows parent (lastOrdinal rows parent) children = .ok added ∧
        checkRoadmapShape out = .wellFormed (front ++ added ++ back)
  | .appendTopLevel id child =>
    OnlyLinesAdded text out 1 ∧ checkRoadmapShape out = .wellFormed (rows ++ [newRow id child])

/-- The table's first line spells no `id`, or is already the line that would replace it. -/
def HeaderKept (text : List Char) (rows : List RoadmapRow) (id : NodeId) (status : RoadmapStatus)
    (evidence : Option Locator) : Prop :=
  ∀ first last header cells row, locateTable text = some (first, last) →
    (splitLines text)[first]? = some header → splitTableRow header = some cells →
    bodyRow cells = true → indexOf cells = some id → row ∈ rows → row.id = id →
    header = drawRow row status evidence

/-- What has to hold for an edit to read back. -/
def ReadsBack (text : List Char) (rows : List RoadmapRow) : RoadmapEdit → Prop
  | .setStatus id status evidence =>
    (∀ locator, evidence = some locator →
      '|' ∉ locator.display ∧ Locator.parse locator.display = .ok locator) ∧
    HeaderKept text rows id status evidence
  | .insertChildren _ children => ∀ child ∈ children, '\n' ∉ trim child.item
  | .appendTopLevel _ child => '\n' ∉ trim child.item

section Lines

theorem newline_not_mem_lines {text line : List Char} (member : line ∈ splitLines text) :
    '\n' ∉ line := not_mem_of_mem_splitOn member

theorem splitLines_joinLines {found : List (List Char)} (some_line : found ≠ [])
    (clean : ∀ line ∈ found, '\n' ∉ line) : splitLines (joinLines found) = found := by
  rw [splitLines, joinLines, splitOn_intercalate_flatMap _ some_line,
    flatMap_splitOn_of_clean clean]

end Lines

section SetStatus

variable {text : List Char} {rows : List RoadmapRow} {id : NodeId}
  {status : RoadmapStatus} {evidence : Option Locator} {row : RoadmapRow}

/-- What `setRoadmapStatus` puts in place of each line it takes for the row. -/
def chosenRow (id : NodeId) (replacement : List Char) (cells : List (List Char)) :
    Option (List Char) :=
  if indexOf cells = some id then some replacement else none

variable {out : List Char}

theorem setRoadmapStatus_ok (shape : checkRoadmapShape text = .wellFormed rows)
    (accepted : setRoadmapStatus text id status evidence = .ok out) :
    ∃ row, row ∈ rows ∧ row.id = id ∧
      out = rewrite text (chosenRow id (drawRow row status evidence)) := by
  unfold setRoadmapStatus at accepted
  split at accepted
  · cases accepted
  · rw [wellFormed, shape] at accepted
    dsimp only [bind, Except.bind] at accepted
    split at accepted
    · cases accepted
    · rename_i row found
      cases accepted
      exact ⟨row, mem_of_find?_eq_some found, by simpa using find?_some found, rfl⟩

theorem drawRow_eq (row : RoadmapRow) (status : RoadmapStatus) (evidence : Option Locator) :
    drawRow row status evidence = drawCells (rowCells row.id row.item row.weight row.needs status
      ((evidence.map Locator.display).getD [])) := rfl

theorem evidence_newline (evidence : Option Locator) :
    '\n' ∉ (evidence.map Locator.display).getD [] := by
  cases evidence with
  | none => simp
  | some locator => exact locator.newline_not_mem_display

variable {item cell : List Char}

theorem rowCells_newline (id : NodeId) (weight : UInt32)
    (needs : List NodeId) (status : RoadmapStatus) (plainItem : '\n' ∉ item)
    (plainCell : '\n' ∉ cell) : ∀ c ∈ rowCells id item weight needs status cell, '\n' ∉ c := by
  intro c member
  simp only [rowCells, mem_cons, not_mem_nil, or_false] at member
  rcases member with rfl | rfl | rfl | rfl | rfl | rfl
  · exact id.text_avoids (by decide) (by decide)
  · exact plainItem
  · exact (decimal_avoids _).2
  · exact drawNeeds_avoids (by decide) (by decide) (by decide)
  · exact (spelling_avoids status).2
  · exact plainCell

theorem rowCells_bar (id : NodeId) (weight : UInt32) (needs : List NodeId)
    (status : RoadmapStatus) (plainItem : '|' ∉ item) (plainCell : '|' ∉ cell) :
    ∀ c ∈ rowCells id item weight needs status cell, '|' ∉ c := by
  intro c member
  simp only [rowCells, mem_cons, not_mem_nil, or_false] at member
  rcases member with rfl | rfl | rfl | rfl | rfl | rfl
  · exact id.text_avoids (by decide) (by decide)
  · exact plainItem
  · exact (decimal_avoids _).1
  · exact drawNeeds_avoids (by decide) (by decide) (by decide)
  · exact (spelling_avoids status).1
  · exact plainCell

theorem readsBody_drawn (id : NodeId) (weight : UInt32)
    (needs : List NodeId) (status : RoadmapStatus) (plainItem : '|' ∉ item)
    (plainCell : '|' ∉ cell) :
    ReadsBody [drawCells (rowCells id item weight needs status cell)]
      [{ id, item := trim item, weight, needs, status,
         evidence := readEvidence (trim cell) }] :=
  .row (splitTableRow_drawn (by simp [rowCells]) (rowCells_bar id weight needs status plainItem
    plainCell)) rfl (not_separator_rowCells id item weight needs status cell)
    (readRow_rowCells id item weight needs status cell) .nil

/-- A text whose table holds a row, cut at that row's line. -/
structure RowAt (text : List Char) (rows : List RoadmapRow) (row : RoadmapRow) where
  before : List (List Char)
  header : List Char
  first : List (List Char)
  line : List Char
  last : List (List Char)
  after : List (List Char)
  front : List RoadmapRow
  back : List RoadmapRow
  cells : List (List Char)
  headCells : List (List Char)
  lines : splitLines text = before ++ header :: ((first ++ line :: last) ++ after)
  listed : rows = front ++ row :: back
  outside : ∀ line ∈ before, splitTableRow line = none
  headCut : splitTableRow header = some headCells
  headSix : headCells.length = roadmapColumns
  readsFirst : ReadsBody first front
  cut : splitTableRow line = some cells
  six : cells.length = roadmapColumns
  plain : isSeparator cells = false
  read : readRow cells = .ok row
  readsLast : ReadsBody last back
  ended : ∀ line, after.head? = some line → splitTableRow line = none

theorem exists_rowAt (shape : checkRoadmapShape text = .wellFormed rows) (member : row ∈ rows) :
    Nonempty (RowAt text rows row) := by
  obtain ⟨table, lines, reads⟩ := reads_of_check shape
  obtain ⟨front, back, rfl⟩ := append_of_mem member
  obtain ⟨headCells, headCut, headSix⟩ := reads.headed
  obtain ⟨first, line, cells, last, split, readsFirst, cut, six, plain, read, readsLast⟩ :=
    reads.body.split
  rw [Table.lines, split] at lines
  exact ⟨⟨table.before, table.header, first, line, last, table.after, front, back, cells, headCells,
    lines.symm, rfl, reads.outside, headCut, headSix, readsFirst, cut, six, plain, read, readsLast,
    reads.ended⟩⟩

namespace RowAt

variable (place : RowAt text rows row)

def table : Table :=
  ⟨place.before, place.header, place.first ++ place.line :: place.last, place.after⟩

theorem reads : place.table.Reads rows := by
  refine ⟨place.outside, ⟨place.headCells, place.headCut, place.headSix⟩, ?_, place.ended⟩
  have body := place.readsFirst.append
    (.row place.cut place.six place.plain place.read place.readsLast)
  rwa [← place.listed] at body

theorem locate : locateTable text =
    some (place.before.length,
      place.before.length + (place.first ++ place.line :: place.last).length) := by
  have lines : place.table.lines = splitLines text := place.lines.symm
  exact locateTable_reads lines place.reads

/-- The lines once the row's line and perhaps the header were replaced. -/
def replaced (header line : List Char) : List (List Char) :=
  place.before ++ header :: ((place.first ++ line :: place.last) ++ place.after)

include place in
theorem item_avoids : '|' ∉ row.item ∧ '\n' ∉ row.item ∧ trim row.item = row.item := by
  have listed := (readRow_spec place.read).2
  obtain ⟨trimmed, bar, inside⟩ := splitTableRow_cells place.cut listed
  refine ⟨bar, fun newline => ?_, trimmed⟩
  have inText : place.line ∈ splitLines text := by
    rw [place.lines]
    simp
  exact newline_not_mem_lines inText (inside _ newline)

theorem others_apart (distinct : (rows.map fun row => row.id).Nodup) :
    (∀ other ∈ place.front, other.id ≠ row.id) ∧ ∀ other ∈ place.back, other.id ≠ row.id := by
  rw [place.listed, map_append, map_cons, nodup_append] at distinct
  obtain ⟨-, backDistinct, apart⟩ := distinct
  refine ⟨fun other member => ?_, fun other member same => ?_⟩
  · exact apart _ (mem_map.mpr ⟨other, member, rfl⟩) _ mem_cons_self
  · exact (nodup_cons.mp backDistinct).1 (mem_map.mpr ⟨other, member, same⟩)

theorem splitLines_rewrite (distinct : (rows.map fun row => row.id).Nodup)
    (status : RoadmapStatus) (evidence : Option Locator) :
    splitLines (rewrite text (chosenRow row.id (drawRow row status evidence))) =
      place.replaced (redraw (chosenRow row.id (drawRow row status evidence)) place.header)
        (drawRow row status evidence) := by
  have apart := place.others_apart distinct
  have missed : ∀ other : RoadmapRow, other.id ≠ row.id → ∀ cells,
      indexOf cells = some other.id →
        chosenRow row.id (drawRow row status evidence) cells = none := by
    intro other away cells index
    rw [chosenRow, index, if_neg]
    simpa using away
  have hit : redraw (chosenRow row.id (drawRow row status evidence)) place.line =
      drawRow row status evidence := by
    have body : bodyRow place.cells = true := by simp [bodyRow, place.six, place.plain]
    rw [redraw_row _ place.cut, if_pos body, chosenRow, if_pos (readRow_spec place.read).1]
    rfl
  have drawnPlain : '\n' ∉ drawRow row status evidence := by
    rw [drawRow_eq]
    exact newline_not_mem_drawCells (rowCells_newline _ _ _ _ place.item_avoids.2.1
      (evidence_newline evidence))
  have rewritten : rewriteLines (chosenRow row.id (drawRow row status evidence)) false false
      (splitLines text) = place.replaced
        (redraw (chosenRow row.id (drawRow row status evidence)) place.header)
        (drawRow row status evidence) := by
    rw [place.lines]
    change rewriteLines _ false false place.table.lines = _
    rw [rewriteLines_table _ place.reads]
    simp only [table, map_append, map_cons, hit, replaced]
    rw [redraw_body place.readsFirst fun other member => missed other (apart.1 other member),
      redraw_body place.readsLast fun other member => missed other (apart.2 other member)]
  have headPlain : '\n' ∉ redraw (chosenRow row.id (drawRow row status evidence)) place.header := by
    have inText : place.header ∈ splitLines text := by
      rw [place.lines]
      simp
    have headLine := newline_not_mem_lines inText
    rw [redraw_row _ place.headCut]
    split
    · rw [chosenRow]
      split
      · exact drawnPlain
      · exact headLine
    · exact headLine
  rw [rewrite, rewritten, splitLines_joinLines (by simp [replaced])]
  intro line member
  have others : line ∈ splitLines text → '\n' ∉ line := newline_not_mem_lines
  rw [place.lines] at others
  simp only [replaced, mem_append, mem_cons] at member others
  rcases member with inside | rfl | (inside | rfl | inside) | inside
  · exact others (Or.inl inside)
  · exact headPlain
  · exact others (Or.inr (Or.inr (Or.inl (Or.inl inside))))
  · exact drawnPlain
  · exact others (Or.inr (Or.inr (Or.inl (Or.inr (Or.inr inside)))))
  · exact others (Or.inr (Or.inr (Or.inr inside)))

theorem check_replaced {drawn : RoadmapRow} {header line : List Char}
    (lines : splitLines out = place.replaced header line)
    (headed : ∃ cells, splitTableRow header = some cells ∧ cells.length = roadmapColumns)
    (reads : ReadsBody [line] [drawn]) :
    checkRoadmapShape out = .wellFormed (place.front ++ drawn :: place.back) := by
  have shape : splitLines out =
      (Table.mk place.before header (place.first ++ line :: place.last) place.after).lines :=
    lines
  refine check_of_reads shape ⟨place.outside, headed, ?_, place.ended⟩
  exact place.readsFirst.append (reads.append place.readsLast)

theorem headed : ∃ cells, splitTableRow place.header = some cells ∧ cells.length = roadmapColumns :=
  ⟨place.headCells, place.headCut, place.headSix⟩

theorem map_updateRow (distinct : (rows.map fun row => row.id).Nodup) (status : RoadmapStatus)
    (evidence : Option Locator) :
    rows.map (updateRow row.id status evidence) =
      place.front ++ { row with status, evidence := evidenceCell evidence } :: place.back := by
  have apart := place.others_apart distinct
  have keep : ∀ others : List RoadmapRow, (∀ other ∈ others, other.id ≠ row.id) →
      others.map (updateRow row.id status evidence) = others := by
    intro others away
    have same : ∀ other ∈ others, updateRow row.id status evidence other = other := by
      intro other member
      simp [updateRow, away other member]
    rw [map_congr_left same, map_id']
  have here : updateRow row.id status evidence row =
      { row with status, evidence := evidenceCell evidence } := by simp [updateRow]
  calc rows.map (updateRow row.id status evidence)
      = (place.front ++ row :: place.back).map (updateRow row.id status evidence) := by
        rw [← place.listed]
    _ = _ := by rw [map_append, map_cons, keep _ apart.1, keep _ apart.2, here]

include place in
theorem reads_drawRow (status : RoadmapStatus) (evidence : Option Locator)
    (plain : ∀ locator, evidence = some locator → '|' ∉ locator.display) :
    ReadsBody [drawRow row status evidence]
      [{ row with status, evidence := readEvidence ((evidence.map Locator.display).getD []) }] := by
  have plainCell : '|' ∉ (evidence.map Locator.display).getD [] := by
    cases evidence with
    | none => simp
    | some locator => exact plain locator rfl
  have trimmed : trim ((evidence.map Locator.display).getD []) =
      (evidence.map Locator.display).getD [] := by
    cases evidence with
    | none => rfl
    | some locator => exact trim_of_trimmed locator.trimmed_display
  have reads := readsBody_drawn row.id row.weight row.needs status place.item_avoids.1 plainCell
  rwa [place.item_avoids.2.2, trimmed] at reads

theorem readEvidence_display (evidence : Option Locator) :
    readEvidence ((evidence.map Locator.display).getD []) = evidenceCell evidence ↔
      ∀ locator, evidence = some locator → Locator.parse locator.display = .ok locator := by
  cases evidence with
  | none => simp [readEvidence, evidenceCell]
  | some locator =>
    have filled : locator.display.isEmpty = false := by
      rw [isEmpty_eq_false_iff]
      exact locator.locator_display_ne_nil
    simp only [Option.map_some, Option.getD_some, readEvidence, filled, evidenceCell,
      Option.some.injEq, forall_eq']
    cases parsed : Locator.parse locator.display with
    | error refused => simp
    | ok other => simp

theorem getElem?_replace {front back : List (List Char)} {line other : List Char} {m : Nat}
    (away : m ≠ front.length) : (front ++ line :: back)[m]? = (front ++ other :: back)[m]? := by
  rcases Nat.lt_or_ge m front.length with low | high
  · rw [getElem?_append_left low, getElem?_append_left low]
  · obtain ⟨k, same⟩ : ∃ k, m - front.length = k + 1 := ⟨m - front.length - 1, by omega⟩
    rw [getElem?_append_right high, getElem?_append_right high, same]
    rfl

def index : Nat := (place.before ++ place.header :: place.first).length

theorem replaced_eq (line : List Char) : place.replaced place.header line =
    (place.before ++ place.header :: place.first) ++ line :: (place.last ++ place.after) := by
  simp [replaced]

theorem lineOfRow_index : LineOfRow text row.id place.index := by
  refine ⟨_, _, place.line, place.cells, place.locate, ?_, ?_, ?_, place.cut,
    (readRow_spec place.read).1⟩
  · simp only [index, length_append, length_cons]
    omega
  · simp only [index, length_append, length_cons]
    omega
  · have lines : splitLines text = place.replaced place.header place.line := place.lines
    rw [lines, replaced_eq, index, getElem?_append_right (Nat.le_refl _), Nat.sub_self]
    rfl

theorem onlyLineChanged {out line : List Char}
    (lines : splitLines out = place.replaced place.header line) :
    OnlyLineChanged text out place.index := by
  have original : splitLines text = place.replaced place.header place.line := place.lines
  rw [replaced_eq] at lines original
  refine ⟨by simp [lines, original], fun m away => ?_⟩
  rw [lines, original]
  exact getElem?_replace away

theorem header_kept {out header line : List Char} {n : Nat}
    (lines : splitLines out = place.replaced header line) (found : LineOfRow text row.id n)
    (changed : OnlyLineChanged text out n) : header = place.header := by
  obtain ⟨first, last, here, cells, located, below, -⟩ := found
  rw [place.locate] at located
  simp only [Option.some.injEq, Prod.mk.injEq] at located
  have same := changed.2 place.before.length (by omega)
  have original : splitLines text = place.replaced place.header place.line := place.lines
  rw [lines, original, replaced, replaced, getElem?_append_right (Nat.le_refl _),
    getElem?_append_right (Nat.le_refl _), Nat.sub_self] at same
  simpa using same

theorem headerKept_iff (distinct : (rows.map fun row => row.id).Nodup) (status : RoadmapStatus)
    (evidence : Option Locator) :
    HeaderKept text rows row.id status evidence ↔
      redraw (chosenRow row.id (drawRow row status evidence)) place.header = place.header := by
  have member : row ∈ rows := by
    have inside : row ∈ place.front ++ row :: place.back := by simp
    rwa [← place.listed] at inside
  have headLine : (splitLines text)[place.before.length]? = some place.header := by
    rw [place.lines, getElem?_append_right (Nat.le_refl _), Nat.sub_self]
    rfl
  rw [redraw_row _ place.headCut]
  constructor
  · intro kept
    split
    · rename_i body
      rw [chosenRow]
      split
      · rename_i spelled
        exact (kept _ _ _ _ row place.locate headLine place.headCut body spelled member rfl).symm
      · rfl
    · rfl
  · intro kept first last header cells other located line cut body spelled inside same
    rw [place.locate] at located
    simp only [Option.some.injEq, Prod.mk.injEq] at located
    rw [← located.1, headLine] at line
    cases line
    rw [place.headCut] at cut
    cases cut
    rw [if_pos body, chosenRow, if_pos spelled] at kept
    rw [inj_on_of_nodup_map distinct inside member same]
    exact kept.symm

theorem columns_of_bar (status : RoadmapStatus) {locator : Locator} (plain : '|' ∉ row.item)
    (bar : '|' ∈ locator.display) :
    ∃ cells, splitTableRow (drawRow row status (some locator)) = some cells ∧
      cells.length ≠ roadmapColumns := by
  rw [drawRow_eq]
  refine ⟨_, splitTableRow_drawCells (by simp [rowCells]), ?_⟩
  have shape : rowCells row.id row.item row.weight row.needs status locator.display =
      [row.id.text, row.item, decimal row.weight.toNat, drawNeeds row.needs, status.spelling]
        ++ [locator.display] := rfl
  have front : ∀ cell ∈ [row.id.text, row.item, decimal row.weight.toNat,
      drawNeeds row.needs, status.spelling], '|' ∉ cell := by
    intro cell member
    have all : ∀ cell ∈ rowCells row.id row.item row.weight row.needs status [], '|' ∉ cell :=
      rowCells_bar row.id row.weight row.needs status plain (by simp)
    exact all cell (mem_append_left [[]] member)
  have extra : 2 ≤ ((pad locator.display).splitOn '|').length :=
    two_le_length_splitOn (by simp [pad, bar])
  simp only [Option.map_some, Option.getD_some, shape, map_append, flatMap_append,
    flatMap_splitOn_pad front, length_append, length_map]
  simp only [length_cons, length_nil, map_cons, map_nil, flatMap_cons,
    flatMap_nil, append_nil, roadmapColumns]
  omega

include place in
theorem setStatus_carried_iff (distinct : (rows.map fun row => row.id).Nodup)
    (status : RoadmapStatus) (evidence : Option Locator) :
    Carried text rows (rewrite text (chosenRow row.id (drawRow row status evidence)))
        (.setStatus row.id status evidence) ↔
      ReadsBack text rows (.setStatus row.id status evidence) := by
  have lines := place.splitLines_rewrite distinct status evidence
  simp only [Carried, ReadsBack, place.headerKept_iff distinct, place.map_updateRow distinct]
  constructor
  · rintro ⟨⟨n, found, changed⟩, shape⟩
    have kept := place.header_kept lines found changed
    rw [kept] at lines
    have plain : ∀ locator, evidence = some locator → '|' ∉ locator.display := by
      rintro locator rfl bar
      obtain ⟨cells, cut, many⟩ := columns_of_bar status place.item_avoids.1 bar
      rw [replaced, append_assoc, cons_append] at lines
      exact check_ne_of_columns lines place.outside
        ⟨place.headCells, place.headCut, place.headSix⟩ place.readsFirst cut many _ shape
    have read := place.check_replaced lines place.headed (place.reads_drawRow status evidence plain)
    rw [read] at shape
    simp only [RoadmapShape.wellFormed.injEq, append_cancel_left_eq, List.cons.injEq,
      RoadmapRow.mk.injEq, and_true, true_and] at shape
    exact ⟨fun locator same => ⟨plain locator same,
      (readEvidence_display evidence).mp shape locator same⟩, kept⟩
  · rintro ⟨readable, kept⟩
    rw [kept] at lines
    refine ⟨⟨place.index, place.lineOfRow_index, place.onlyLineChanged lines⟩, ?_⟩
    have read := place.check_replaced lines place.headed
      (place.reads_drawRow status evidence fun locator same => (readable locator same).1)
    rw [read, (readEvidence_display evidence).mpr fun locator same => (readable locator same).2]

include place in
theorem check_rewrite (distinct : (rows.map fun row => row.id).Nodup) (status : RoadmapStatus) :
    checkRoadmapShape (rewrite text (chosenRow row.id (drawRow row status none))) =
      .wellFormed (rows.map (updateRow row.id status none)) := by
  have lines := place.splitLines_rewrite distinct status none
  have drawn : ReadsBody [drawRow row status none] [{ row with status, evidence := .empty }] :=
    place.reads_drawRow status none (by simp)
  have drawnCells : ∃ cells, splitTableRow (drawRow row status none) = some cells ∧
      cells.length = roadmapColumns := by
    cases drawn with
    | row cut six _ _ _ => exact ⟨_, cut, six⟩
    | separator _ _ _ rest => cases rest
  have headed : ∃ cells, splitTableRow
      (redraw (chosenRow row.id (drawRow row status none)) place.header) = some cells ∧
        cells.length = roadmapColumns := by
    rw [redraw_row _ place.headCut]
    split
    · rw [chosenRow]
      split
      · exact drawnCells
      · exact place.headed
    · exact place.headed
  rw [place.check_replaced lines headed drawn, place.map_updateRow distinct]
  rfl

end RowAt

theorem setRoadmapStatus_rows (shape : checkRoadmapShape text = .wellFormed rows)
    (distinct : (rows.map fun row => row.id).Nodup)
    (accepted : setRoadmapStatus text id status none = .ok out) :
    checkRoadmapShape out = .wellFormed (rows.map (updateRow id status none)) := by
  obtain ⟨row, member, rfl, rfl⟩ := setRoadmapStatus_ok shape accepted
  obtain ⟨place⟩ := exists_rowAt shape member
  exact place.check_rewrite distinct status

theorem setRoadmapStatus_accepts (shape : checkRoadmapShape text = .wellFormed rows)
    (listed : ∃ row ∈ rows, row.id = id) (proven : status = .done → evidence ≠ none) :
    ∃ out, setRoadmapStatus text id status evidence = .ok out := by
  unfold setRoadmapStatus
  rw [if_neg fun both => proven both.1 both.2, wellFormed, shape]
  obtain ⟨row, found⟩ := Option.isSome_iff_exists.mp
    (find?_isSome.mpr (by simpa using listed) :
      (rows.find? fun row => decide (row.id = id)).isSome = true)
  refine ⟨rewrite text (chosenRow id (drawRow row status evidence)),
    Outcome.bind_eq_ok.mpr ⟨rows, rfl, ?_⟩⟩
  simp only [found]
  rfl

end SetStatus

end Sprawling.Spine
