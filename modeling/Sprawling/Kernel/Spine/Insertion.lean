import Sprawling.Kernel.Spine.RoundTrip

namespace Sprawling.Spine

open List Text

theorem splitTableRow_unclosed {front tail : List Char} {c : Char} (plain : '|' ∉ tail)
    (member : c ∈ tail) (visible : Text.isWhitespace c = false) :
    splitTableRow ('|' :: (front ++ tail)) = none := by
  have bar : Text.isWhitespace '|' = false := by decide
  have kept : trim ('|' :: (front ++ tail)) =
      List.rdropWhile Text.isWhitespace ('|' :: (front ++ tail)) := by
    rw [trim, dropWhile_cons_of_neg (by simp [bar])]
  unfold splitTableRow
  split
  · rename_i rest shape
    rw [if_neg]
    intro closed
    obtain ⟨inner, rfl⟩ := getLast?_eq_some_iff.mp closed
    have whole : List.rdropWhile Text.isWhitespace ('|' :: (front ++ tail)) ++
        List.rtakeWhile Text.isWhitespace ('|' :: (front ++ tail)) = '|' :: (front ++ tail) :=
      rdropWhile_append_rtakeWhile
    rw [← kept, shape, ← cons_append, ← cons_append, append_assoc, singleton_append] at whole
    rcases append_eq_append_iff.mp whole with ⟨middle, same, rest⟩ | ⟨middle, same, rest⟩
    · -- the closing bar would lie inside the tail or before it
      cases middle with
      | nil =>
        rw [nil_append] at rest
        exact plain (rest ▸ mem_cons_self)
      | cons d middle =>
        simp only [cons_append, List.cons.injEq] at rest
        have inside : c ∈ List.rtakeWhile Text.isWhitespace ('|' :: (front ++ tail)) := by
          rw [rest.2]
          exact mem_append_right _ member
        rw [mem_rtakeWhile_imp inside] at visible
        cases visible
    · exact plain (rest ▸ mem_append_right _ mem_cons_self)
  · rfl

/-- The line a new row is drawn as. -/
def childLine (row : RoadmapRow) : List Char :=
  drawCells (rowCells row.id row.item row.weight [] .notStarted [])

/-- A row made of a child the table can hold. -/
structure IsNew (row : RoadmapRow) : Prop where
  needs : row.needs = []
  status : row.status = .notStarted
  evidence : row.evidence = .empty
  filled : row.item ≠ []
  trimmed : trim row.item = row.item
  plain : '|' ∉ row.item

theorem drawChild_ok {id : NodeId} {child : NewChild} {action : String} {line : List Char}
    (drawn : drawChild id child action = .ok line) :
    line = childLine (newRow id child) ∧ IsNew (newRow id child) := by
  unfold drawChild at drawn
  split at drawn
  · cases drawn
  · rename_i filled
    split at drawn
    · cases drawn
    · rename_i plain
      split at drawn
      · cases drawn
      · cases drawn
        refine ⟨rfl, rfl, rfl, rfl, by simpa [newRow] using filled, ?_, ?_⟩
        · exact trim_of_trimmed (trimmed_trim _)
        · exact fun member => plain (mem_of_mem_trim member)

theorem drawChildren_ok {parent : NodeId} {last : Nat} {children : List NewChild}
    {drawn : List (List Char)} (success : drawChildren parent last children = .ok drawn) :
    ∃ added, newRows parent last children = .ok added ∧ drawn = added.map childLine ∧
      (∀ row ∈ added, IsNew row) ∧
      added.map RoadmapRow.item = children.map fun child => trim child.item := by
  induction children generalizing last drawn with
  | nil =>
    cases success
    exact ⟨[], rfl, rfl, by simp, rfl⟩
  | cons child children ih =>
    obtain ⟨id, numbered, rest⟩ := Outcome.bind_eq_ok.mp success
    obtain ⟨line, one, rest⟩ := Outcome.bind_eq_ok.mp rest
    obtain ⟨more, others, answer⟩ := Outcome.bind_eq_ok.mp rest
    cases answer
    obtain ⟨added, listed, rfl, fresh, items⟩ := ih others
    obtain ⟨rfl, new⟩ := drawChild_ok one
    refine ⟨newRow id child :: added, ?_, rfl, ?_, ?_⟩
    · exact Outcome.bind_eq_ok.mpr ⟨id, numbered, Outcome.bind_eq_ok.mpr ⟨added, listed, rfl⟩⟩
    · intro row member
      rcases mem_cons.mp member with rfl | member
      · exact new
      · exact fresh row member
    · rw [map_cons, map_cons, items]
      rfl

variable {row : RoadmapRow}

theorem readsBody_new (new : IsNew row) : ReadsBody [childLine row] [row] := by
  have reads := readsBody_drawn row.id row.weight [] .notStarted new.plain
    (not_mem_nil : '|' ∉ ([] : List Char))
  rw [new.trimmed] at reads
  have empty : readEvidence (trim []) = .empty := rfl
  rw [empty, ← new.needs, ← new.status, ← new.evidence] at reads
  have same : childLine row = drawCells (rowCells row.id row.item row.weight row.needs row.status
      []) := by
    rw [childLine, new.needs, new.status]
  rw [same]
  exact reads

variable {added : List RoadmapRow}

theorem readsBody_added (fresh : ∀ row ∈ added, IsNew row) :
    ReadsBody (added.map childLine) added := by
  induction added with
  | nil => exact .nil
  | cons row added ih =>
    have one := readsBody_new (fresh row mem_cons_self)
    exact one.append (ih fun other member => fresh other (mem_cons_of_mem _ member))

theorem newline_not_mem_childLine (plain : '\n' ∉ row.item) : '\n' ∉ childLine row :=
  newline_not_mem_drawCells (rowCells_newline _ _ _ _ plain (by simp))

theorem childLine_broken (new : IsNew row) (broken : '\n' ∈ row.item) :
    ∃ stop rest, splitLines (childLine row) = stop :: rest ∧ splitTableRow stop = none := by
  obtain ⟨piece, after, shape, clean⟩ : ∃ piece after,
      row.item = piece ++ '\n' :: after ∧ '\n' ∉ piece := by
    obtain ⟨sides, found⟩ := Option.ne_none_iff_exists'.mp
      fun absent => splitOnce_eq_none.mp absent broken
    exact ⟨sides.1, sides.2, splitOnce_eq_some.mp found⟩
  have visible : ∃ c ∈ piece, Text.isWhitespace c = false := by
    have ends := trimmed_trim row.item
    rw [new.trimmed, shape] at ends
    cases piece with
    | nil => exact absurd (ends.1 '\n' rfl) (by decide)
    | cons c piece => exact ⟨c, mem_cons_self, ends.1 c rfl⟩
  obtain ⟨c, member, shown⟩ := visible
  let front := ' ' :: (row.id.text ++ " | ".toList)
  let tail := after ++ ' ' :: '|' :: ((rowCells row.id row.item row.weight [] .notStarted []).drop
    2).flatMap fun cell => pad cell ++ ['|']
  have line : childLine row = ('|' :: (front ++ piece)) ++ '\n' :: tail := by
    rw [childLine, drawCells, foldl_drawCells]
    simp [rowCells, pad, shape, front, tail]
  have unbroken : '\n' ∉ '|' :: (front ++ piece) := by
    have index : '\n' ∉ row.id.text := row.id.text_avoids (by decide) (by decide)
    simp [front, index, clean]
  refine ⟨'|' :: (front ++ piece), splitLines tail, ?_, ?_⟩
  · rw [line, splitLines, splitOn_append_cons_self, splitOn_eq_singleton unbroken]
    rfl
  · exact splitTableRow_unclosed (fun bar => new.plain (shape ▸ mem_append_left _ bar))
      member shown

/-- A text whose table is cut between two body lines. -/
structure Seam (text : List Char) (front back : List RoadmapRow) where
  before : List (List Char)
  header : List Char
  first : List (List Char)
  last : List (List Char)
  after : List (List Char)
  lines : splitLines text = before ++ header :: ((first ++ last) ++ after)
  outside : ∀ line ∈ before, splitTableRow line = none
  headed : ∃ cells, splitTableRow header = some cells ∧ cells.length = roadmapColumns
  readsFirst : ReadsBody first front
  readsLast : ReadsBody last back
  ended : ∀ line, after.head? = some line → splitTableRow line = none

namespace Seam

variable {text : List Char} {front back : List RoadmapRow} (seam : Seam text front back)

def above : List (List Char) := seam.before ++ seam.header :: seam.first

def below : List (List Char) := seam.last ++ seam.after

theorem lines_eq : splitLines text = seam.above ++ seam.below := by
  rw [seam.lines, above, below]
  simp

theorem insertAfter_eq (drawn : List (List Char)) :
    insertAfter text (seam.before.length + seam.first.length) drawn =
      joinLines (seam.above ++ drawn ++ seam.below) := by
  have size : seam.above.length = seam.before.length + seam.first.length + 1 := by
    simp only [above, length_append, length_cons]
    omega
  have inside : seam.before.length + seam.first.length < (seam.above ++ seam.below).length := by
    rw [length_append]
    omega
  simp only [insertAfter, seam.lines_eq, if_pos inside, ← size, take_left, drop_left]

theorem clean : ∀ line ∈ seam.above ++ seam.below, '\n' ∉ line := by
  rw [← seam.lines_eq]
  exact fun line member => newline_not_mem_lines member

variable {added : List RoadmapRow}

theorem inserted (fresh : ∀ row ∈ added, IsNew row) (plain : ∀ row ∈ added, '\n' ∉ row.item) :
    splitLines (joinLines (seam.above ++ added.map childLine ++ seam.below)) =
        seam.above ++ added.map childLine ++ seam.below ∧
      checkRoadmapShape (joinLines (seam.above ++ added.map childLine ++ seam.below)) =
        .wellFormed (front ++ added ++ back) := by
  have cut : splitLines (joinLines (seam.above ++ added.map childLine ++ seam.below)) =
      seam.above ++ added.map childLine ++ seam.below := by
    apply splitLines_joinLines
    · simp [above]
    · intro line member
      have others := seam.clean line
      simp only [mem_append] at member others
      rcases member with (inside | drawn) | inside
      · exact others (Or.inl inside)
      · obtain ⟨row, listed, rfl⟩ := mem_map.mp drawn
        exact newline_not_mem_childLine (plain row listed)
      · exact others (Or.inr inside)
  refine ⟨cut, ?_⟩
  have shape : splitLines (joinLines (seam.above ++ added.map childLine ++ seam.below)) =
      (Table.mk seam.before seam.header (seam.first ++ added.map childLine ++ seam.last)
        seam.after).lines := by
    rw [cut, above, below, Table.lines]
    simp
  refine check_of_reads shape ⟨seam.outside, seam.headed, ?_, seam.ended⟩
  exact (seam.readsFirst.append (readsBody_added fresh)).append seam.readsLast

theorem inserted_broken {good more : List RoadmapRow} {bad : RoadmapRow}
    (fresh : ∀ row ∈ good ++ bad :: more, IsNew row) (plain : ∀ row ∈ good, '\n' ∉ row.item)
    (broken : '\n' ∈ bad.item) :
    checkRoadmapShape
        (joinLines (seam.above ++ (good ++ bad :: more).map childLine ++ seam.below)) =
      .wellFormed (front ++ good) := by
  obtain ⟨stop, rest, cut, stops⟩ := childLine_broken (fresh bad (by simp)) broken
  have readsGood := readsBody_added fun row member => fresh row (mem_append_left _ member)
  have goodLines : ∀ line ∈ seam.above ++ good.map childLine, '\n' ∉ line := by
    intro line member
    rcases mem_append.mp member with inside | drawn
    · exact seam.clean line (mem_append_left _ inside)
    · obtain ⟨row, listed, rfl⟩ := mem_map.mp drawn
      exact newline_not_mem_childLine (plain row listed)
  have lines : splitLines
      (joinLines (seam.above ++ (good ++ bad :: more).map childLine ++ seam.below)) =
      seam.before ++ seam.header :: ((seam.first ++ good.map childLine) ++
        stop :: (rest ++ (more.map childLine ++ seam.below).flatMap (List.splitOn '\n'))) := by
    have shape : seam.above ++ (good ++ bad :: more).map childLine ++ seam.below =
        (seam.above ++ good.map childLine) ++ childLine bad :: (more.map childLine ++ seam.below) := by
      simp
    rw [shape, splitLines, joinLines, splitOn_intercalate_flatMap _ (by simp),
      flatMap_append, flatMap_splitOn_of_clean goodLines, flatMap_cons]
    change _ ++ (splitLines (childLine bad) ++ _) = _
    rw [cut, above]
    simp
  exact check_of_cut lines seam.outside seam.headed (seam.readsFirst.append readsGood) stops

theorem plain_of_length {others : List RoadmapRow} (fresh : ∀ row ∈ added, IsNew row)
    (shape : checkRoadmapShape (joinLines (seam.above ++ added.map childLine ++ seam.below)) = .wellFormed others)
    (counted : others.length = front.length + added.length + back.length) :
    ∀ row ∈ added, '\n' ∉ row.item := by
  by_contra some_broken
  obtain ⟨good, bad, more, rfl, plain, broken⟩ : ∃ good bad more, added = good ++ bad :: more ∧
      (∀ row ∈ good, '\n' ∉ row.item) ∧ '\n' ∈ bad.item := by
    have found : (added.find? fun row => decide ('\n' ∈ row.item)).isSome = true := by
      simpa [find?_isSome] using some_broken
    obtain ⟨bad, first⟩ := Option.isSome_iff_exists.mp found
    obtain ⟨broken, good, more, listed, plain⟩ := find?_eq_some_iff_append.mp first
    exact ⟨good, bad, more, listed, by simpa using plain, by simpa using broken⟩
  rw [seam.inserted_broken fresh plain broken] at shape
  have lengths := congrArg List.length (RoadmapShape.wellFormed.inj shape)
  simp only [length_append, length_cons] at lengths counted
  omega

theorem onlyLinesAdded (fresh : ∀ row ∈ added, IsNew row) (plain : ∀ row ∈ added, '\n' ∉ row.item) :
    OnlyLinesAdded text (joinLines (seam.above ++ added.map childLine ++ seam.below))
      added.length :=
  ⟨seam.above, added.map childLine, seam.below, seam.lines_eq, (seam.inserted fresh plain).1,
    by simp⟩

end Seam

section Locating

variable {parent : NodeId}

theorem seamOf_append (parent : NodeId) (first last n : Nat) (after : Option Nat)
    (front back : List (List Char)) :
    seamOf parent first last n after (front ++ back) =
      seamOf parent first last (n + front.length) (seamOf parent first last n after front) back := by
  induction front generalizing n after with
  | nil => rfl
  | cons line front ih =>
    simp only [cons_append, seamOf, ih, length_cons, Nat.add_assoc, Nat.add_comm 1]

theorem seamOf_beyond (parent : NodeId) (first last n : Nat) (after : Option Nat)
    (found : List (List Char)) (beyond : last < n) : seamOf parent first last n after found = after := by
  induction found generalizing n with
  | nil => rfl
  | cons line found ih =>
    have outside : n < first ∨ n > last := Or.inr beyond
    simp only [seamOf, outside, if_true, Option.any_none, Bool.false_eq_true, if_false]
    exact ih (n + 1) (by omega)

variable {rows : List RoadmapRow}

theorem seamOf_foreign {body : List (List Char)}
    (reads : ReadsBody body rows) (foreign : ∀ row ∈ rows, ¬ BelongsTo parent row)
    (first last n : Nat) (after : Option Nat) : seamOf parent first last n after body = after := by
  induction reads generalizing n with
  | nil => rfl
  | @separator line cells body rows cut six ruled rest ih =>
    have skipped : (((splitTableRow line).filter bodyRow).bind indexOf) = none := by
      simp [cut, Option.filter_some, bodyRow, ruled]
    simp only [seamOf, skipped, ite_self, Option.any_none, Bool.false_eq_true, if_false]
    exact ih foreign (n + 1)
  | @row line cells body row rows cut six plain read rest ih =>
    have index : (((splitTableRow line).filter bodyRow).bind indexOf) = some row.id := by
      simp [cut, Option.filter_some, bodyRow, six, plain, (readRow_spec read).1]
    have away : (row.id == parent || parent.isAncestorOf row.id) = false := by
      simpa [BelongsTo] using foreign row mem_cons_self
    have missed : (if n < first ∨ n > last then none else some row.id).any
        (fun id => id == parent || parent.isAncestorOf id) = false := by
      split <;> simp [away]
    simp only [seamOf, index, missed, Bool.false_eq_true, if_false]
    exact ih (fun other member => foreign other (mem_cons_of_mem _ member)) (n + 1)

theorem exists_last_belonging (some_row : ∃ row ∈ rows, BelongsTo parent row) :
    ∃ front row back, rows = front ++ row :: back ∧ BelongsTo parent row ∧
      ∀ other ∈ back, ¬ BelongsTo parent other := by
  induction rows with
  | nil => simp at some_row
  | cons first rows ih =>
    by_cases later : ∃ row ∈ rows, BelongsTo parent row
    · obtain ⟨front, row, back, rfl, here, none_after⟩ := ih later
      exact ⟨first :: front, row, back, rfl, here, none_after⟩
    · obtain ⟨row, member, here⟩ := some_row
      rcases mem_cons.mp member with rfl | member
      · exact ⟨[], row, rows, rfl, here, fun other inside belongs =>
          later ⟨other, inside, belongs⟩⟩
      · exact absurd ⟨row, member, here⟩ later

theorem seam_of_parent {text : List Char} {front back : List RoadmapRow} {row : RoadmapRow}
    (place : RowAt text (front ++ row :: back) row) (backs : place.back = back) (belongs : BelongsTo parent row)
    (foreign : ∀ other ∈ back, ¬ BelongsTo parent other) :
    seamOf parent place.before.length
        (place.before.length + (place.first ++ place.line :: place.last).length) 0 none
        (splitLines text) =
      some (place.before.length + (place.first ++ [place.line]).length) := by
  have shape : splitLines text = (place.before ++ place.header :: place.first) ++
      ([place.line] ++ (place.last ++ place.after)) := by
    rw [place.lines]
    simp
  have readsLast := place.readsLast
  rw [backs] at readsLast
  have index : (((splitTableRow place.line).filter bodyRow).bind indexOf) = some row.id := by
    simp [place.cut, Option.filter_some, bodyRow, place.six, place.plain,
      (readRow_spec place.read).1]
  have here : (row.id == parent || parent.isAncestorOf row.id) = true := by
    simpa [BelongsTo] using belongs
  rw [shape, seamOf_append, seamOf_append, seamOf_append, seamOf_foreign readsLast foreign,
    seamOf_beyond]
  · have inside : ¬ (0 + (place.before ++ place.header :: place.first).length < place.before.length ∨
        0 + (place.before ++ place.header :: place.first).length >
          place.before.length + (place.first ++ place.line :: place.last).length) := by
      simp only [length_append, length_cons]
      omega
    simp only [seamOf, inside, if_false, index, Option.any_some, here, if_true]
    congr 1
    simp only [length_append, length_cons, length_nil]
    omega
  · simp only [length_append, length_cons, length_nil]
    omega

end Locating

section Edits

variable {text out : List Char} {rows : List RoadmapRow}

variable {parent : NodeId} {children : List NewChild}

theorem insertChildren_ok (shape : checkRoadmapShape text = .wellFormed rows)
    (accepted : insertChildren text parent children = .ok out) :
    (∃ row ∈ rows, row.id = parent) ∧ ∃ drawn first last,
      drawChildren parent (lastOrdinal rows parent) children = .ok drawn ∧
      locateTable text = some (first, last) ∧
      out = insertAfter text ((seamOf parent first last 0 none (splitLines text)).getD last)
        drawn := by
  unfold insertChildren at accepted
  split at accepted
  · cases accepted
  · rw [wellFormed, shape] at accepted
    change (if !(rows.any fun row => row.id = parent) then _ else _) = _ at accepted
    split at accepted
    · cases accepted
    · rename_i present
      obtain ⟨drawn, drew, rest⟩ := Outcome.bind_eq_ok.mp accepted
      split at rest
      · cases rest
      · rename_i first last located
        cases rest
        exact ⟨by simpa using present, drawn, first, last, drew, located, rfl⟩

variable {id : NodeId} {child : NewChild}

theorem appendTopLevel_ok (shape : checkRoadmapShape text = .wellFormed rows)
    (accepted : appendTopLevel text id child = .ok out) :
    ∃ drawn first last, drawChild id child "add a plan row" = .ok drawn ∧
      locateTable text = some (first, last) ∧ out = insertAfter text last [drawn] := by
  unfold appendTopLevel at accepted
  split at accepted
  · cases accepted
  · rw [wellFormed, shape] at accepted
    change (if (rows.any fun row => row.id = id) then _ else _) = _ at accepted
    split at accepted
    · cases accepted
    · obtain ⟨drawn, drew, rest⟩ := Outcome.bind_eq_ok.mp accepted
      split at rest
      · cases rest
      · rename_i first last located
        cases rest
        exact ⟨drawn, first, last, drew, located, rfl⟩

theorem newRows_length {last : Nat}
    (success : newRows parent last children = .ok added) : added.length = children.length := by
  induction children generalizing last added with
  | nil =>
    cases success
    rfl
  | cons child children ih =>
    obtain ⟨id, -, rest⟩ := Outcome.bind_eq_ok.mp success
    obtain ⟨more, others, answer⟩ := Outcome.bind_eq_ok.mp rest
    cases answer
    rw [length_cons, length_cons, ih others]

variable (shape : checkRoadmapShape text = .wellFormed rows)

include shape

theorem insertChildren_carried_iff (accepted : insertChildren text parent children = .ok out) :
    Carried text rows out (.insertChildren parent children) ↔
      ReadsBack text rows (.insertChildren parent children) := by
  obtain ⟨⟨own, listed, same⟩, drawn, first, last, drew, located, rfl⟩ :=
    insertChildren_ok shape accepted
  obtain ⟨added, numbered, rfl, fresh, items⟩ := drawChildren_ok drew
  obtain ⟨front, row, back, rfl, belongs, foreign⟩ :=
    exists_last_belonging ⟨own, listed, Or.inl same⟩
  obtain ⟨table, lines, reads⟩ := reads_of_check shape
  obtain ⟨headCells, headCut, headSix⟩ := reads.headed
  obtain ⟨above, line, cells, below, split, readsFirst, cut, six, plain, read, readsLast⟩ :=
    reads.body.split
  rw [Table.lines, split] at lines
  let place : RowAt text (front ++ row :: back) row :=
    ⟨table.before, table.header, above, line, below, table.after, front, back, cells, headCells,
      lines.symm, rfl, reads.outside, headCut, headSix, readsFirst, cut, six, plain, read,
      readsLast, reads.ended⟩
  let seam : Seam text (front ++ [row]) back :=
    ⟨table.before, table.header, above ++ [line], below, table.after, by rw [← lines]; simp,
      reads.outside, reads.headed, readsFirst.append (.row cut six plain read .nil), readsLast,
      reads.ended⟩
  have found := seam_of_parent place rfl belongs foreign
  rw [place.locate] at located
  simp only [Option.some.injEq, Prod.mk.injEq] at located
  obtain ⟨rfl, rfl⟩ := located
  rw [found, Option.getD_some]
  change Carried text _ (insertAfter text (seam.before.length + seam.first.length) _) _ ↔ _
  rw [seam.insertAfter_eq]
  have newlines : (∀ row ∈ added, '\n' ∉ row.item) ↔
      ∀ child ∈ children, '\n' ∉ trim child.item := by
    have both : (∀ item ∈ added.map RoadmapRow.item, '\n' ∉ item) ↔
        ∀ item ∈ children.map fun child => trim child.item, '\n' ∉ item := by rw [items]
    simpa using both
  simp only [Carried, ReadsBack, ← newlines]
  constructor
  · rintro ⟨-, others, rest, -, others_added, split_rows, -, -, -, again, read_back⟩
    rw [numbered] at again
    cases again
    refine seam.plain_of_length fresh read_back ?_
    have lengths := congrArg List.length split_rows
    simp only [length_append, length_cons, length_nil] at lengths ⊢
    omega
  · intro clean
    have count := newRows_length numbered
    refine ⟨count ▸ seam.onlyLinesAdded fresh clean, front ++ [row], back, row, added, by simp,
      by simp, belongs, foreign, numbered, (seam.inserted fresh clean).2⟩

variable (accepted : appendTopLevel text id child = .ok out)

include accepted

/-- A row appended at the top level goes behind the table's rows. -/
theorem exists_seam_of_append :
    IsNew (newRow id child) ∧ ∃ seam : Seam text rows [],
      out = joinLines (seam.above ++ [newRow id child].map childLine ++ seam.below) := by
  obtain ⟨drawn, first, last, drew, located, rfl⟩ := appendTopLevel_ok shape accepted
  obtain ⟨rfl, new⟩ := drawChild_ok drew
  obtain ⟨table, lines, reads⟩ := reads_of_check shape
  let seam : Seam text rows [] :=
    ⟨table.before, table.header, table.body, [], table.after, by rw [← lines]; simp [Table.lines],
      reads.outside, reads.headed, reads.body, .nil, reads.ended⟩
  rw [locateTable_reads lines reads] at located
  simp only [Option.some.injEq, Prod.mk.injEq] at located
  obtain ⟨rfl, rfl⟩ := located
  exact ⟨new, seam, seam.insertAfter_eq _⟩

theorem appendTopLevel_carried_iff :
    Carried text rows out (.appendTopLevel id child) ↔
      ReadsBack text rows (.appendTopLevel id child) := by
  obtain ⟨new, seam, rfl⟩ := exists_seam_of_append shape accepted
  have fresh : ∀ row ∈ [newRow id child], IsNew row := by simpa using new
  have item : (newRow id child).item = trim child.item := rfl
  simp only [Carried, ReadsBack]
  constructor
  · rintro ⟨-, read_back⟩
    have clean := seam.plain_of_length fresh read_back (by simp)
    exact clean (newRow id child) mem_cons_self
  · intro plain
    have clean : ∀ row ∈ [newRow id child], '\n' ∉ row.item := by simpa [item] using plain
    have read_back := (seam.inserted fresh clean).2
    rw [append_nil] at read_back
    exact ⟨seam.onlyLinesAdded fresh clean, read_back⟩

/-- A row appended at the top level leaves the rows before it as they were, even where a newline
in its text cuts it off. -/
theorem appendTopLevel_rows :
    ∃ more, checkRoadmapShape out = .wellFormed (rows ++ more) := by
  by_cases plain : '\n' ∈ trim child.item
  · obtain ⟨new, seam, rfl⟩ := exists_seam_of_append shape accepted
    have only : ∀ row ∈ [] ++ newRow id child :: [], IsNew row := by simpa using new
    have item : (newRow id child).item = trim child.item := rfl
    rw [← item] at plain
    have broken := seam.inserted_broken only (forall_mem_nil _) plain
    rw [nil_append] at broken
    exact ⟨[], broken⟩
  · exact ⟨[newRow id child], ((appendTopLevel_carried_iff shape accepted).mpr plain).2⟩

omit accepted

omit shape

/-- An accepted edit of a well-formed table reads back as it was meant exactly when its texts
survive the table's own grammar. -/
theorem edit_carried_iff {edit : RoadmapEdit} (shape : checkRoadmapShape text = .wellFormed rows)
    (distinct : (rows.map fun row => row.id).Nodup) (accepted : edit.apply text = .ok out) :
    Carried text rows out edit ↔ ReadsBack text rows edit := by
  cases edit with
  | setStatus id status evidence =>
    obtain ⟨row, member, rfl, rfl⟩ := setRoadmapStatus_ok shape accepted
    obtain ⟨place⟩ := exists_rowAt shape member
    exact place.setStatus_carried_iff distinct status evidence
  | insertChildren parent children => exact insertChildren_carried_iff shape accepted
  | appendTopLevel id child => exact appendTopLevel_carried_iff shape accepted

end Edits

/-- A header and one row. -/
def smallRoadmap : List Char :=
  "| # | Item | Weight | Needs | Status | Evidence |\n| 1 | frame | 1 |  | Not started |  |".toList

def smallRows : List RoadmapRow :=
  [{ id := ⟨['1'], NodeId.one_indexed⟩, item := "frame".toList, weight := 1, needs := [],
     status := .notStarted, evidence := .empty }]

/-- Adds row `2` with the given text. -/
def addSecond (item : String) : RoadmapEdit :=
  .appendTopLevel ⟨['2'], NodeId.two_indexed⟩ { item := item.toList, weight := 1 }

example : (smallRows.map fun row => row.id).Nodup := by decide +kernel

theorem smallRoadmap_shape : checkRoadmapShape smallRoadmap = .wellFormed smallRows := by
  delta smallRoadmap smallRows
  repeat rw [String.toList_ofList]
  decide +kernel

theorem addSecond_roof_carried :
    checkRoadmapShape smallRoadmap = .wellFormed smallRows ∧
      (smallRows.map fun row => row.id).Nodup ∧
      (addSecond "roof").apply smallRoadmap =
        .ok (smallRoadmap ++ "\n| 2 | roof | 1 |  | Not started |  |".toList) ∧
      Carried smallRoadmap smallRows
        (smallRoadmap ++ "\n| 2 | roof | 1 |  | Not started |  |".toList) (addSecond "roof") := by
  have distinct : (smallRows.map fun row => row.id).Nodup := by decide +kernel
  have accepted : (addSecond "roof").apply smallRoadmap =
      .ok (smallRoadmap ++ "\n| 2 | roof | 1 |  | Not started |  |".toList) := by
    delta smallRoadmap addSecond
    repeat rw [String.toList_ofList]
    decide +kernel
  refine ⟨smallRoadmap_shape, distinct, accepted,
    (edit_carried_iff smallRoadmap_shape distinct accepted).mpr ?_⟩
  change '\n' ∉ trim "roof".toList
  decide +kernel

/-- The accepted item `a⏎b` cuts its own row in two, and the table loses it. -/
theorem addSecond_newline_lost :
    checkRoadmapShape smallRoadmap = .wellFormed smallRows ∧
      (smallRows.map fun row => row.id).Nodup ∧
      ∃ out, (addSecond "a\nb").apply smallRoadmap = .ok out ∧
        ¬ Carried smallRoadmap smallRows out (addSecond "a\nb") := by
  refine ⟨smallRoadmap_shape, by decide +kernel, ?_⟩
  have accepted : (addSecond "a\nb").apply smallRoadmap =
      .ok (smallRoadmap ++ "\n| 2 | a\nb | 1 |  | Not started |  |".toList) := by
    delta smallRoadmap addSecond
    repeat rw [String.toList_ofList]
    decide +kernel
  refine ⟨_, accepted, fun carried => ?_⟩
  have clean := (appendTopLevel_carried_iff smallRoadmap_shape accepted).mp carried
  exact absurd clean (by
    change ¬ '\n' ∉ trim "a\nb".toList
    decide +kernel)

end Sprawling.Spine
