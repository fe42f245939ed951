import Sprawling.Base.CommonSubsequence
import Sprawling.Base.Text
import Sprawling.Base.Word

/-! The sentences of a text with the whitespace around them, and the alignment of two such lists. -/

namespace Sprawling.Documents

open List CommonSubsequence.IsLongest CommonSubsequence Word

/-- The role one sentence plays on a card. -/
inductive SliceKind where
  | same
  | delete
  | insert
deriving DecidableEq

/-- One sentence of a card with the whitespace around it. -/
structure Slice where
  kind : SliceKind
  text : List Char
  lead : List Char
  trail : List Char

/-- One sentence: the whitespace before it, the sentence, and, for the last sentence of a text
only, the whitespace after it. -/
structure Piece where
  lead : List Char
  text : List Char
  trail : List Char
deriving DecidableEq

namespace Piece

def empty : Piece := ⟨[], [], []⟩

def push (piece : Piece) (character : Char) : Piece :=
  if !Text.isWhitespace character then
    { piece with text := piece.text ++ piece.trail ++ [character], trail := [] }
  else if piece.text.isEmpty then { piece with lead := piece.lead ++ [character] }
  else { piece with trail := piece.trail ++ [character] }

def isBlank (piece : Piece) : Bool := piece.text.isEmpty

def intoSlice (kind : SliceKind) (piece : Piece) : Slice :=
  ⟨kind, piece.text, piece.lead, piece.trail⟩

def spelled (piece : Piece) : List Char := piece.lead ++ piece.text ++ piece.trail

end Piece

def isTerminator (character : Char) : Bool :=
  character ∈ ['。', '！', '？', '…', '!', '?', '.']

def isCloser (character : Char) : Bool :=
  character ∈ ['\u0022', '\u0027', '\u201d', '\u2019', ')', '）', '」', '』']

/-- The terminators and closing marks that follow a terminator at once, and what is left. -/
def takeClosing (building : Piece) : List Char → Piece × List Char
  | [] => (building, [])
  | next :: rest =>
    if !isTerminator next && !isCloser next then (building, next :: rest)
    else takeClosing (building.push next) rest

/-- The cutting loop: the finished sentences and the one being built. The fuel is the number of
characters left. -/
def cut : Nat → List Char → List Piece → Piece → List Piece × Piece
  | 0, _, found, building => (found, building)
  | _ + 1, [], found, building => (found, building)
  | fuel + 1, character :: rest, found, building =>
    let building := building.push character
    if isTerminator character then
      let closed := takeClosing building rest
      cut fuel closed.2 (found ++ [closed.1]) .empty
    else cut fuel rest found building

/-- What is done with the sentence the text ended in. -/
def finish (found : List Piece) (building : Piece) : List Piece :=
  if building = .empty then found
  else
    match found.getLast? with
    | some last =>
      if building.isBlank then
        found.dropLast ++ [{ last with trail := last.trail ++ building.lead }]
      else found ++ [building]
    | none => found ++ [building]

/-- Cuts a text into sentences. -/
def pieces (text : List Char) : List Piece :=
  let loop := cut text.length text [] .empty
  finish loop.1 loop.2

def alignCellsMax : Nat := 2 ^ 22

/-- The length of the longest common subsequence of every pair of suffixes, `width` columns to a
row. -/
structure Table where
  cells : List Nat
  width : Nat

namespace Table

def cell (table : Table) (left right : Nat) : Option Nat :=
  if right < table.width then some (left * table.width + right) else none

/-- The common length of the suffixes from `left` and `right`; past the end of either list it is
zero. -/
def at_ (table : Table) (left right : Nat) : Nat :=
  ((table.cell left right).bind fun place => table.cells[place]?).getD 0

/-- The cell written, when there is one. -/
def put (table : Table) (left right value : Nat) : Table :=
  match table.cell left right with
  | some place => { table with cells := table.cells.set place value }
  | none => table

/-- What one cell holds, by the cells after it. -/
def value (table : Table) (left right : Nat) (one other : Piece) : Nat :=
  if one = other then Word.saturatingAdd u32Values (table.at_ (left + 1) (right + 1)) 1
  else max (table.at_ (left + 1) right) (table.at_ left (right + 1))

/-- One row, from its last column to its first. -/
def fillRow (come : List Piece) (left : Nat) (one : Piece) (table : Table) : Table :=
  come.zipIdx.foldr (fun (other, right) table =>
    table.put left right (table.value left right one other)) table

/-- The table for two lists, unless it would hold too many cells. A product past a word is past
that number too. -/
def of (gone come : List Piece) : Option Table :=
  if alignCellsMax < gone.length * come.length then none
  else
    some (gone.zipIdx.foldr (fun (one, left) table => fillRow come left one table)
      ⟨List.replicate (gone.length * come.length) 0, come.length⟩)

end Table

/-- The walk over both middles at once, until one of them is used up. The fuel is the number of
sentences left. -/
def walk (table : Table) : Nat → Nat → List Piece → Nat → List Piece → List Slice
  | fuel + 1, left, one :: gone, right, other :: come =>
    if one = other then
      one.intoSlice .same :: walk table fuel (left + 1) gone (right + 1) come
    else if table.at_ left (right + 1) ≤ table.at_ (left + 1) right then
      one.intoSlice .delete :: walk table fuel (left + 1) gone right (other :: come)
    else other.intoSlice .insert :: walk table fuel left (one :: gone) (right + 1) come
  | _, _, gone, _, come => gone.map (Piece.intoSlice .delete) ++ come.map (Piece.intoSlice .insert)

/-- The middle of the two lists, aligned by their longest common subsequence, or deleted then
inserted whole past the table's budget. -/
def middleSlices (gone come : List Piece) : List Slice :=
  match Table.of gone come with
  | none => gone.map (Piece.intoSlice .delete) ++ come.map (Piece.intoSlice .insert)
  | some table => walk table (gone.length + come.length) 0 gone 0 come

/-- How many sentences two lists begin with alike. -/
def headOf (before after : List Piece) : Nat :=
  ((before.zip after).takeWhile fun pair => pair.1 = pair.2).length

/-- How many sentences two lists end with alike, past their common head. -/
def tailOf (before after : List Piece) : Nat :=
  let head := headOf before after
  (((before.drop head).reverse.zip (after.drop head).reverse).takeWhile
    fun pair => pair.1 = pair.2).length

/-- What is left of a list without its common ends. -/
def middle (head tail : Nat) (pieces : List Piece) : List Piece :=
  (pieces.drop head).take (pieces.length - head - tail)

/-- The two lists as one card: what both hold, what only the first holds, what only the second
holds, in reading order. -/
def align (before after : List Piece) : List Slice :=
  let head := headOf before after
  let tail := tailOf before after
  (before.take head).map (Piece.intoSlice .same)
    ++ middleSlices (middle head tail before) (middle head tail after)
    ++ ((before.drop head).reverse.take tail).reverse.map (Piece.intoSlice .same)

namespace Piece

def Firm (piece : Piece) : Prop := piece.text = [] → piece.trail = []

theorem firm_empty : Firm empty := fun _ => rfl

theorem spelled_empty : empty.spelled = [] := rfl

theorem Firm.push {piece : Piece} (firm : piece.Firm) (character : Char) :
    (piece.push character).Firm := by
  unfold Piece.push
  split
  · intro _
    rfl
  · split
    · exact firm
    · next worded =>
        intro blank
        simp only [List.isEmpty_iff] at worded
        exact absurd blank worded

theorem Firm.spelled_push {piece : Piece} (firm : piece.Firm) (character : Char) :
    (piece.push character).spelled = piece.spelled ++ [character] := by
  unfold Piece.push
  split
  · simp only [spelled, append_assoc, append_nil]
  · split
    · next blank =>
        rw [List.isEmpty_iff] at blank
        simp only [spelled, blank, firm blank, append_nil]
    · simp only [spelled, append_assoc]

end Piece

theorem takeClosing_spec {building : Piece} (firm : building.Firm) (rest : List Char) :
    (takeClosing building rest).1.Firm ∧
      (takeClosing building rest).1.spelled ++ (takeClosing building rest).2 =
        building.spelled ++ rest ∧
      (takeClosing building rest).2.length ≤ rest.length := by
  induction rest generalizing building with
  | nil => exact ⟨firm, rfl, Nat.le_refl _⟩
  | cons next rest ih =>
    unfold takeClosing
    split
    · exact ⟨firm, rfl, Nat.le_refl _⟩
    · obtain ⟨kept, read, short⟩ := ih (firm.push next)
      refine ⟨kept, ?_, Nat.le_succ_of_le short⟩
      rw [read, firm.spelled_push, append_assoc, singleton_append]

theorem cut_spec {fuel : Nat} {text : List Char} (enough : text.length ≤ fuel)
    (found : List Piece) {building : Piece} (firm : building.Firm) :
    (cut fuel text found building).2.Firm ∧
      (cut fuel text found building).1.flatMap Piece.spelled
          ++ (cut fuel text found building).2.spelled =
        found.flatMap Piece.spelled ++ building.spelled ++ text := by
  induction fuel generalizing text found building with
  | zero =>
    have none_left : text = [] := eq_nil_of_length_eq_zero (by omega)
    rw [none_left, append_nil]
    exact ⟨firm, rfl⟩
  | succ fuel ih =>
    cases text with
    | nil =>
      rw [append_nil]
      exact ⟨firm, rfl⟩
    | cons character rest =>
      rw [length_cons] at enough
      have pushed := firm.spelled_push character
      unfold cut
      split
      · obtain ⟨-, read, short⟩ := takeClosing_spec (firm.push character) rest
        obtain ⟨kept, whole⟩ :=
          @ih (takeClosing (building.push character) rest).2 (by omega)
            (found ++ [(takeClosing (building.push character) rest).1]) _ Piece.firm_empty
        refine ⟨kept, ?_⟩
        rw [whole, flatMap_append, flatMap_singleton, Piece.spelled_empty,
          append_nil, append_assoc, read, pushed]
        simp only [append_assoc, singleton_append]
      · obtain ⟨kept, whole⟩ := @ih rest (by omega) found _ (firm.push character)
        refine ⟨kept, ?_⟩
        rw [whole, pushed]
        simp only [append_assoc, singleton_append]

theorem finish_spelled (found : List Piece) {building : Piece} (firm : building.Firm) :
    (finish found building).flatMap Piece.spelled =
      found.flatMap Piece.spelled ++ building.spelled := by
  unfold finish
  split
  · next nothing =>
      rw [nothing]
      exact (append_nil _).symm
  · split
    · next last ends =>
        split
        · next blank =>
            obtain ⟨front, rfl⟩ := getLast?_eq_some_iff.mp ends
            rw [Piece.isBlank, List.isEmpty_iff] at blank
            simp only [dropLast_concat, flatMap_append, flatMap_singleton,
              Piece.spelled, blank, firm blank, append_nil, append_assoc]
        · rw [flatMap_append, flatMap_singleton]
    · rw [flatMap_append, flatMap_singleton]

theorem pieces_spelled (text : List Char) : (pieces text).flatMap Piece.spelled = text := by
  obtain ⟨firm, whole⟩ := cut_spec (Nat.le_refl text.length) [] Piece.firm_empty
  rw [pieces, finish_spelled _ firm, whole]
  rfl

namespace Slice

def piece (slice : Slice) : Piece := ⟨slice.lead, slice.text, slice.trail⟩

def spelled (slice : Slice) : List Char := slice.lead ++ slice.text ++ slice.trail

end Slice

/-- The slices of a card that are not of one kind: without insertions they are the original, and
without deletions the suggestion. -/
def without (dropped : SliceKind) (slices : List Slice) : List Slice :=
  slices.filter fun slice => slice.kind ≠ dropped

def sames (slices : List Slice) : List Slice := slices.filter fun slice => slice.kind = .same

theorem without_append (dropped : SliceKind) (front back : List Slice) :
    without dropped (front ++ back) = without dropped front ++ without dropped back :=
  filter_append ..

theorem map_piece_without (dropped kind : SliceKind) (list : List Piece) :
    (without dropped (list.map (Piece.intoSlice kind))).map Slice.piece =
      if kind = dropped then [] else list := by
  induction list with
  | nil => simp [without]
  | cons piece list ih =>
    by_cases same : kind = dropped
    · rw [if_pos same]
      simp [without, Piece.intoSlice, same]
    · rw [if_neg same] at ih ⊢
      simpa [without, Piece.intoSlice, same, Slice.piece] using ih

theorem without_cons (dropped kind : SliceKind) (piece : Piece) (slices : List Slice) :
    (without dropped (piece.intoSlice kind :: slices)).map Slice.piece =
      (if kind = dropped then [] else [piece]) ++ (without dropped slices).map Slice.piece := by
  by_cases same : kind = dropped
  · simp [without, Piece.intoSlice, same]
  · simp [without, Piece.intoSlice, same, Slice.piece]

variable {gone come : List Piece} {fuel left right : Nat}

theorem walk_sides (table : Table)
    (enough : gone.length + come.length ≤ fuel) :
    (without .insert (walk table fuel left gone right come)).map Slice.piece = gone ∧
      (without .delete (walk table fuel left gone right come)).map Slice.piece = come := by
  fun_induction walk table fuel left gone right come with
  | case1 fuel left gone right other come ih =>
    rw [length_cons, length_cons] at enough
    have rest := ih (by omega)
    rw [without_cons, without_cons, rest.1, rest.2]
    exact ⟨rfl, rfl⟩
  | case2 fuel left one gone right other come _ _ ih =>
    rw [length_cons] at enough
    have rest := ih (by omega)
    rw [without_cons, without_cons, rest.1, rest.2]
    exact ⟨rfl, rfl⟩
  | case3 fuel left one gone right other come _ _ ih =>
    simp only [length_cons] at enough ih
    have rest := ih (by omega)
    rw [without_cons, without_cons, rest.1, rest.2]
    exact ⟨rfl, rfl⟩
  | case4 fuel _ gone _ come _ =>
    simp only [without_append, map_append, map_piece_without]
    exact ⟨append_nil _, rfl⟩

theorem middleSlices_sides (gone come : List Piece) :
    (without .insert (middleSlices gone come)).map Slice.piece = gone ∧
      (without .delete (middleSlices gone come)).map Slice.piece = come := by
  unfold middleSlices
  split
  · simp only [without_append, map_append, map_piece_without]
    exact ⟨append_nil _, rfl⟩
  · exact walk_sides _ (Nat.le_refl _)

/-! ### The table -/

namespace Table

open CommonSubsequence

/-- The cells from `left`, `right` on, row by row, hold what they are for. -/
structure Filled (gone come : List Piece) (left right : Nat) (table : Table) : Prop where
  width : table.width = come.length
  size : table.cells.length = gone.length * come.length
  longest : ∀ {row column : Nat}, row < gone.length → column < come.length →
    left < row ∨ left = row ∧ right ≤ column →
    IsLongest (gone.drop row) (come.drop column) (table.at_ row column)

variable {gone come : List Piece} {left right : Nat} {table : Table}

theorem place_lt (inRow : left < gone.length) (inColumn : right < come.length) :
    left * come.length + right < gone.length * come.length := by
  have next : (left + 1) * come.length ≤ gone.length * come.length :=
    Nat.mul_le_mul_right _ inRow
  rw [Nat.add_mul, Nat.one_mul] at next
  omega

theorem place_injective {width row column : Nat} (inWidth : right < width)
    (inWidth' : column < width) (same : left * width + right = row * width + column) :
    left = row ∧ right = column := by
  have first : (left * width + right) / width = left := by
    rw [Nat.mul_comm, Nat.mul_add_div (by omega), Nat.div_eq_of_lt inWidth, Nat.add_zero]
  have second : (row * width + column) / width = row := by
    rw [Nat.mul_comm, Nat.mul_add_div (by omega), Nat.div_eq_of_lt inWidth', Nat.add_zero]
  have rows : left = row := by rw [← first, ← second, same]
  rw [rows] at same
  exact ⟨rows, by omega⟩

theorem at_of_lt {row column : Nat} (inColumn : column < table.width) :
    table.at_ row column = (table.cells[row * table.width + column]?).getD 0 := by
  simp [at_, cell, inColumn]

theorem at_put (inColumn : right < table.width)
    (inCells : left * table.width + right < table.cells.length) (value row column : Nat)
    (inColumn' : column < table.width) :
    (table.put left right value).at_ row column =
      if left = row ∧ right = column then value else table.at_ row column := by
  have put_eq : table.put left right value =
      ⟨table.cells.set (left * table.width + right) value, table.width⟩ := by
    simp [put, cell, inColumn]
  have written := @at_of_lt (table.put left right value) row column (by rw [put_eq]; exact inColumn')
  rw [written, at_of_lt inColumn', put_eq, getElem?_set]
  by_cases here : left = row ∧ right = column
  · rw [if_pos here, if_pos (by rw [here.1, here.2]), if_pos inCells, Option.getD_some]
  · rw [if_neg here, if_neg (fun same => here (place_injective inColumn inColumn' same))]

theorem Filled.at_ (filled : Filled gone come left right table) {row column : Nat}
    (later : left < row ∨ left = row ∧ right ≤ column) :
    IsLongest (gone.drop row) (come.drop column) (table.at_ row column) := by
  by_cases inColumn : column < come.length
  · by_cases inRow : row < gone.length
    · exact filled.longest inRow inColumn later
    · have past : table.cells.length ≤ row * table.width + column := by
        have rows := Nat.mul_le_mul_right come.length (Nat.le_of_not_lt inRow)
        rw [filled.size, filled.width]
        omega
      rw [at_of_lt (filled.width ▸ inColumn), getElem?_eq_none past,
        drop_eq_nil_of_le (Nat.le_of_not_lt inRow)]
      exact isLongest_nil_left _
  · have outside : table.at_ row column = 0 := by
      simp [Table.at_, cell, filled.width, inColumn]
    rw [outside, drop_eq_nil_of_le (Nat.le_of_not_lt inColumn)]
    exact isLongest_nil_right _

variable (budget : gone.length * come.length ≤ alignCellsMax)

include budget

theorem small_of_longest {first second : List Piece} {length : Nat} (fewer : first.length ≤ gone.length)
    (fewer' : second.length ≤ come.length) (longest : IsLongest first second length) :
    length + 1 < u32Values := by
  have below : length ≤ gone.length := Nat.le_trans longest.le_left fewer
  have below' : length ≤ come.length := Nat.le_trans longest.le_right fewer'
  have square : length * length ≤ alignCellsMax :=
    Nat.le_trans (Nat.mul_le_mul below below') budget
  unfold alignCellsMax at square
  unfold u32Values
  by_contra big
  have large : 2 ^ 31 ≤ length := by omega
  have larger := Nat.mul_le_mul large large
  omega

theorem Filled.put (filled : Filled gone come left (right + 1) table) {one other : Piece}
    (inRow : gone[left]? = some one) (inColumn : come[right]? = some other) :
    Filled gone come left right (table.put left right (table.value left right one other)) := by
  obtain ⟨leftLt, oneIs⟩ := List.getElem?_eq_some_iff.mp inRow
  obtain ⟨rightLt, otherIs⟩ := List.getElem?_eq_some_iff.mp inColumn
  have inWidth : right < table.width := by rw [filled.width]; exact rightLt
  have inCells : left * table.width + right < table.cells.length := by
    rw [filled.width, filled.size]
    exact place_lt leftLt rightLt
  have kept : (table.put left right (table.value left right one other)).width = table.width ∧
      (table.put left right (table.value left right one other)).cells.length =
        table.cells.length := by
    simp [Table.put, cell, inWidth]
  have rowIs : gone.drop left = one :: gone.drop (left + 1) := by
    rw [drop_eq_getElem_cons leftLt, oneIs]
  have columnIs : come.drop right = other :: come.drop (right + 1) := by
    rw [drop_eq_getElem_cons rightLt, otherIs]
  have worth : IsLongest (gone.drop left) (come.drop right)
      (table.value left right one other) := by
    rw [rowIs, columnIs, Table.value]
    by_cases same : one = other
    · have diagonal : IsLongest (gone.drop (left + 1)) (come.drop (right + 1))
          (table.at_ (left + 1) (right + 1)) := filled.at_ (by omega)
      have fits := small_of_longest budget (by simp) (by simp) diagonal
      rw [if_pos same, saturatingAdd_of_lt fits, ← same]
      exact diagonal.cons_same one
    · have below : IsLongest (gone.drop (left + 1)) (come.drop right)
          (table.at_ (left + 1) right) := filled.at_ (by omega)
      have beside : IsLongest (gone.drop left) (come.drop (right + 1))
          (table.at_ left (right + 1)) := filled.at_ (by omega)
      rw [columnIs] at below
      rw [rowIs] at beside
      rw [if_neg same]
      exact IsLongest.cons_ne same below beside
  refine ⟨kept.1.trans filled.width, kept.2.trans filled.size, ?_⟩
  intro row column rowLt columnLt later
  rw [at_put inWidth inCells _ _ _ (filled.width ▸ columnLt)]
  by_cases here : left = row ∧ right = column
  · rw [if_pos here, ← here.1, ← here.2]
    exact worth
  · rw [if_neg here]
    exact filled.longest rowLt columnLt (by omega)

variable {front back : List Piece}

theorem Filled.columns (filled : Filled gone come left come.length table) {one : Piece}
    (inRow : gone[left]? = some one) (split : front ++ back = come) :
    Filled gone come left front.length ((back.zipIdx front.length).foldr
      (fun (other, right) table => table.put left right (table.value left right one other))
        table) := by
  induction back generalizing front with
  | nil =>
    rw [append_nil] at split
    rw [split]
    exact filled
  | cons other back ih =>
    have later := @ih (front ++ [other]) (by rw [append_assoc]; exact split)
    rw [length_append, length_singleton] at later
    have inColumn : come[front.length]? = some other := by rw [← split]; simp
    exact later.put budget inRow inColumn

theorem Filled.row (filled : Filled gone come (left + 1) 0 table) {one : Piece}
    (inRow : gone[left]? = some one) : Filled gone come left 0 (fillRow come left one table) := by
  have turned : Filled gone come left come.length table := by
    refine ⟨filled.width, filled.size, ?_⟩
    intro row column rowLt columnLt later
    exact filled.longest rowLt columnLt (by omega)
  have whole : [] ++ come = come := rfl
  exact turned.columns budget inRow whole

theorem Filled.rows (filled : Filled gone come gone.length 0 table)
    (split : front ++ back = gone) :
    Filled gone come front.length 0 ((back.zipIdx front.length).foldr
      (fun (one, left) table => fillRow come left one table) table) := by
  induction back generalizing front with
  | nil =>
    rw [append_nil] at split
    rw [split]
    exact filled
  | cons one back ih =>
    have later := @ih (front ++ [one]) (by rw [append_assoc]; exact split)
    rw [length_append, length_singleton] at later
    have inRow : gone[front.length]? = some one := by rw [← split]; simp
    exact later.row budget inRow

omit budget

theorem longest_of (made : Table.of gone come = some table) (row column : Nat) :
    IsLongest (gone.drop row) (come.drop column) (table.at_ row column) := by
  unfold Table.of at made
  split at made
  · cases made
  · next budget =>
      have start : Filled gone come gone.length 0
          ⟨List.replicate (gone.length * come.length) 0, come.length⟩ := by
        refine ⟨rfl, length_replicate, ?_⟩
        intro row column rowLt _ later
        omega
      have whole : [] ++ gone = gone := rfl
      have filled := start.rows (Nat.le_of_not_lt budget) whole
      cases made
      exact filled.at_ (by rw [length_nil]; omega)

end Table

theorem sames_append (front back : List Slice) : sames (front ++ back) = sames front ++ sames back :=
  filter_append ..

theorem length_sames_map_same (list : List Piece) :
    (sames (list.map (Piece.intoSlice .same))).length = list.length := by
  have all : sames (list.map (Piece.intoSlice .same)) = list.map (Piece.intoSlice .same) := by
    apply filter_eq_self.mpr
    intro slice member
    obtain ⟨piece, -, rfl⟩ := mem_map.mp member
    rfl
  rw [all, length_map]

theorem sames_map_other {kind : SliceKind} (other : kind ≠ .same) (list : List Piece) :
    sames (list.map (Piece.intoSlice kind)) = [] := by
  apply filter_eq_nil_iff.mpr
  intro slice member
  obtain ⟨piece, -, rfl⟩ := mem_map.mp member
  simp [Piece.intoSlice, other]

theorem drop_next {list rest : List Piece} {index : Nat} {head : Piece}
    (here : list.drop index = head :: rest) : list.drop (index + 1) = rest := by
  rw [drop_add_one_eq_tail_drop, here, tail_cons]

theorem walk_longest {table : Table}
    (longest : ∀ row column, CommonSubsequence.IsLongest (gone.drop row) (come.drop column)
      (table.at_ row column)) {someGone someCome : List Piece}
    (goneIs : gone.drop left = someGone) (comeIs : come.drop right = someCome)
    (enough : someGone.length + someCome.length ≤ fuel) :
    CommonSubsequence.IsLongest someGone someCome
      (sames (walk table fuel left someGone right someCome)).length := by
  fun_induction walk table fuel left someGone right someCome with
  | case1 fuel left rest right other come' ih =>
    rw [length_cons, length_cons] at enough
    have inner := ih (drop_next goneIs) (drop_next comeIs) (by omega)
    exact inner.cons_same other
  | case2 fuel left one rest right other come' apart more ih =>
    rw [length_cons] at enough
    have nextGone := drop_next goneIs
    have nextCome := drop_next comeIs
    have inner := ih nextGone comeIs (by omega)
    have below := longest (left + 1) right
    have beside := longest left (right + 1)
    rw [nextGone, comeIs] at below
    rw [goneIs, nextCome] at beside
    have both := cons_ne apart below beside
    rw [Nat.max_eq_left more, below.unique inner] at both
    exact both
  | case3 fuel left one rest right other come' apart fewer ih =>
    simp only [length_cons] at enough ih
    have nextGone := drop_next goneIs
    have nextCome := drop_next comeIs
    have inner := ih goneIs nextCome (by omega)
    have below := longest (left + 1) right
    have beside := longest left (right + 1)
    rw [nextGone, comeIs] at below
    rw [goneIs, nextCome] at beside
    have both := cons_ne apart below beside
    rw [Nat.max_eq_right (by omega), beside.unique inner] at both
    exact both
  | case4 fuel _ someGone _ someCome used =>
    rw [sames_append, sames_map_other (by decide), sames_map_other (by decide)]
    cases someGone with
    | nil => exact CommonSubsequence.isLongest_nil_left _
    | cons one rest =>
      cases someCome with
      | nil => exact CommonSubsequence.isLongest_nil_right _
      | cons other come' =>
        -- both lists have sentences left, so there was fuel for another turn
        cases fuel with
        | zero => simp at enough
        | succ fuel => exact absurd rfl (used fuel one rest other come' rfl rfl)

def Tabled (gone come : List Piece) : Prop := gone.length * come.length ≤ alignCellsMax

instance (gone come : List Piece) : Decidable (Tabled gone come) :=
  inferInstanceAs (Decidable (_ ≤ _))

theorem middleSlices_longest (tabled : Tabled gone come) :
    CommonSubsequence.IsLongest gone come (sames (middleSlices gone come)).length := by
  unfold middleSlices
  split
  · next refused =>
      rw [Table.of, if_neg (Nat.not_lt.mpr tabled)] at refused
      cases refused
  · next table made => exact walk_longest (Table.longest_of made) rfl rfl (Nat.le_refl _)

/-! ### The common ends -/

theorem take_middle_take (list : List Piece) (head tail : Nat) :
    list.take head ++ middle head tail list ++ ((list.drop head).reverse.take tail).reverse =
      list := by
  have last : ((list.drop head).reverse.take tail).reverse =
      (list.drop head).drop (list.length - head - tail) := by
    rw [reverse_take, reverse_reverse, length_reverse, length_drop]
  rw [last, middle, append_assoc, take_append_drop, take_append_drop]

theorem common_ends (before after : List Piece) :
    before.take (headOf before after) = after.take (headOf before after) ∧
    (before.drop (headOf before after)).reverse.take (tailOf before after) =
      (after.drop (headOf before after)).reverse.take (tailOf before after) :=
  ⟨take_agreed before after, take_agreed _ _⟩

theorem align_sides (before after : List Piece) :
    (without .insert (align before after)).map Slice.piece = before ∧
      (without .delete (align before after)).map Slice.piece = after := by
  obtain ⟨heads, tails⟩ := common_ends before after
  have middles := middleSlices_sides
    (middle (headOf before after) (tailOf before after) before)
    (middle (headOf before after) (tailOf before after) after)
  simp only [align, without_append, map_append, map_piece_without, middles, reduceCtorEq, if_false]
  refine ⟨take_middle_take _ _ _, ?_⟩
  rw [heads, tails]
  exact take_middle_take _ _ _

theorem align_longest {before after : List Piece}
    (tabled : Tabled (middle (headOf before after) (tailOf before after) before)
      (middle (headOf before after) (tailOf before after) after)) :
    CommonSubsequence.IsLongest before after (sames (align before after)).length := by
  obtain ⟨heads, tails⟩ := common_ends before after
  have whole := ((middleSlices_longest tabled).append_left
    (before.take (headOf before after))).append_right
    ((before.drop (headOf before after)).reverse.take (tailOf before after)).reverse
  rw [take_middle_take, heads, tails, take_middle_take] at whole
  simp only [align, sames_append, length_append, length_sames_map_same]
  rw [heads, tails]
  exact whole

end Sprawling.Documents
