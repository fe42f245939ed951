import Sprawling.Base.Text
import Sprawling.Base.Utf8

/-! The replacement an edit makes: where its passage stands in a text, with the line marks a read
answer drew taken off when the passage was copied with them. -/

namespace Sprawling

open List

namespace Replacement

/-- The text on both sides of the first occurrence of a passage. -/
def aroundFirst (old : List Char) : List Char → Option (List Char × List Char)
  | [] => if old.isPrefixOf [] then some ([], []) else none
  | c :: rest =>
    if old.isPrefixOf (c :: rest) then some ([], (c :: rest).drop old.length)
    else (aroundFirst old rest).map fun sides => (c :: sides.1, sides.2)

/-- How often a passage occurs, each occurrence counted from the end of the one before; `skip`
characters still belong to that one. -/
def countFrom (old : List Char) : Nat → List Char → Nat
  | _, [] => 0
  | skip + 1, _ :: rest => countFrom old skip rest
  | 0, c :: rest =>
    if old.isPrefixOf (c :: rest) then countFrom old (old.length - 1) rest + 1
    else countFrom old 0 rest

def count (old text : List Char) : Nat := countFrom old 0 text

/-- `replacen(old, new, 1)`. -/
def replaceFirst (old new text : List Char) : List Char :=
  match aroundFirst old text with
  | some sides => sides.1 ++ new ++ sides.2
  | none => text

def replaceFrom (old new : List Char) : Nat → List Char → List Char
  | _, [] => []
  | skip + 1, _ :: rest => replaceFrom old new skip rest
  | 0, c :: rest =>
    if old.isPrefixOf (c :: rest) then new ++ replaceFrom old new (old.length - 1) rest
    else c :: replaceFrom old new 0 rest

def replaceAll (old new text : List Char) : List Char := replaceFrom old new 0 text

def contains (old text : List Char) : Bool := (aroundFirst old text).isSome

/-- Every text before an occurrence of a passage, occurrences counted from the end of the one
before. -/
def beforesFrom (old : List Char) (passed : List Char) : Nat → List Char → List (List Char)
  | _, [] => []
  | skip + 1, c :: rest => beforesFrom old (passed ++ [c]) skip rest
  | 0, c :: rest =>
    if old.isPrefixOf (c :: rest) then
      passed :: beforesFrom old (passed ++ [c]) (old.length - 1) rest
    else beforesFrom old (passed ++ [c]) 0 rest

theorem aroundFirst_spec {old text before after : List Char}
    (found : aroundFirst old text = some (before, after)) : text = before ++ old ++ after := by
  induction text generalizing before with
  | nil =>
    unfold aroundFirst at found
    split at found
    · rename_i starts
      cases found
      rw [List.isPrefixOf_iff_prefix] at starts
      rw [prefix_nil.mp starts]
      rfl
    · cases found
  | cons c rest ih =>
    unfold aroundFirst at found
    split at found
    · rename_i starts
      cases found
      obtain ⟨tail, whole⟩ := isPrefixOf_iff_prefix.mp starts
      rw [← whole, drop_left, nil_append]
    · obtain ⟨sides, inner, same⟩ := Option.map_eq_some_iff.mp found
      cases same
      rw [ih inner, cons_append, cons_append]

variable {old text : List Char}

theorem aroundFirst_of_countFrom (some_ : countFrom old 0 text ≠ 0) :
    ∃ sides, aroundFirst old text = some sides := by
  induction text with
  | nil => exact absurd rfl some_
  | cons c rest ih =>
    by_cases starts : old.isPrefixOf (c :: rest) = true
    · exact ⟨_, by rw [aroundFirst, if_pos starts]⟩
    · rw [countFrom, if_neg starts] at some_
      obtain ⟨sides, found⟩ := ih some_
      exact ⟨_, by rw [aroundFirst, if_neg starts, found, Option.map_some]⟩

theorem replaceFirst_spec (new : List Char) (some_ : count old text ≠ 0) :
    ∃ before after, text = before ++ old ++ after ∧
      replaceFirst old new text = before ++ new ++ after := by
  obtain ⟨⟨before, after⟩, found⟩ := aroundFirst_of_countFrom some_
  refine ⟨before, after, aroundFirst_spec found, ?_⟩
  rw [replaceFirst, found]

end Replacement

/-- How a renderer numbers the lines it draws. -/
inductive Numbering where
  | fromZero
  | fromOne

namespace Numbering

def current : Numbering := .fromOne

/-- The number the line at an index is drawn with. -/
def shown : Numbering → Nat → Option Nat
  | .fromZero, index => some index
  | .fromOne, index => if index + 1 < 2 ^ 64 then some (index + 1) else none

/-- The index of the line drawn with a number. -/
def index : Numbering → Nat → Option Nat
  | .fromZero, number => some number
  | .fromOne, number => if number = 0 then none else some (number - 1)

end Numbering

/-- One line of a copied passage, line end included, and the number its leading mark spells with the
line after the mark. -/
structure CopiedLine where
  whole : List Char
  mark : Option (Nat × List Char)

/-- A passage copied out of a read answer. -/
structure Copied where
  lines : List CopiedLine
  numbering : Numbering

namespace Copied

def markEvery : Nat := 10

def markEnd : Char := '|'

/-- Whether a read answer that starts at line `first` marks the line `at_`. -/
def isMarked (first at_ : Nat) : Bool := at_ = first || at_ % markEvery = 0

/-- The lines of a text, each with its line end. -/
def splitInclusive : List Char → List (List Char)
  | [] => []
  | c :: rest =>
    if c = '\n' then [c] :: splitInclusive rest
    else match splitInclusive rest with
      | [] => [[c]]
      | line :: others => (c :: line) :: others

def readLine (whole : List Char) : CopiedLine where
  whole := whole
  mark := do
    let number ← Text.parseDigits (2 ^ 64) (whole.takeWhile Char.isDigit)
    match whole.dropWhile Char.isDigit with
    | c :: rest => if c = markEnd then some (number, rest) else none
    | [] => none

def of (text : List Char) (numbering : Numbering) : Copied :=
  { lines := (splitInclusive text).map readLine, numbering }

/-- Each index the passage's first line could sit at for one of its marks to have been drawn
there. -/
def starts (copied : Copied) : List Nat :=
  (copied.lines.zipIdx.filterMap fun (line, at_) => do
    let (number, _) ← line.mark
    if at_ ≤ number ∧ isMarked (number - at_) number then copied.numbering.index (number - at_)
    else none).dedup.mergeSort

/-- The mark of the line `at_` below a first line numbered `first`, where it can have been drawn. -/
def drawn (first : Nat) (line : CopiedLine) (at_ : Nat) : Option (Nat × List Char) :=
  line.mark.filter fun mark =>
    first + at_ < 2 ^ 64 && first + at_ = mark.1 && isMarked first mark.1

/-- The passage without the marks an answer would have drawn from `start` on, and the numbers those
marks spelled. -/
def drawnFrom (copied : Copied) (start : Nat) : Option (List Char × List Nat) := do
  let first ← copied.numbering.shown start
  let marked := copied.lines.zipIdx.map fun (line, at_) => (line, drawn first line at_)
  let taken := marked.filterMap fun entry => entry.2.map Prod.fst
  if taken.isEmpty then none
  else some (marked.flatMap fun entry => (entry.2.map Prod.snd).getD entry.1.whole, taken)

/-- The passage without the marks that spell one of `numbers`. -/
def without (copied : Copied) (numbers : List Nat) : List Char :=
  copied.lines.flatMap fun line =>
    match line.mark with
    | some (number, rest) => if number ∈ numbers then rest else line.whole
    | none => line.whole

theorem flatten_splitInclusive (text : List Char) : (splitInclusive text).flatten = text := by
  induction text with
  | nil => rfl
  | cons c rest ih =>
    rw [splitInclusive]
    split
    · next ended => rw [flatten_cons, ih, ended, singleton_append]
    · split
      · next empty =>
          rw [empty] at ih
          rw [← ih]
          rfl
      · next line others found =>
          rw [found] at ih
          rw [← ih]
          rfl

end Copied

namespace Replacement

/-- Whether the passage occurs at the beginning of the line at an index. -/
def beginsOnLine (text passage : List Char) (line : Nat) : Bool :=
  !passage.isEmpty && (beforesFrom passage [] 0 text).any fun before =>
    (before.isEmpty || before.getLast? = some '\n') && before.count '\n' = line

/-- The passage and its replacement as the file spells them. -/
def asTheFileSpells (text old new : List Char) : List Char × List Char :=
  if contains old text then (old, new)
  else
    let copied := Copied.of old .current
    let confirmed := copied.starts.filterMap fun start => do
      let (bare, numbers) ← copied.drawnFrom start
      if beginsOnLine text bare start then some (bare, numbers) else none
    match confirmed with
    | [(bare, numbers)] => (bare, (Copied.of new .current).without numbers)
    | _ => (old, new)

end Replacement

end Sprawling
