import Sprawling.Base.Lines
import Sprawling.Documents.Edit

/-! Where a document's blocks lie in its bytes. A layout only records which intervals are blocks;
every byte between blocks stays where it is. -/

namespace Sprawling.Documents

open List Word Lines

/-- The grammar a document's blocks are read by. -/
inductive Format where
  | markdown
  | plain

def newline : UInt8 := 0x0A

def carriageReturn : UInt8 := 0x0D

def space : UInt8 := 0x20

def tab : UInt8 := 0x09

def backtick : UInt8 := 0x60

def tilde : UInt8 := 0x7E

def hash : UInt8 := 0x23

def isIndent (byte : UInt8) : Bool := byte == space || byte == tab

def isAsciiWhitespace (byte : UInt8) : Bool :=
  byte == space || byte == tab || byte == newline || byte == 0x0C || byte == carriageReturn

/-- One line of the source: where it starts, and its content up to its line ending. -/
structure Line where
  start : Nat
  content : Bytes

namespace Line

def contentEnd (line : Line) : Nat :=
  Word.saturatingAdd u64Values line.start line.content.length

def isBlank (line : Line) : Bool := line.content.all isAsciiWhitespace

/-- An ATX heading opened in the first column: one to six `#`, then a space, a tab or the end of
the line. -/
def isMarginHeading (line : Line) : Bool :=
  let marks := (line.content.takeWhile (· == hash)).length
  1 ≤ marks && marks ≤ 6 && line.content[marks]?.all isIndent

end Line

/-- The bytes less one carriage return at their end. -/
def stripReturn (raw : Bytes) : Bytes :=
  if raw.getLast? = some carriageReturn then raw.dropLast else raw

/-- Each stretch between newlines as a line, with the offset just past its newline. -/
def scan : Nat → List Bytes → List (Line × Nat)
  | _, [] => []
  | start, raw :: rest =>
    let next := Word.saturatingAdd u64Values
      (Word.saturatingAdd u64Values start raw.length) 1
    (⟨start, stripReturn raw⟩, next) :: scan next rest

/-- Every line that ends with a newline, and the offset just past it; the last line, when nothing
ends it yet, is left out. -/
def completeLines (source : Bytes) : List (Line × Nat) := scan 0 (complete newline source)

def lines (source : Bytes) : List Line := (scan 0 (source.splitOn newline)).map Prod.fst

/-- A line that opens or closes a code block: three or more of one delimiter byte, indented by fewer
than four columns. -/
structure Delimiter where
  byte : UInt8
  width : Nat

namespace Delimiter

def of (line : Bytes) : Option Delimiter :=
  let indent := ((line.take 4).takeWhile isIndent).length
  if indent = 4 then none
  else
    match line.drop indent with
    | [] => none
    | byte :: rest =>
      if byte = backtick ∨ byte = tilde then
        let width := ((byte :: rest).takeWhile (· == byte)).length
        if 3 ≤ width then some ⟨byte, width⟩ else none
      else none

/-- Whether the line closes the block `opened` began: the same byte, at least as many of it. -/
def closes (closing opened : Delimiter) : Bool :=
  closing.byte == opened.byte && opened.width ≤ closing.width

end Delimiter

/-- Where a code block's opening line began: at the margin, or indented. -/
inductive Margin where
  | at_
  | indented
deriving DecidableEq

def Margin.of (line : Bytes) : Margin :=
  match line.head? with
  | some byte => if byte = backtick ∨ byte = tilde then .at_ else .indented
  | none => .indented

/-- Up to where blocks can no longer change, and the code block that is open. -/
structure Closing where
  closed : Nat
  code : Option (Delimiter × Margin)

def Closing.line (held : Closing) (entry : Line × Nat) : Closing :=
  let step : Option (Delimiter × Margin) × Bool :=
    match held.code, Delimiter.of entry.1.content with
    | none, some opened => (some (opened, Margin.of entry.1.content), false)
    | none, none => (none, entry.1.isBlank || entry.1.isMarginHeading)
    | some (opened, margin), some closing =>
      if closing.closes opened then (none, margin == .at_) else (some (opened, margin), false)
    | some opened, none => (some opened, false)
  ⟨if step.2 then entry.2 else held.closed, step.1⟩

def Closing.start : Closing := ⟨0, none⟩

/-- Where the blocks that can no longer change end, in Markdown still being written. -/
def closed (source : Bytes) : Nat :=
  ((completeLines source).foldl Closing.line Closing.start).closed

/-- The blocks found, where the open one starts, where the last line of it ended, and the code block
that is open. -/
structure Blocks where
  spans : List Span
  first : Option Nat
  lastEnd : Nat
  code : Option Delimiter

namespace Blocks

def start : Blocks := ⟨[], none, 0, none⟩

/-- The blocks with the open one ended. -/
def ended (held : Blocks) : List Span :=
  match held.first with
  | some first => held.spans ++ [Span.between first held.lastEnd]
  | none => held.spans

def line (held : Blocks) (line : Line) : Blocks :=
  let code :=
    match held.code, Delimiter.of line.content with
    | none, marker => marker
    | some opened, some closing => if closing.closes opened then none else some opened
    | some opened, none => some opened
  if code.isNone && line.isBlank then { held with spans := held.ended, first := none, code }
  else { held with first := some (held.first.getD line.start), lastEnd := line.contentEnd, code }

end Blocks

/-- Blank lines separate blocks; a code block between two delimiter lines holds its blank lines. -/
def markdownBlocks (source : Bytes) : List Span :=
  ((lines source).foldl Blocks.line Blocks.start).ended

/-- Every line one block, empty ones included. -/
def plainBlocks (source : Bytes) : List Span :=
  (lines source).map fun line => Span.between line.start line.contentEnd

def blocks (format : Format) (source : Bytes) : List Span :=
  match format with
  | .markdown => markdownBlocks source
  | .plain => plainBlocks source

/-! ### The lines of a source that grows -/

theorem scan_prefix {start : Nat} {first second : List Bytes} (grows : first <+: second) :
    scan start first <+: scan start second := by
  obtain ⟨more, rfl⟩ := grows
  induction first generalizing start with
  | nil => exact nil_prefix
  | cons raw rest ih =>
    rw [cons_append, scan, scan]
    exact cons_prefix_cons.mpr ⟨rfl, ih⟩

theorem completeLines_append (source more : Bytes) :
    completeLines source <+: completeLines (source ++ more) := by
  apply scan_prefix
  have whole := @Lines.complete_whole_append _ newline _ (Lines.tail newline source ++ more) source
  rw [← append_assoc, whole_append_tail] at whole
  rw [whole]
  exact prefix_append _ _

theorem Line.start_le_contentEnd {line : Line} (counted : line.start < u64Values) :
    line.start ≤ line.contentEnd := le_saturatingAdd counted _

/-- Lines come one after another. -/
theorem scan_ordered {start : Nat} (counted : start < u64Values) (raws : List Bytes) :
    (∀ entry ∈ scan start raws, start ≤ entry.1.start ∧ entry.1.start < u64Values ∧
      entry.1.start ≤ entry.2) ∧
    (scan start raws).Pairwise fun one other => one.2 ≤ other.1.start := by
  induction raws generalizing start with
  | nil => exact ⟨fun entry member => (nomatch member), List.Pairwise.nil⟩
  | cons raw rest ih =>
    have some_value : 0 < u64Values := Nat.lt_of_le_of_lt (Nat.zero_le _) counted
    have reached := saturatingAdd_lt some_value start raw.length
    have first := le_saturatingAdd counted raw.length
    have second := le_saturatingAdd reached 1
    obtain ⟨later, ordered⟩ := ih (saturatingAdd_lt some_value
      (Word.saturatingAdd u64Values start raw.length) 1)
    rw [scan]
    constructor
    · intro entry member
      rcases mem_cons.mp member with rfl | member
      · exact ⟨Nat.le_refl _, counted, Nat.le_trans first second⟩
      · obtain ⟨from_, bounded, ends⟩ := later entry member
        exact ⟨Nat.le_trans (Nat.le_trans first second) from_, bounded, ends⟩
    · exact pairwise_cons.mpr ⟨fun entry member => (later entry member).1, ordered⟩

theorem lines_eq (source : Bytes) :
    ∃ last, lines source = (completeLines source).map Prod.fst ++ [last] := by
  rw [lines, splitOn_eq, completeLines]
  generalize complete newline source = raws
  generalize (0 : Nat) = start
  induction raws generalizing start with
  | nil => exact ⟨_, rfl⟩
  | cons raw rest ih =>
    obtain ⟨last, same⟩ := ih (Word.saturatingAdd u64Values
      (Word.saturatingAdd u64Values start raw.length) 1)
    refine ⟨last, ?_⟩
    rw [cons_append, scan, scan, map_cons, map_cons, same, cons_append]

end Sprawling.Documents
