import Sprawling.Base.Departure
import Sprawling.Documents.Layout

/-! Code blocks between fences as CommonMark reads them, and where the layout reads them the same
way. -/

namespace Sprawling.Documents

open List
open Option (map_some map_none bind_none bind_some isSome_map)

/-! ### The rule -/

namespace CommonMark

/-- The column a line's content starts at, from a given column on: a tab runs to the next column
that is a multiple of four. -/
def indent : Nat → Bytes → Nat
  | column, byte :: rest =>
    if byte = space then indent (column + 1) rest
    else if byte = tab then indent ((column / 4 + 1) * 4) rest
    else column
  | column, [] => column

/-- A code fence: its byte and how many of it. -/
structure Fence where
  byte : UInt8
  width : Nat

/-- A line indented by fewer than four columns that starts with three or more backticks or tildes,
and what follows them. -/
def fenced (line : Bytes) : Option (Fence × Bytes) :=
  if 4 ≤ indent 0 line then none
  else
    match line.dropWhile isIndent with
    | [] => none
    | byte :: rest =>
      let width := ((byte :: rest).takeWhile (· == byte)).length
      if (byte = backtick ∨ byte = tilde) ∧ 3 ≤ width then
        some (⟨byte, width⟩, (byte :: rest).drop width)
      else none

/-- The fence a line opens a code block with: a backtick fence has no backtick in its info
string. -/
def opening (line : Bytes) : Option Fence :=
  match fenced line with
  | some (fence, info) => if fence.byte = backtick ∧ backtick ∈ info then none else some fence
  | none => none

/-- Whether a line closes the code block a fence opened: the same byte, at least as many of it, and
nothing after it but spaces or tabs. -/
def closing (fence : Fence) (line : Bytes) : Bool :=
  match fenced line with
  | some (found, rest) => found.byte = fence.byte && fence.width ≤ found.width && rest.all isIndent
  | none => false

/-- The fence of the code block that is open after a line. -/
def next (opened : Option Fence) (line : Bytes) : Option Fence :=
  match opened with
  | none => opening line
  | some fence => if closing fence line then none else some fence

/-- The fence of the code block that is open after some lines, a line being what the layout's own
loop cuts: at a line feed, so that a lone carriage return stands inside one. -/
def after (lines : List Line) : Option Fence :=
  lines.foldl (fun opened line => next opened line.content) none

end CommonMark

/-! ### Where the layout departs from it -/

def indentOf (line : Bytes) : Bytes := line.takeWhile isIndent

/-- What stands after a line's delimiter. -/
def trailing (delimiter : Delimiter) (line : Bytes) : Bytes :=
  (line.dropWhile isIndent).drop delimiter.width

/-- A line the layout reads as a delimiter, and that the rule, with `opened` the code block open
before it, does not: a tab indents it; or it opens a block with a backtick after its backticks; or
it closes one with more than spaces and tabs after its delimiter. -/
def Misread (opened : Option CommonMark.Fence) (line : Bytes) : Prop :=
  ∃ delimiter, Delimiter.of line = some delimiter ∧
    match opened with
    | none => tab ∈ indentOf line ∨
        delimiter.byte = backtick ∧ backtick ∈ trailing delimiter line
    | some fence => delimiter.closes ⟨fence.byte, fence.width⟩ = true ∧
        (tab ∈ indentOf line ∨ ∃ byte ∈ trailing delimiter line, isIndent byte = false)

/-- No line of a source is misread in the state the lines before it leave. -/
def WellRead (source : Bytes) : Prop :=
  ∀ before line after, lines source = before ++ line :: after →
    ¬Misread (CommonMark.after before) line.content

/-! ### One line -/

theorem indent_of_spaces {line : Bytes} {column : Nat} (clean : tab ∉ indentOf line) :
    CommonMark.indent column line = column + (indentOf line).length := by
  induction line generalizing column with
  | nil => rfl
  | cons byte rest ih =>
    unfold CommonMark.indent
    by_cases blank : byte = space
    · have here : indentOf (byte :: rest) = byte :: indentOf rest := by
        rw [indentOf, takeWhile_cons_of_pos (by rw [blank]; rfl)]
        rfl
      rw [here] at clean ⊢
      rw [if_pos blank, ih fun member => clean (mem_cons_of_mem _ member), length_cons]
      omega
    · by_cases tabbed : byte = tab
      · have here : indentOf (byte :: rest) = byte :: indentOf rest := by
          rw [indentOf, takeWhile_cons_of_pos (by rw [tabbed]; rfl)]
          rfl
        rw [here, tabbed] at clean
        exact absurd mem_cons_self clean
      · have stops : isIndent byte = false := by
          simp only [isIndent, Bool.or_eq_false_iff, beq_eq_false_iff_ne]
          exact ⟨blank, tabbed⟩
        rw [if_neg blank, if_neg tabbed, indentOf, takeWhile_cons_of_neg (by simp [stops])]
        rfl

theorem le_indent (line : Bytes) (column : Nat) : column ≤ CommonMark.indent column line := by
  induction line generalizing column with
  | nil => exact Nat.le_refl _
  | cons byte rest ih =>
    unfold CommonMark.indent
    split
    · have later := ih (column + 1)
      omega
    · split
      · have later := ih ((column / 4 + 1) * 4)
        omega
      · exact Nat.le_refl _

theorem indent_of_tab {line : Bytes} {column : Nat} (tabbed : tab ∈ indentOf line) :
    4 ≤ CommonMark.indent column line := by
  induction line generalizing column with
  | nil => cases tabbed
  | cons byte rest ih =>
    unfold CommonMark.indent
    by_cases blank : byte = space
    · have here : indentOf (byte :: rest) = byte :: indentOf rest := by
        rw [indentOf, takeWhile_cons_of_pos (by rw [blank]; rfl)]
        rfl
      rw [here, blank] at tabbed
      rw [if_pos blank]
      rcases mem_cons.mp tabbed with same | later
      · exact absurd same (by decide)
      · exact ih later
    · rw [if_neg blank]
      by_cases first : byte = tab
      · have later := le_indent rest ((column / 4 + 1) * 4)
        rw [if_pos first]
        omega
      · have stops : ¬isIndent byte = true := by
          simp only [isIndent, Bool.or_eq_true, beq_iff_eq]
          rintro (same | same)
          · exact blank same
          · exact first same
        rw [indentOf, takeWhile_cons_of_neg stops] at tabbed
        cases tabbed

theorem drop_indentOf (line : Bytes) : line.drop (indentOf line).length = line.dropWhile isIndent := by
  have whole : indentOf line ++ line.dropWhile isIndent = line := takeWhile_append_dropWhile
  calc
    line.drop (indentOf line).length =
        (indentOf line ++ line.dropWhile isIndent).drop (indentOf line).length := by rw [whole]
    _ = line.dropWhile isIndent := drop_left

theorem Delimiter.of_eq (line : Bytes) :
    Delimiter.of line =
      if 4 ≤ (indentOf line).length then none
      else
        match line.dropWhile isIndent with
        | [] => none
        | byte :: rest =>
          if byte = backtick ∨ byte = tilde then
            let width := ((byte :: rest).takeWhile (· == byte)).length
            if 3 ≤ width then some ⟨byte, width⟩ else none
          else none := by
  have size : ((line.take 4).takeWhile isIndent).length = min 4 (indentOf line).length := by
    exact (congrArg List.length take_takeWhile.symm).trans length_take
  unfold Delimiter.of
  simp only [size]
  by_cases deep : 4 ≤ (indentOf line).length
  · rw [if_pos (Nat.min_eq_left deep), if_pos deep]
  · rw [if_neg (by omega), if_neg deep, Nat.min_eq_right (by omega)]
    exact (drop_indentOf line) ▸ rfl

theorem fenced_eq (line : Bytes) :
    CommonMark.fenced line =
      if tab ∈ indentOf line then none
      else (Delimiter.of line).map fun delimiter =>
        (⟨delimiter.byte, delimiter.width⟩, trailing delimiter line) := by
  unfold CommonMark.fenced
  by_cases tabbed : tab ∈ indentOf line
  · rw [if_pos (indent_of_tab tabbed), if_pos tabbed]
  · rw [if_neg tabbed, indent_of_spaces tabbed, Nat.zero_add, Delimiter.of_eq]
    by_cases deep : 4 ≤ (indentOf line).length
    · rw [if_pos deep, if_pos deep]
      rfl
    · rw [if_neg deep, if_neg deep]
      unfold trailing
      cases line.dropWhile isIndent with
      | nil => rfl
      | cons byte rest =>
        by_cases mark : byte = backtick ∨ byte = tilde
        · by_cases wide : 3 ≤ ((byte :: rest).takeWhile (· == byte)).length
          · simp only [mark, wide, and_self, if_true, map_some]
          · simp only [mark, wide, and_false, if_true, if_false, map_none]
        · simp only [mark, false_and, if_false, map_none]

/-! ### Every line -/

/-- The delimiter of the code block that is open after a line, as both of the layout's loops carry
it. -/
def codeNext (code : Option Delimiter) (line : Line) : Option Delimiter :=
  match code, Delimiter.of line.content with
  | none, marker => marker
  | some opened, some closing => if closing.closes opened then none else some opened
  | some opened, none => some opened

def Delimiter.fence (delimiter : Delimiter) : CommonMark.Fence := ⟨delimiter.byte, delimiter.width⟩

theorem codeNext_of_none (opened : Delimiter) {line : Line}
    (plain : Delimiter.of line.content = none) : codeNext (some opened) line = some opened := by
  simp only [codeNext, plain]

theorem codeNext_of_some (opened : Delimiter) {line : Line} {delimiter : Delimiter}
    (found : Delimiter.of line.content = some delimiter) :
    codeNext (some opened) line = if delimiter.closes opened then none else some opened := by
  simp only [codeNext, found]

theorem opening_eq (line : Bytes) :
    CommonMark.opening line = (Delimiter.of line).bind fun delimiter =>
      if tab ∈ indentOf line ∨ delimiter.byte = backtick ∧ backtick ∈ trailing delimiter line
      then none else some delimiter.fence := by
  unfold CommonMark.opening
  rw [fenced_eq]
  by_cases tabbed : tab ∈ indentOf line
  · cases Delimiter.of line with
    | none => simp only [tabbed, if_true, bind_none]
    | some delimiter => simp only [tabbed, true_or, if_true, bind_some]
  · cases Delimiter.of line with
    | none => simp only [tabbed, if_false, map_none, bind_none]
    | some delimiter =>
      simp only [tabbed, if_false, false_or, map_some, bind_some]
      rfl

theorem closing_iff (opened : Delimiter) (line : Bytes) :
    CommonMark.closing opened.fence line = true ↔
      ∃ delimiter, Delimiter.of line = some delimiter ∧ delimiter.closes opened = true ∧
        tab ∉ indentOf line ∧ ∀ byte ∈ trailing delimiter line, isIndent byte = true := by
  unfold CommonMark.closing
  rw [fenced_eq]
  by_cases tabbed : tab ∈ indentOf line
  · simp only [tabbed, if_true, Bool.false_eq_true, not_true_eq_false, false_and, and_false,
      exists_false]
  · cases Delimiter.of line with
    | none => simp [tabbed]
    | some delimiter =>
      simp only [tabbed, if_false, map_some, Option.some.injEq, exists_eq_left',
        not_false_eq_true, true_and, Delimiter.closes, Bool.and_eq_true, decide_eq_true_eq,
        beq_iff_eq, all_eq_true, and_assoc]
      exact Iff.rfl

theorem codeNext_follows :
    Following codeNext (fun opened (line : Line) => CommonMark.next opened line.content)
      (Option.map Delimiter.fence) Option.isSome
      (fun opened line => Misread opened line.content) where
  along code line read := by
    cases code with
    | none =>
      rw [map_none, CommonMark.next, opening_eq]
      show (Delimiter.of line.content).map Delimiter.fence = _
      cases found : Delimiter.of line.content with
      | none => rfl
      | some delimiter => exact (if_neg fun misread => read ⟨delimiter, found, misread⟩).symm
    | some opened =>
      rw [map_some, CommonMark.next]
      by_cases shut : CommonMark.closing opened.fence line.content = true
      · obtain ⟨delimiter, found, closes, -⟩ := (closing_iff opened line.content).mp shut
        rw [if_pos shut, codeNext_of_some opened found, if_pos closes, map_none]
      · rw [if_neg shut]
        cases found : Delimiter.of line.content with
        | none => rw [codeNext_of_none opened found, map_some]
        | some delimiter =>
          have open_ : ¬delimiter.closes opened = true := by
            intro closes
            apply shut
            refine (closing_iff opened line.content).mpr ⟨delimiter, found, closes, ?_⟩
            constructor
            · exact fun tabbed => read ⟨delimiter, found, closes, .inl tabbed⟩
            · intro byte member
              by_contra other
              exact read ⟨delimiter, found, closes, .inr ⟨byte, member, by simpa using other⟩⟩
          rw [codeNext_of_some opened found, if_neg open_, map_some]
  apart code line misread := by
    obtain ⟨delimiter, found, rest⟩ := misread
    cases code with
    | none =>
      rw [map_none, CommonMark.next, opening_eq, found, bind_some]
      show ((Delimiter.of line.content).map Delimiter.fence).isSome ≠ _
      have departs : tab ∈ indentOf line.content ∨
          delimiter.byte = backtick ∧ backtick ∈ trailing delimiter line.content := rest
      rw [found, if_pos departs]
      exact Bool.false_ne_true.symm
    | some opened =>
      obtain ⟨closes, trouble⟩ := rest
      have kept : ¬CommonMark.closing opened.fence line.content = true := by
        intro shut
        obtain ⟨other, same, -, clean, blank⟩ := (closing_iff opened line.content).mp shut
        cases found.symm.trans same
        rcases trouble with tabbed | ⟨byte, member, stops⟩
        · exact clean tabbed
        · rw [blank byte member] at stops
          cases stops
      have closes : delimiter.closes opened = true := closes
      rw [codeNext_of_some opened found, if_pos closes, map_some, CommonMark.next,
        if_neg kept]
      exact Bool.false_ne_true

def codeAfter (lines : List Line) : Option Delimiter := lines.foldl codeNext none

theorem codeAfter_concat (before : List Line) (line : Line) :
    codeAfter (before ++ [line]) = codeNext (codeAfter before) line := by
  rw [codeAfter, foldl_append]
  rfl

theorem codeNext_blank {line : Line} (blank : line.isBlank = true) (code : Option Delimiter) :
    codeNext code line = code := by
  have plain : Delimiter.of line.content = none := by
    rw [Delimiter.of_eq]
    split
    · rfl
    · cases rest : line.content.dropWhile isIndent with
      | nil => rfl
      | cons byte others =>
        have member : byte ∈ line.content :=
          (dropWhile_sublist _).mem (rest ▸ mem_cons_self)
        have white := all_eq_true.mp blank byte member
        have other : ¬(byte = backtick ∨ byte = tilde) := by
          rintro (rfl | rfl) <;> exact absurd white (by decide)
        exact if_neg other
  cases code with
  | none => exact plain
  | some opened => exact codeNext_of_none opened plain

/-! ### Up to where blocks can no longer change -/

namespace Closing

/-- What the loop holds after some complete lines. -/
structure Holds (read : List (Line × Nat)) (held : Closing) : Prop where
  code : held.code.map Prod.fst = codeAfter (read.map Prod.fst)
  closed : held.closed = 0 ∨ ∃ before entry after, read = before ++ entry :: after ∧
    held.closed = entry.2 ∧ codeAfter ((before ++ [entry]).map Prod.fst) = none

theorem line_code (held : Closing) (entry : Line × Nat) :
    (held.line entry).code.map Prod.fst = codeNext (held.code.map Prod.fst) entry.1 := by
  obtain ⟨closed, code⟩ := held
  cases code with
  | none =>
    cases found : Delimiter.of entry.1.content <;>
      simp only [line, codeNext, found, map_none, map_some]
  | some opened =>
    obtain ⟨opened, margin⟩ := opened
    cases found : Delimiter.of entry.1.content with
    | none => simp only [line, codeNext, found, map_some]
    | some closing =>
      simp only [line, codeNext, found, map_some]
      split <;> rfl

theorem line_closed (held : Closing) (entry : Line × Nat) :
    (held.line entry).closed = held.closed ∨
      (held.line entry).closed = entry.2 ∧ (held.line entry).code = none := by
  obtain ⟨closed, code⟩ := held
  cases code with
  | none =>
    cases found : Delimiter.of entry.1.content with
    | none =>
      simp only [line, found]
      split
      · exact .inr ⟨rfl, trivial⟩
      · exact .inl rfl
    | some opened => exact .inl (by simp only [line, found, Bool.false_eq_true, if_false])
  | some opened =>
    cases found : Delimiter.of entry.1.content with
    | none => exact .inl (by simp only [line, found, Bool.false_eq_true, if_false])
    | some closing =>
      simp only [line, found]
      split
      · split
        · exact .inr ⟨rfl, rfl⟩
        · exact .inl rfl
      · exact .inl rfl

theorem holds_line {read : List (Line × Nat)} {held : Closing} (holds : Holds read held)
    (entry : Line × Nat) : Holds (read ++ [entry]) (held.line entry) := by
  have code : (held.line entry).code.map Prod.fst = codeAfter ((read ++ [entry]).map Prod.fst) := by
    rw [line_code, holds.code, map_append, map_singleton, codeAfter_concat]
  refine ⟨code, ?_⟩
  rcases held.line_closed entry with stays | ⟨moved, none_open⟩
  · rw [stays]
    rcases holds.closed with zero | ⟨before, last, after, rfl, same, outside⟩
    · exact .inl zero
    · exact .inr ⟨before, last, after ++ [entry], by simp, same, outside⟩
  · rw [none_open] at code
    exact .inr ⟨read, entry, [], rfl, moved, code.symm⟩

theorem holds_run (read : List (Line × Nat)) : Holds read (read.foldl line start) := by
  induction read using List.reverseRecOn with
  | nil => exact ⟨rfl, .inl rfl⟩
  | append_singleton before entry ih =>
    rw [foldl_append]
    exact holds_line ih entry

theorem closed_le_foldl {held : Closing} {more : List (Line × Nat)}
    (ahead : ∀ entry ∈ more, held.closed ≤ entry.2)
    (ordered : more.Pairwise fun one other => one.2 ≤ other.2) :
    held.closed ≤ (more.foldl line held).closed := by
  induction more generalizing held with
  | nil => exact Nat.le_refl _
  | cons entry rest ih =>
    obtain ⟨following, ordered⟩ := pairwise_cons.mp ordered
    have first := ahead entry mem_cons_self
    rw [foldl_cons]
    rcases held.line_closed entry with stays | ⟨moved, -⟩
    · have later := @ih (held.line entry) (by
        intro other member
        rw [stays]
        exact ahead other (mem_cons_of_mem _ member)) ordered
      omega
    · have later := @ih (held.line entry) (by
        intro other member
        rw [moved]
        exact following other member) ordered
      omega

end Closing

theorem closed_append (source more : Bytes) : closed source ≤ closed (source ++ more) := by
  obtain ⟨rest, joined⟩ := completeLines_append source more
  obtain ⟨starts, ordered⟩ := @scan_ordered 0 (by decide)
    (Lines.complete newline (source ++ more))
  have ends : (completeLines source ++ rest).Pairwise fun one other => one.2 ≤ other.2 := by
    rw [joined]
    refine ordered.imp_of_mem ?_
    intro one other _ member before
    exact Nat.le_trans before (starts other member).2.2
  rw [closed, closed, ← joined, foldl_append]
  apply Closing.closed_le_foldl
  · intro entry member
    rcases (Closing.holds_run (completeLines source)).closed with zero |
      ⟨before, last, after, whole, same, -⟩
    · rw [zero]
      exact Nat.zero_le _
    · rw [same]
      have inside : last ∈ completeLines source := by
        rw [whole]
        exact mem_append_right _ mem_cons_self
      exact (pairwise_append.mp ends).2.2 last inside entry member
  · exact (pairwise_append.mp ends).2.1

/-! ### The blocks -/

/-- A stretch of whole lines with no code block open before it or after it. -/
def Placed (read : List Line) (span : Span) : Prop :=
  ∃ before first within last after, read = before ++ (first :: within) ++ after ∧
    (first :: within).getLast? = some last ∧ span = Span.between first.start last.contentEnd ∧
    codeAfter before = none ∧ codeAfter (before ++ first :: within) = none

namespace Blocks

/-- What the loop holds after some lines. -/
structure Holds (read : List Line) (held : Blocks) : Prop where
  code : held.code = codeAfter read
  spans : ∀ span ∈ held.spans, Placed read span
  first : match held.first with
    | none => codeAfter read = none
    | some start => ∃ before first within last, read = before ++ first :: within ∧
        (first :: within).getLast? = some last ∧ start = first.start ∧
        held.lastEnd = last.contentEnd ∧ codeAfter before = none

theorem Placed.concat {read : List Line} {span : Span} (placed : Placed read span) (line : Line) :
    Placed (read ++ [line]) span := by
  obtain ⟨before, first, within, last, after, rfl, rest⟩ := placed
  exact ⟨before, first, within, last, after ++ [line], by simp, rest⟩

variable {read : List Line} {held : Blocks}

theorem Holds.of_mem_ended (holds : Holds read held) {span : Span}
    (member : span ∈ held.ended) :
    span ∈ held.spans ∨ ∃ before first within last, read = before ++ first :: within ∧
      (first :: within).getLast? = some last ∧ span = Span.between first.start last.contentEnd ∧
      codeAfter before = none := by
  have opened := holds.first
  unfold ended at member
  cases first : held.first with
  | none =>
    rw [first] at member
    exact .inl member
  | some start =>
    rw [first] at member opened
    refine (mem_append.mp member).imp id fun here => ?_
    obtain ⟨before, line, within, last, joined, final, starts, ends, clear⟩ := opened
    rw [mem_singleton.mp here, starts, ends]
    exact ⟨before, line, within, last, joined, final, rfl, clear⟩

theorem ended_placed (holds : Holds read held)
    (outside : codeAfter read = none) : ∀ span ∈ held.ended, Placed read span := by
  intro span member
  rcases holds.of_mem_ended member with earlier | ⟨before, first, within, last, rfl, final, same, clear⟩
  · exact holds.spans span earlier
  · exact ⟨before, first, within, last, [], (append_nil _).symm, final, same, clear, outside⟩

theorem line_eq (held : Blocks) (line : Line) :
    held.line line =
      if (codeNext held.code line).isNone && line.isBlank then
        { held with spans := held.ended, first := none, code := codeNext held.code line }
      else
        { held with
          first := some (held.first.getD line.start)
          lastEnd := line.contentEnd
          code := codeNext held.code line } := rfl

theorem line_code (held : Blocks) (line : Line) :
    (held.line line).code = codeNext held.code line := by
  rw [line_eq]
  split <;> rfl

theorem holds_line (holds : Holds read held) (line : Line) :
    Holds (read ++ [line]) (held.line line) := by
  have code : (held.line line).code = codeAfter (read ++ [line]) := by
    rw [line_code, holds.code, codeAfter_concat]
  rw [line_code] at code
  rw [line_eq]
  split
  · next separates =>
      -- A blank line outside code blocks ends the open block where the line before it ended.
      obtain ⟨outside, blank⟩ := Bool.and_eq_true_iff.mp separates
      rw [codeNext_blank blank, Option.isNone_iff_eq_none, holds.code] at outside
      refine ⟨code, ?_, ?_⟩
      · intro span member
        exact Placed.concat (ended_placed holds outside span member) line
      · show codeAfter (read ++ [line]) = none
        rw [codeAfter_concat, codeNext_blank blank]
        exact outside
  · refine ⟨code, fun span member => Placed.concat (holds.spans span member) line, ?_⟩
    have opened := holds.first
    cases first : held.first with
    | none =>
      rw [first] at opened
      exact ⟨read, line, [], line, rfl, rfl, rfl, rfl, opened⟩
    | some start =>
      rw [first] at opened
      obtain ⟨before, one, within, last, rfl, -, starts, -, clear⟩ := opened
      refine ⟨before, one, within ++ [line], line, by simp, ?_, starts, rfl, clear⟩
      rw [← cons_append]
      exact getLast?_concat

theorem Holds.ended_whole (holds : Holds read held) {span : Span}
    (member : span ∈ held.ended) :
    ∃ before first within last after, read = before ++ (first :: within) ++ after ∧
      (first :: within).getLast? = some last ∧ span = Span.between first.start last.contentEnd ∧
      codeAfter before = none ∧ (after = [] ∨ codeAfter (before ++ first :: within) = none) := by
  rcases holds.of_mem_ended member with earlier | ⟨before, first, within, last, rfl, final, same, clear⟩
  · obtain ⟨before, first, within, last, after, joined, final, same, clear, outside⟩ :=
      holds.spans span earlier
    exact ⟨before, first, within, last, after, joined, final, same, clear, .inr outside⟩
  · exact ⟨before, first, within, last, [], (append_nil _).symm, final, same, clear, .inl rfl⟩

theorem holds_run (read : List Line) : Holds read (read.foldl line start) := by
  induction read using List.reverseRecOn with
  | nil => exact ⟨rfl, fun span member => (nomatch member), rfl⟩
  | append_singleton before last ih =>
    rw [foldl_append]
    exact holds_line ih last

end Blocks

/-! ### No cut inside a code block -/

/-- A source that is never cut inside a code block: both loops have a code block open exactly when
the rule does, no block and no closed stretch ends inside one, and a closed stretch stays closed
whatever follows. -/
structure NeverCut (source : Bytes) : Prop where
  markdown : ∀ read, read <+: lines source →
    (read.foldl Blocks.line Blocks.start).code.isSome = (CommonMark.after read).isSome
  closing : ∀ read, read <+: completeLines source →
    (read.foldl Closing.line Closing.start).code.isSome =
      (CommonMark.after (read.map Prod.fst)).isSome
  blocks : ∀ span ∈ markdownBlocks source, ∃ before first within last after,
    lines source = before ++ (first :: within) ++ after ∧
      (first :: within).getLast? = some last ∧
      span.start = first.start ∧ span.stop = last.contentEnd ∧
      CommonMark.after before = none ∧
      (after = [] ∨ CommonMark.after (before ++ first :: within) = none)
  closed : closed source = 0 ∨ ∃ before entry after,
    completeLines source = before ++ entry :: after ∧ closed source = entry.2 ∧
      CommonMark.after ((before ++ [entry]).map Prod.fst) = none
  grows : ∀ more, Documents.closed source ≤ Documents.closed (source ++ more)

theorem completeLines_begin (source : Bytes) :
    (completeLines source).map Prod.fst <+: lines source := by
  obtain ⟨last, same⟩ := lines_eq source
  rw [same]
  exact prefix_append _ _

variable {source : Bytes}

theorem codeAfter_eq (well : WellRead source) {read : List Line}
    (part : read <+: lines source) :
    (codeAfter read).map Delimiter.fence = CommonMark.after read :=
  @Following.in_step _ _ _ _ _ _ _ _ _ codeNext_follows none _ (Following.Keeps.of_prefix well part)

theorem codeAfter_eq_none (well : WellRead source) {read : List Line}
    (part : read <+: lines source) (outside : codeAfter read = none) :
    CommonMark.after read = none := by
  rw [← codeAfter_eq well part, outside, map_none]

/-- The first line of a block comes no later than its last. -/
theorem start_le_contentEnd {before within after : List Line} {first last : Line}
    (joined : lines source = before ++ (first :: within) ++ after)
    (final : (first :: within).getLast? = some last) : first.start ≤ last.contentEnd := by
  obtain ⟨starts, ordered⟩ := @scan_ordered 0 (by decide) (source.splitOn newline)
  have counted : ∀ line ∈ lines source, line.start < Word.u64Values := by
    intro line member
    obtain ⟨entry, inside, rfl⟩ := mem_map.mp member
    exact (starts entry inside).2.1
  have sorted : (lines source).Pairwise fun one other => one.start ≤ other.start := by
    rw [lines, pairwise_map]
    refine ordered.imp_of_mem ?_
    intro one other member _ following
    exact Nat.le_trans (starts one member).2.2 following
  have member : last ∈ first :: within := mem_of_getLast? final
  have inside : last ∈ lines source := by
    rw [joined]
    exact mem_append_left _ (mem_append_right _ member)
  have reach := Line.start_le_contentEnd (counted last inside)
  rcases mem_cons.mp member with rfl | later
  · exact reach
  · rw [joined, pairwise_append, pairwise_append, pairwise_cons] at sorted
    exact Nat.le_trans (sorted.1.2.1.1 last later) reach

theorem neverCut_iff (source : Bytes) : NeverCut source ↔ WellRead source := by
  have agrees := @Following.shows_iff _ _ _ _ _ _ _ _ _ codeNext_follows none (lines source)
  have carried : ∀ read : List Line,
      (read.foldl Blocks.line Blocks.start).code = codeAfter read :=
    fun read => (Blocks.holds_run read).code
  constructor
  · intro kept
    apply agrees.mp
    intro read part
    have same := kept.markdown read part
    rw [carried] at same
    rw [isSome_map]
    exact same
  · intro well
    have shown := agrees.mpr well
    constructor
    · intro read part
      rw [carried]
      have same := shown read part
      rwa [isSome_map] at same
    · intro read part
      have same := shown _ ((List.IsPrefix.map Prod.fst part).trans (completeLines_begin source))
      rw [isSome_map, ← codeAfter, ← (Closing.holds_run read).code, isSome_map] at same
      exact same
    · intro span member
      obtain ⟨before, first, within, last, after, joined, final, same, clear, ends⟩ :=
        (Blocks.holds_run (lines source)).ended_whole member
      have order := start_le_contentEnd joined final
      refine ⟨before, first, within, last, after, joined, final, ?_, ?_, ?_, ?_⟩
      · rw [same, Span.between_of_le order]
      · rw [same, Span.between_of_le order]
      · apply codeAfter_eq_none well _ clear
        rw [joined, append_assoc]
        exact prefix_append _ _
      · refine ends.imp id fun outside => codeAfter_eq_none well ?_ outside
        rw [joined]
        exact prefix_append _ _
    · rcases (Closing.holds_run (completeLines source)).closed with zero |
        ⟨before, entry, after, whole, same, outside⟩
      · exact .inl zero
      · refine .inr ⟨before, entry, after, whole, same, codeAfter_eq_none well ?_ outside⟩
        have part : before ++ [entry] <+: completeLines source := by
          rw [whole]
          exact ⟨after, by rw [append_assoc]; rfl⟩
        exact (List.IsPrefix.map Prod.fst part).trans (completeLines_begin source)
    · exact closed_append source

/-- A source whose third line, tildes with a word after them, ends a code block for the layout
alone: the blank line after it ends a closed stretch inside that block. -/
theorem not_neverCut :
    ¬NeverCut [0x7E, 0x7E, 0x7E, 0x0A, 0x61, 0x0A, 0x7E, 0x7E, 0x7E, 0x20, 0x62, 0x0A, 0x0A,
      0x63, 0x0A, 0x7E, 0x7E, 0x7E, 0x0A] := by
  intro kept
  have same := kept.markdown _ (List.take_prefix 4 _)
  exact absurd same (by decide +kernel)

end Sprawling.Documents
