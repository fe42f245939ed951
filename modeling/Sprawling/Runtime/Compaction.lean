import Sprawling.Runtime.Elision
import Sprawling.Runtime.Tools.Replacement

/-! When to shorten a text, and what to keep of it. -/

namespace Sprawling

open List Elision Utf8 Boundary Copied

open Utf8 (byteLen)

namespace Compaction

open Elision (Boundary Cut Elided Spans Accounted marker gapMarker markerRoom gapMarkerRoom
  boundaryBefore splice saturatingLen)

/-- What a text is, as far as shortening it is concerned. -/
inductive Content where
  | prose
  | code
  | diff
  | log
  | structured
  | table
  | markup
  | unknown

/-- Which end of a text survives a shortening. -/
inductive Strategy where
  | head
  | ends
  | tail
  | sections

/-- What has to happen to a text. -/
inductive Shrink where
  | keep
  | cut (strategy : Strategy)
  | mustOffload

/-- What happens to that kind of content, at that size. -/
def plan (content : Content) (size budget : Nat) : Shrink :=
  if size ≤ budget then .keep
  else
    match content with
    | .structured => .mustOffload
    | .log => .cut .tail
    | .code | .diff => .cut .ends
    | .prose | .table => .cut .head
    | .markup => .cut .sections
    | .unknown => .mustOffload

def boundaryAfter (text : List Char) (at_ : Nat) : Nat := (Boundary.after text at_).offset

def keepHead (text : List Char) (limit : Nat) : Cut :=
  let room := markerRoom (byteLen text)
  let front := boundaryBefore text (limit - room)
  splice text front (byteLen text) .tail

def keepTail (text : List Char) (limit : Nat) : Cut :=
  let room := markerRoom (byteLen text)
  let keep := limit - room
  let back := boundaryAfter text (byteLen text - keep)
  splice text 0 back .head

def keepEnds (text : List Char) (limit : Nat) : Cut :=
  let room := gapMarkerRoom (byteLen text)
  let each := (limit - room) / 2
  let front := boundaryBefore text each
  let back := boundaryAfter text (byteLen text - each)
  if back ≤ front then keepHead text limit else splice text front back .middle

/-- A Markdown heading: one to six `#`, then a space. -/
def isAtxHeading (line : List Char) : Bool :=
  let text := line.dropWhile Text.isWhitespace
  let hashes := (text.takeWhile (· = '#')).length
  (1 ≤ hashes && hashes ≤ 6) && text[hashes]? == some ' '

def isSectionHeading (line : List Char) : Bool :=
  let line := line.dropWhile Text.isWhitespace
  isAtxHeading line ||
    ["\\section", "\\subsection", "\\chapter", "\\part", "\\paragraph"].any fun command =>
      command.toList.isPrefixOf line

/-- One heading line: where its section begins, and the line with its end. -/
structure Heading where
  start : Nat
  line : List Char

/-- The heading lines among pieces of a text that begin at `at_`. -/
def headingsAmong : (at_ : Nat) → List (List Char) → List Heading
  | _, [] => []
  | at_, piece :: later =>
    let rest := headingsAmong (at_ + byteLen piece) later
    if isSectionHeading (piece.rdropWhile fun c => c = '\n' || c = '\r') then ⟨at_, piece⟩ :: rest
    else rest

def headingsOf (text : List Char) : List Heading := headingsAmong 0 (splitInclusive text)

/-- Where the last whole section that fits ends, and the headings past it. -/
def wholeSections (available textLen : Nat) : List Heading → (headEnd : Nat) → Nat × List Heading
  | [], headEnd => (headEnd, [])
  | heading :: later, headEnd =>
    let sectionEnd := max ((later.head?.map Heading.start).getD textLen) heading.start
    if sectionEnd > available then (headEnd, heading :: later)
    else wholeSections available textLen later sectionEnd

/-- The headings of the dropped sections, while they fit. -/
def gatherHeadings (available headEnd : Nat) : List Heading → (skeleton : List Char) → List Char
  | [], skeleton => skeleton
  | heading :: later, skeleton =>
    if headEnd + byteLen skeleton + byteLen heading.line > available then skeleton
    else gatherHeadings available headEnd later (skeleton ++ heading.line)

/-- Whole sections from the front while they fit, then the headings of those that did not. -/
def keepSections (text : List Char) (limit : Nat) : Cut :=
  let headings := headingsOf text
  if headings.length < 2 then keepHead text limit
  else
    let room := gapMarkerRoom (byteLen text)
    if limit < room then keepHead text limit
    else
      let available := limit - room
      let headEnd := (headings.head?.map Heading.start).getD 0
      if headEnd > available then keepHead text limit
      else
        let (headEnd, later) := wholeSections available (byteLen text) headings headEnd
        let skeleton := gatherHeadings available headEnd later []
        let head := (Boundary.before text headEnd).head
        let dropped := byteLen text - byteLen head - byteLen skeleton
        if dropped = 0 then keepHead text limit
        else
          { text := head ++ gapMarker (saturatingLen dropped) ++ skeleton
            dropped := saturatingLen dropped
            place := .middle }

def cutBy (text : List Char) (limit : Nat) : Strategy → Cut
  | .head => keepHead text limit
  | .tail => keepTail text limit
  | .ends => keepEnds text limit
  | .sections => keepSections text limit

/-- Carries out a shortening the caller has decided on; what would not be shorter is left as it is. A
budget is a 64-bit count, which the machine's own sizes hold. -/
def shorten (text : List Char) (strategy : Strategy) (budget : Nat) : Cut :=
  let cut := cutBy text budget strategy
  if byteLen cut.text ≥ byteLen text then Cut.whole text else cut

/-- The headings of what stands from a place of a text on, each a span of it. -/
inductive Headed : Nat → List Char → List Heading → Prop where
  | done (at_ : Nat) (rest : List Char) : Headed at_ rest []
  | next {at_ : Nat} {rest : List Char} {later : List Heading} (skip line : List Char)
      (headed : Headed (at_ + byteLen skip + byteLen line) rest later) :
      Headed at_ (skip ++ line ++ rest) (⟨at_ + byteLen skip, line⟩ :: later)

namespace Headed

theorem skip {at_ : Nat} {rest : List Char} {headings : List Heading} (piece : List Char)
    (headed : Headed (at_ + byteLen piece) rest headings) : Headed at_ (piece ++ rest) headings := by
  generalize start : at_ + byteLen piece = first at headed
  cases headed with
  | done => exact .done at_ _
  | @next _ rest later gap line headed =>
    subst start
    have joined := @Headed.next at_ rest later (piece ++ gap) line
    rw [byteLen_append, ← Nat.add_assoc, append_assoc, append_assoc] at joined
    rw [append_assoc]
    exact joined headed

end Headed

theorem headingsAmong_headed (at_ : Nat) (pieces : List (List Char)) :
    Headed at_ pieces.flatten (headingsAmong at_ pieces) := by
  induction pieces generalizing at_ with
  | nil => exact .done at_ []
  | cons piece later ih =>
    rw [flatten_cons, headingsAmong]
    have rest := ih (at_ + byteLen piece)
    split
    · have here := @Headed.next at_ later.flatten _ [] piece rest
      exact here
    · exact rest.skip piece

theorem headingsOf_headed (text : List Char) : Headed 0 text (headingsOf text) := by
  have headed := headingsAmong_headed 0 (splitInclusive text)
  rwa [flatten_splitInclusive] at headed

theorem wholeSections_spec {text head rest : List Char} {available : Nat} {headings : List Heading}
    {headEnd : Nat} (parts : text = head ++ rest) (stops : byteLen head = headEnd)
    (fits : headEnd ≤ available) (headed : Headed headEnd rest headings) :
    ∃ front back, text = front ++ back ∧
      byteLen front = (wholeSections available (byteLen text) headings headEnd).1 ∧
      (wholeSections available (byteLen text) headings headEnd).1 ≤ available ∧
      Headed (wholeSections available (byteLen text) headings headEnd).1 back
        (wholeSections available (byteLen text) headings headEnd).2 := by
  induction headings generalizing head rest headEnd with
  | nil => exact ⟨head, rest, parts, stops, fits, headed⟩
  | cons heading later ih =>
    rw [wholeSections]
    split
    · exact ⟨head, rest, parts, stops, fits, headed⟩
    · next within =>
        cases headed with
        | @next _ rest _ skip line inner =>
          cases later with
          | nil =>
            refine @ih text [] _ (append_nil text).symm ?_ (by omega) (.done _ _)
            have size := congrArg byteLen parts
            rw [byteLen_append, byteLen_append, byteLen_append] at size
            simp only [head?_nil, Option.map_none, Option.getD_none]
            omega
          | cons following others =>
            cases inner with
            | @next _ rest _ gap heading inner =>
              simp only [head?_cons, Option.map_some, Option.getD_some] at within ⊢
              have start : max (headEnd + byteLen skip + byteLen line + byteLen gap)
                  (headEnd + byteLen skip) = headEnd + byteLen skip + byteLen line + byteLen gap := by
                omega
              rw [start] at within ⊢
              have onward := @Headed.next
                (headEnd + byteLen skip + byteLen line + byteLen gap) rest others [] heading inner
              refine @ih (head ++ skip ++ line ++ gap) (heading ++ rest) _ ?_ ?_ (by omega) onward
              · rw [parts]
                simp only [append_assoc]
              · simp only [byteLen_append, stops]

variable {headings : List Heading}

theorem gatherHeadings_spec {rest skeleton : List Char} {at_ available headEnd : Nat} (fits : headEnd + byteLen skeleton ≤ available)
    (headed : Headed at_ rest headings) :
    ∃ kept, Spans rest kept ∧
      gatherHeadings available headEnd headings skeleton = skeleton ++ kept.flatten ∧
      headEnd + byteLen (skeleton ++ kept.flatten) ≤ available := by
  induction headings generalizing rest skeleton at_ with
  | nil => exact ⟨[], .done rest, (append_nil skeleton).symm, by simpa using fits⟩
  | cons heading later ih =>
    rw [gatherHeadings]
    split
    · exact ⟨[], .done rest, (append_nil skeleton).symm, by simpa using fits⟩
    · next within =>
        cases headed with
        | @next _ rest _ skip line inner =>
          have more : headEnd + byteLen (skeleton ++ line) ≤ available := by
            rw [byteLen_append]
            dsimp only at within
            omega
          obtain ⟨kept, spans, gathered, size⟩ := ih more inner
          refine ⟨line :: kept, .keep skip line spans, ?_, ?_⟩
          · rw [gathered, flatten_cons, append_assoc]
          · rwa [flatten_cons, ← append_assoc]

theorem sections_found {text : List Char} {available : Nat}
    (headed : Headed 0 text headings) (some_heading : headings ≠ [])
    (within : (headings.head?.map Heading.start).getD 0 ≤ available) :
    ∃ found front back kept,
      wholeSections available (byteLen text) headings ((headings.head?.map Heading.start).getD 0) = found ∧
        text = front ++ back ∧ (Boundary.before text found.1).head = front ∧ Spans back kept ∧
          gatherHeadings available found.1 found.2 [] = kept.flatten ∧
            byteLen front + byteLen kept.flatten ≤ available := by
  cases headed with
  | done => exact absurd rfl some_heading
  | @next _ rest later skip line inner =>
    simp only [head?_cons, Option.map_some, Option.getD_some] at within ⊢
    obtain ⟨front, back, parts, stops, inside, onward⟩ := @wholeSections_spec
      (skip ++ line ++ rest) skip (line ++ rest) available (⟨0 + byteLen skip, line⟩ :: later)
      (0 + byteLen skip) (append_assoc _ _ _) (Nat.zero_add _).symm within
      (@Headed.next (0 + byteLen skip) rest later [] line inner)
    generalize wholeSections available (byteLen (skip ++ line ++ rest))
      (⟨0 + byteLen skip, line⟩ :: later) (0 + byteLen skip) = found at stops inside onward ⊢
    have room : found.1 + byteLen [] ≤ available := inside
    obtain ⟨kept, spans, gathered, size⟩ := gatherHeadings_spec room onward
    refine ⟨found, front, back, kept, rfl, parts, ?_, spans, gathered, ?_⟩
    · have here := splitAtChecked_eq_some.mpr ⟨parts, rfl⟩
      have long : byteLen front ≤ byteLen (skip ++ line ++ rest) := by
        rw [parts, byteLen_append]
        exact Nat.le_add_right _ _
      rw [← stops, Boundary.before, Nat.min_eq_left long, walkDown_of_split here]
    · rwa [nil_append, ← stops] at size

section Cuts

variable {text : List Char} {limit : Nat} (addressable : byteLen text ≤ u64Max)
include addressable

theorem keepHead_spec (room : markerRoom (byteLen text) ≤ limit) :
    byteLen (keepHead text limit).text ≤ limit ∧ Accounted text (keepHead text limit) := by
  rw [keepHead]
  refine ⟨?_, splice_accounted _ _ _ addressable⟩
  have size := byteLen_splice_le
    (boundaryBefore text (limit - markerRoom (byteLen text))) (byteLen text) .tail addressable
  have front := offset_before_le text (limit - markerRoom (byteLen text))
  simp only [sentenceRoom, boundaryBefore] at size front ⊢
  clear addressable
  omega

theorem keepTail_spec (room : markerRoom (byteLen text) ≤ limit) :
    byteLen (keepTail text limit).text ≤ limit ∧ Accounted text (keepTail text limit) := by
  rw [keepTail]
  refine ⟨?_, splice_accounted _ _ _ addressable⟩
  have size := byteLen_splice_le 0
    (boundaryAfter text (byteLen text - (limit - markerRoom (byteLen text)))) .head addressable
  have back := le_offset_after text (byteLen text - (limit - markerRoom (byteLen text)))
  simp only [sentenceRoom, boundaryAfter] at size back ⊢
  clear addressable
  omega

theorem keepEnds_spec (room : gapMarkerRoom (byteLen text) ≤ limit) :
    byteLen (keepEnds text limit).text ≤ limit ∧ Accounted text (keepEnds text limit) := by
  have narrow := markerRoom_le_gapMarkerRoom (byteLen text)
  simp only [keepEnds]
  split
  · exact keepHead_spec addressable (Nat.le_trans narrow room)
  · refine ⟨?_, splice_accounted _ _ _ addressable⟩
    have size := byteLen_splice_le
      (boundaryBefore text ((limit - gapMarkerRoom (byteLen text)) / 2))
      (boundaryAfter text (byteLen text - (limit - gapMarkerRoom (byteLen text)) / 2)) .middle addressable
    have front := offset_before_le text ((limit - gapMarkerRoom (byteLen text)) / 2)
    have back := le_offset_after text
      (byteLen text - (limit - gapMarkerRoom (byteLen text)) / 2)
    simp only [sentenceRoom, boundaryBefore, boundaryAfter] at size front back ⊢
    clear addressable
    omega

theorem keepSections_spec (room : gapMarkerRoom (byteLen text) ≤ limit) :
    byteLen (keepSections text limit).text ≤ limit ∧ Accounted text (keepSections text limit) := by
  have narrow := markerRoom_le_gapMarkerRoom (byteLen text)
  have plain := keepHead_spec addressable (Nat.le_trans narrow room)
  simp only [keepSections]
  split
  · exact plain
  · rw [if_neg (Nat.not_lt.mpr room)]
    split
    · exact plain
    · next several within =>
        have some_heading : headingsOf text ≠ [] := by
          intro none_found
          rw [none_found] at several
          exact several (by decide)
        obtain ⟨found, front, back, kept, walked, parts, head, spans, gathered, size⟩ :=
          sections_found (headingsOf_headed text) some_heading (Nat.le_of_not_lt within)
        rw [walked, head, gathered]
        split
        · exact plain
        · have total := congrArg byteLen parts
          rw [byteLen_append] at total
          have inside := spans.byteLen_le
          have wide := @Elision.byteLen_gapMarker_le
            (byteLen text - byteLen front - byteLen kept.flatten) (byteLen text) (by omega)
          refine ⟨?_, front, back, kept, parts, spans, rfl, ?_⟩
          · rw [byteLen_append, byteLen_append]
            clear addressable
            omega
          · have count : saturatingLen (byteLen text - byteLen front - byteLen kept.flatten) =
                byteLen text - byteLen front - byteLen kept.flatten :=
              Nat.min_eq_left (Nat.le_trans (by omega) addressable)
            change byteLen front + byteLen kept.flatten +
              saturatingLen (byteLen text - byteLen front - byteLen kept.flatten) = byteLen text
            rw [count]
            clear addressable
            omega

theorem cutBy_spec (strategy : Strategy) (room : gapMarkerRoom (byteLen text) ≤ limit) :
    byteLen (cutBy text limit strategy).text ≤ limit ∧ Accounted text (cutBy text limit strategy) := by
  have narrow := Nat.le_trans (markerRoom_le_gapMarkerRoom (byteLen text)) room
  cases strategy with
  | head => exact keepHead_spec addressable narrow
  | ends => exact keepEnds_spec addressable room
  | tail => exact keepTail_spec addressable narrow
  | sections => exact keepSections_spec addressable room

end Cuts

/-- A text longer than its budget is shortened into it, with a true account of what went. A text that
fits is one `plan` keeps; asked all the same, `shorten` leaves it or makes it shorter, with the same
account. -/
theorem shorten_accounted {text : List Char} {budget : Nat} (strategy : Strategy)
    (addressable : byteLen text ≤ u64Max) (room : gapMarkerRoom (byteLen text) ≤ budget) :
    (budget < byteLen text →
        byteLen (shorten text strategy budget).text ≤ budget ∧
          Accounted text (shorten text strategy budget)) ∧
      (byteLen text ≤ budget →
        (∀ content, plan content (byteLen text) budget = .keep) ∧
          (shorten text strategy budget = Cut.whole text ∨
            byteLen (shorten text strategy budget).text < byteLen text ∧
              Accounted text (shorten text strategy budget))) := by
  obtain ⟨short, account⟩ := cutBy_spec addressable strategy room
  constructor
  · intro long
    have cut : shorten text strategy budget = cutBy text budget strategy := by
      rw [shorten, if_neg (by omega)]
    rw [cut]
    exact ⟨short, account⟩
  · intro fits
    refine ⟨fun content => by unfold plan; rw [if_pos fits], ?_⟩
    by_cases grown : byteLen (cutBy text budget strategy).text ≥ byteLen text
    · left
      rw [shorten, if_pos grown]
    · right
      have cut : shorten text strategy budget = cutBy text budget strategy := by
        rw [shorten, if_neg grown]
      rw [cut]
      exact ⟨Nat.lt_of_not_le grown, account⟩

def hundred : List Char := List.replicate 100 'a'

theorem shorten_accounted_hundred :
    byteLen (shorten hundred .head 60).text ≤ 60 ∧ Accounted hundred (shorten hundred .head 60) :=
  (shorten_accounted .head (by decide +kernel) (by decide +kernel)).1 (by decide +kernel)

/-- Asked to shorten a text that fits, `shorten` changes it where the marker is shorter than the room
kept for it. -/
theorem shorten_changes_fitting :
    gapMarkerRoom (byteLen hundred) ≤ 100 ∧ byteLen hundred ≤ 100 ∧
      (shorten hundred .head 100).text ≠ hundred := by
  decide +kernel

end Compaction

end Sprawling
