import Sprawling.Base.Numeral
import Sprawling.Kernel.Event

namespace Sprawling

open List Utf8

open Utf8 (byteLen splitAtChecked)

namespace Elision

/-- A length this machine can address, as a byte count this city can hold. -/
def saturatingLen (len : Nat) : Nat := min len u64Max

/-- The sentence that stands where the removed bytes were. -/
def marker (dropped : Nat) : List Char :=
  "[truncated: ".toList ++ Text.decimal dropped ++ " bytes]".toList

def gapMarker (dropped : Nat) : List Char := '\n' :: (marker dropped ++ ['\n'])

/-- How many bytes to reserve for a marker before the count is known. -/
def markerRoom (textLen : Nat) : Nat := byteLen (marker (saturatingLen textLen))

def gapMarkerRoom (textLen : Nat) : Nat := byteLen (gapMarker (saturatingLen textLen))

theorem saturatingLen_mono {small large : Nat} (order : small ≤ large) :
    saturatingLen small ≤ saturatingLen large := by
  simp only [saturatingLen]
  generalize u64Max = bound
  omega

theorem byteLen_around {opening digits closing : List Char} (first : byteLen opening = 12)
    (last : byteLen closing = 7) : byteLen (opening ++ digits ++ closing) = 19 + byteLen digits := by
  rw [byteLen_append, byteLen_append, first, last]
  omega

theorem byteLen_marker (dropped : Nat) :
    byteLen (marker dropped) = 19 + (Text.decimal dropped).length :=
  (byteLen_around (by decide) (by decide)).trans (congrArg (19 + ·) (Numeral.byteLen_decimal dropped))

theorem byteLen_gapMarker (dropped : Nat) : byteLen (gapMarker dropped) = byteLen (marker dropped) + 2 := by
  have line : byteLen ['\n'] = 1 := by decide
  have first : ('\n' : Char).utf8Size = 1 := by decide
  rw [gapMarker, byteLen_cons, byteLen_append, line, first]
  omega

theorem byteLen_marker_le {dropped textLen : Nat} (inside : dropped ≤ textLen) :
    byteLen (marker (saturatingLen dropped)) ≤ markerRoom textLen := by
  rw [markerRoom, byteLen_marker, byteLen_marker]
  exact Nat.add_le_add_left (Numeral.length_decimal_mono (saturatingLen_mono inside)) 19

theorem byteLen_gapMarker_le {dropped textLen : Nat} (inside : dropped ≤ textLen) :
    byteLen (gapMarker (saturatingLen dropped)) ≤ gapMarkerRoom textLen := by
  rw [gapMarkerRoom, byteLen_gapMarker, byteLen_gapMarker]
  exact Nat.add_le_add_right (byteLen_marker_le inside) 2

theorem markerRoom_le_gapMarkerRoom (textLen : Nat) : markerRoom textLen ≤ gapMarkerRoom textLen := by
  rw [gapMarkerRoom, byteLen_gapMarker]
  exact Nat.le_add_right _ 2

/-- The bytes before a cut and the bytes from it, each holding whole characters. -/
structure Boundary where
  head : List Char
  tail : List Char

namespace Boundary

def offset (boundary : Boundary) : Nat := byteLen boundary.head

def walkDown (text : List Char) : Nat → Boundary
  | 0 => ⟨[], text⟩
  | at_ + 1 =>
    match splitAtChecked text (at_ + 1) with
    | some (head, tail) => ⟨head, tail⟩
    | none => walkDown text at_

def before (text : List Char) (at_ : Nat) : Boundary := walkDown text (min at_ (byteLen text))

def walkUp (text : List Char) : (room : Nat) → (at_ : Nat) → Boundary
  | 0, _ => ⟨text, []⟩
  | room + 1, at_ =>
    match splitAtChecked text at_ with
    | some (head, tail) => ⟨head, tail⟩
    | none => walkUp text room (at_ + 1)

/-- The first position at or after `at_`. -/
def after (text : List Char) (at_ : Nat) : Boundary :=
  walkUp text (byteLen text - at_) (min at_ (byteLen text))

variable (text : List Char) (at_ : Nat)

theorem walkDown_spec :
    (walkDown text at_).head ++ (walkDown text at_).tail = text ∧
      (walkDown text at_).offset ≤ at_ := by
  induction at_ with
  | zero => exact ⟨rfl, Nat.le_refl 0⟩
  | succ at_ ih =>
    simp only [walkDown]
    split
    · next head tail found =>
        have sides := splitAtChecked_eq_some.mp found
        exact ⟨sides.1.symm, Nat.le_of_eq sides.2⟩
    · exact ⟨ih.1, Nat.le_succ_of_le ih.2⟩

theorem before_sides : (before text at_).head ++ (before text at_).tail = text :=
  (walkDown_spec text _).1

theorem offset_before_le : (before text at_).offset ≤ at_ := by
  have bound := (walkDown_spec text (min at_ (byteLen text))).2
  rw [before]
  omega

theorem walkDown_of_split {text head tail : List Char} {at_ : Nat}
    (split : splitAtChecked text at_ = some (head, tail)) : walkDown text at_ = ⟨head, tail⟩ := by
  cases at_ with
  | zero =>
    rw [splitAtChecked_zero] at split
    cases split
    rfl
  | succ at_ => rw [walkDown, split]

theorem walkUp_spec (room at_ : Nat) (inside : at_ ≤ byteLen text) :
    (walkUp text room at_).head ++ (walkUp text room at_).tail = text ∧
      at_ ≤ (walkUp text room at_).offset := by
  induction room generalizing at_ with
  | zero => exact ⟨append_nil text, inside⟩
  | succ room ih =>
    simp only [walkUp]
    split
    · next head tail found =>
        have sides := splitAtChecked_eq_some.mp found
        exact ⟨sides.1.symm, Nat.le_of_eq sides.2.symm⟩
    · next missed =>
        have short : at_ ≠ byteLen text := by
          intro final
          have here := splitAtChecked_eq_some.mpr ⟨(append_nil text).symm, final.symm⟩
          rw [missed] at here
          cases here
        have later := ih (at_ + 1) (by omega)
        exact ⟨later.1, Nat.le_of_succ_le later.2⟩

theorem after_sides : (after text at_).head ++ (after text at_).tail = text :=
  (walkUp_spec text _ _ (Nat.min_le_right _ _)).1

theorem le_offset_after : min at_ (byteLen text) ≤ (after text at_).offset :=
  (walkUp_spec text _ _ (Nat.min_le_right _ _)).2

theorem offset_before_le_end : (before text at_).offset ≤ byteLen text := by
  have size := congrArg byteLen (before_sides text at_)
  rw [byteLen_append] at size
  rw [offset]
  omega

theorem exists_between {text : List Char} {first last : Boundary} (here : first.head ++ first.tail = text)
    (there : last.head ++ last.tail = text) (order : first.offset ≤ last.offset) :
    ∃ gone, last.head = first.head ++ gone ∧ text = first.head ++ gone ++ last.tail ∧
      byteLen gone = last.offset - first.offset := by
  have inside : first.head <+: last.head := by
    have left : first.head <+: text := ⟨_, here⟩
    have right : last.head <+: text := ⟨_, there⟩
    rcases prefix_or_prefix_of_prefix left right with shorter | longer
    · exact shorter
    · obtain ⟨extra, joined⟩ := longer
      have size := congrArg byteLen joined
      rw [byteLen_append] at size
      simp only [offset] at order
      have none_more : extra = [] := byteLen_eq_zero.mp (by omega)
      rw [none_more, append_nil] at joined
      rw [joined]
  obtain ⟨gone, joined⟩ := inside
  refine ⟨gone, joined.symm, by rw [joined, there], ?_⟩
  have size := congrArg byteLen joined
  rw [byteLen_append] at size
  simp only [offset]
  omega

theorem before_offset : before text (before text at_).offset = before text at_ := by
  have sides := before_sides text at_
  have size := congrArg byteLen sides
  rw [byteLen_append] at size
  rw [before, min_eq_left (by rw [offset]; omega)]
  apply walkDown_of_split
  exact splitAtChecked_eq_some.mpr ⟨sides.symm, rfl⟩

theorem after_end : after text (byteLen text) = ⟨text, []⟩ := by
  rw [after, Nat.sub_self, walkUp]

end Boundary

/-- Where the bytes that are gone used to be. -/
inductive Elided where
  | nothing
  | head
  | middle
  | tail

/-- One shortened text, with the account of what it no longer carries. -/
structure Cut where
  text : List Char
  dropped : Nat
  place : Elided

def boundaryBefore (text : List Char) (at_ : Nat) : Nat := (Boundary.before text at_).offset

/-- The bytes before `front`, the marker, and the bytes from `back` on. -/
def splice (text : List Char) (front back : Nat) (place : Elided) : Cut :=
  let back := max back front
  let start := Boundary.before text front
  let finish := Boundary.after text back
  let dropped := saturatingLen (finish.offset - start.offset)
  let middle :=
    match place with
    | .nothing => []
    | .head | .tail => marker dropped
    | .middle => gapMarker dropped
  { text := start.head ++ middle ++ finish.tail, dropped, place }

def Cut.whole (text : List Char) : Cut := { text, dropped := 0, place := .nothing }

/-- What stands where the removed bytes were. -/
def sentence (place : Elided) (dropped : Nat) : List Char :=
  match place with
  | .nothing => []
  | .head | .tail => marker dropped
  | .middle => gapMarker dropped

/-- Spans of a text, in the order they stand in it and none over another. -/
inductive Spans : List Char → List (List Char) → Prop where
  | done (text : List Char) : Spans text []
  | keep {rest : List Char} {kept : List (List Char)} (gone span : List Char) (later : Spans rest kept) :
      Spans (gone ++ span ++ rest) (span :: kept)

variable {text : List Char}

theorem Spans.byteLen_le {kept : List (List Char)} (spans : Spans text kept) :
    byteLen kept.flatten ≤ byteLen text := by
  induction spans with
  | done text => exact Nat.zero_le _
  | @keep rest kept gone span later ih =>
    rw [flatten_cons, byteLen_append, byteLen_append, byteLen_append]
    omega

/-- The start of a text and spans of what follows it, around one sentence whose number and the bytes
that stayed add up to the text. -/
def Accounted (text : List Char) (cut : Cut) : Prop :=
  ∃ head rest kept, text = head ++ rest ∧ Spans rest kept ∧
    cut.text = head ++ sentence cut.place cut.dropped ++ kept.flatten ∧
    byteLen head + byteLen kept.flatten + cut.dropped = byteLen text

variable (front back : Nat) (place : Elided)

theorem splice_sides (addressable : byteLen text ≤ u64Max) :
    ∃ gone, text = (Boundary.before text front).head ++ gone ++ (Boundary.after text (max back front)).tail ∧
      splice text front back place =
        { text := (Boundary.before text front).head ++ sentence place (byteLen gone) ++
            (Boundary.after text (max back front)).tail,
          dropped := byteLen gone,
          place := place } := by
  have order : (Boundary.before text front).offset ≤ (Boundary.after text (max back front)).offset := by
    have low := Boundary.offset_before_le text front
    have short := Boundary.offset_before_le_end text front
    have high := Boundary.le_offset_after text (max back front)
    omega
  obtain ⟨gone, _, parts, size⟩ := Boundary.exists_between (Boundary.before_sides text front)
    (Boundary.after_sides text (max back front)) order
  refine ⟨gone, parts, ?_⟩
  have inside : byteLen gone ≤ u64Max := by
    have whole := congrArg byteLen parts
    rw [byteLen_append, byteLen_append] at whole
    generalize u64Max = bound at addressable
    omega
  have count : saturatingLen ((Boundary.after text (max back front)).offset -
      (Boundary.before text front).offset) = byteLen gone := by
    rw [← size, saturatingLen, Nat.min_eq_left inside]
  simp only [splice, count]
  cases place <;> rfl

theorem splice_accounted (addressable : byteLen text ≤ u64Max) :
    Accounted text (splice text front back place) := by
  obtain ⟨gone, parts, made⟩ := splice_sides front back place addressable
  have tail : Spans (gone ++ (Boundary.after text (max back front)).tail)
      [(Boundary.after text (max back front)).tail] := by
    have kept := Spans.keep gone (Boundary.after text (max back front)).tail (Spans.done [])
    rwa [append_nil] at kept
  refine ⟨_, _, _, by rw [← append_assoc]; exact parts, tail, ?_, ?_⟩
  · rw [made, flatten_singleton]
  · rw [made, flatten_singleton]
    have size := congrArg byteLen parts
    rw [byteLen_append, byteLen_append] at size
    dsimp only
    omega

/-- How many bytes the widest sentence of a text takes. -/
def sentenceRoom (place : Elided) (textLen : Nat) : Nat :=
  match place with
  | .nothing => 0
  | .head | .tail => markerRoom textLen
  | .middle => gapMarkerRoom textLen

theorem byteLen_sentence_le {dropped textLen : Nat} (inside : dropped ≤ textLen)
    (addressable : textLen ≤ u64Max) :
    byteLen (sentence place dropped) ≤ sentenceRoom place textLen := by
  have exact : saturatingLen dropped = dropped := by
    rw [saturatingLen, Nat.min_eq_left (Nat.le_trans inside addressable)]
  have wide := byteLen_marker_le inside
  have gap := byteLen_gapMarker_le inside
  rw [exact] at wide gap
  cases place with
  | nothing => exact Nat.le_refl 0
  | head => exact wide
  | tail => exact wide
  | middle => exact gap

/-- A cut keeps no more than what stands before `front` and from `back` on. -/
theorem byteLen_splice_le (addressable : byteLen text ≤ u64Max) :
    byteLen (splice text front back place).text ≤
      front + sentenceRoom place (byteLen text) + (byteLen text - back) := by
  obtain ⟨gone, parts, made⟩ := splice_sides front back place addressable
  have size := congrArg byteLen parts
  rw [byteLen_append, byteLen_append] at size
  have inside : byteLen gone ≤ byteLen text := by
    clear addressable
    omega
  have wide := byteLen_sentence_le place inside addressable
  have low := Boundary.offset_before_le text front
  have high := Boundary.le_offset_after text (max back front)
  have sides := congrArg byteLen (Boundary.after_sides text (max back front))
  rw [byteLen_append] at sides
  rw [made, byteLen_append, byteLen_append]
  simp only [Boundary.offset] at low high
  clear addressable
  omega

/-- A tail cut at a position the text reported keeps what stands before it. -/
theorem splice_tail (text : List Char) (at_ : Nat) :
    splice text (boundaryBefore text at_) (byteLen text) .tail =
      { text := (Boundary.before text at_).head ++
          marker (saturatingLen (byteLen text - boundaryBefore text at_)),
        dropped := saturatingLen (byteLen text - boundaryBefore text at_),
        place := .tail } := by
  have size := congrArg byteLen (Boundary.before_sides text at_)
  rw [byteLen_append] at size
  have inside : (Boundary.before text at_).offset ≤ byteLen text := by
    rw [Boundary.offset]
    omega
  simp only [splice, boundaryBefore, Boundary.before_offset, max_eq_left inside, Boundary.after_end,
    append_nil]
  rfl

end Elision

end Sprawling
