import Sprawling.Runtime.Tools.Edit

/-! A read answer: the interval taken out of a text, and the text a model is shown for it, one header
line and the lines with a number marked every ten. -/

namespace Sprawling

open Copied

namespace ReadRequest

/-- What one interval took out of a document, and what the taking left. -/
structure Taken where
  text : List Char
  totalLines : Option Nat
  nextOffset : Option Nat

/-- Cuts on line ends, every line with its own terminator. -/
def cut (request : ReadRequest) (text : List Char) : Taken :=
  let lines := splitInclusive text
  let rest := lines.drop request.offset
  let taken := fitting request.limit 0 0 rest
  if rest.isEmpty then { text := [], totalLines := some lines.length, nextOffset := none }
  else
    { text := (rest.take taken).flatten
      totalLines := if (rest.drop taken).isEmpty then none else some lines.length
      nextOffset := request.nextOffset text }

/-- The payload of one answer. -/
def answer (request : ReadRequest) (path text : List Char) : Json :=
  let taken := request.cut text
  .obj <|
    [("path", .str path)] ++
    (if request.offset = 0 then [] else [("offset", .num request.offset)]) ++
    (taken.totalLines.map fun total => ("total_lines", .num total)).toList ++
    (taken.nextOffset.map fun next => ("next_offset", .num next)).toList ++
    [("bytes", .num (Utf8.byteLen taken.text)), ("text", .str taken.text)]

end ReadRequest

namespace Read

/-- A key that is absent reads as `some none`; one that is no whole number reads as `none`. -/
def number : Option Json → Option (Option Nat)
  | none => some none
  | some value => value.asU64.map some

/-- The lines shown, as the header names them. -/
def header (path : List Char) (numbering : Numbering) (offset shown : Nat) (total next : Option Nat) :
    Option (List Char) :=
  -- `shown.checked_sub(1)`, then `offset.checked_add(span)`
  match if shown = 0 ∨ 2 ^ 64 ≤ offset + (shown - 1) then none else some (offset + (shown - 1)) with
  | none =>
    match total with
    | some 0 | none => some (path ++ " is empty".toList)
    | some total => do
        let offset ← numbering.shown offset
        return path ++ " has ".toList ++ Text.decimal total ++ " lines; offset ".toList
          ++ Text.decimal offset ++ " is past the end".toList
  | some last => do
      let total ← match total with
        | some total => some total
        | none => if last + 1 < 2 ^ 64 then some (last + 1) else none
      let first ← numbering.shown offset
      let shownLast ← numbering.shown last
      let said := path ++ " lines ".toList ++ Text.decimal first ++ ['-'] ++ Text.decimal shownLast
        ++ " of ".toList ++ Text.decimal total
      match next with
      | some next => do
          let next ← numbering.shown next
          return said ++ ", next ".toList ++ Text.decimal next
      | none => return said

/-- Writes the line at index `at_` of a passage whose first line is at index `first`, behind the mark
placed there. -/
def pushLine (out : List Char) (numbering : Numbering) (first at_ : Nat) (line : List Char) :
    Option (List Char) := do
  let number ← numbering.shown at_
  let top ← numbering.shown first
  return out ++ (if isMarked top number then Text.decimal number ++ [markEnd] else [])
    ++ line

def pushLines (numbering : Numbering) (first : Nat) : Nat → List Char → List (List Char) →
    Option (List Char)
  | _, out, [] => some out
  | at_, out, line :: rest => do
      pushLines numbering first (at_ + 1) (← pushLine out numbering first at_ line) rest

/-- The header and the marked text of one payload, or `none` when it is not the shape a read writes. -/
def text (result : Json) (numbering : Numbering) : Option (List Char) := do
  let path ← (← result.get "path").asStr
  let body ← (← result.get "text").asStr
  let offset := (← number (result.get "offset")).getD 0
  let total ← number (result.get "total_lines")
  let next ← number (result.get "next_offset")
  let lines := splitInclusive body
  let out ← header path numbering offset lines.length total next
  pushLines numbering offset offset (out ++ ['\n']) lines

/-- A read answer as its header line and the lines under it. -/
structure Drawing where
  header : List Char
  lines : List (List Char)
deriving DecidableEq

def Drawing.text (drawing : Drawing) : List Char :=
  drawing.header ++ '\n' :: drawing.lines.flatten

/-- The lines of a passage as they are drawn from index `at_` on. -/
def drawLines (numbering : Numbering) (first : Nat) : Nat → List (List Char) →
    Option (List (List Char))
  | _, [] => some []
  | at_, line :: rest => do
      let drawn ← pushLine [] numbering first at_ line
      let others ← drawLines numbering first (at_ + 1) rest
      return drawn :: others

def drawing (result : Json) (numbering : Numbering) : Option Drawing := do
  let path ← (← result.get "path").asStr
  let body ← (← result.get "text").asStr
  let offset := (← number (result.get "offset")).getD 0
  let total ← number (result.get "total_lines")
  let next ← number (result.get "next_offset")
  let lines := splitInclusive body
  let out ← header path numbering offset lines.length total next
  let drawn ← drawLines numbering offset offset lines
  return { header := out, lines := drawn }

theorem pushLine_eq (out : List Char) (numbering : Numbering) (first at_ : Nat) (line : List Char) :
    pushLine out numbering first at_ line =
      (pushLine [] numbering first at_ line).map (out ++ ·) := by
  unfold pushLine
  cases numbering.shown at_ with
  | none => rfl
  | some number =>
    cases numbering.shown first with
    | none => rfl
    | some top => simp [List.append_assoc]

theorem pushLines_eq (numbering : Numbering) (first at_ : Nat) (out : List Char)
    (lines : List (List Char)) :
    pushLines numbering first at_ out lines =
      (drawLines numbering first at_ lines).map fun drawn => out ++ drawn.flatten := by
  induction lines generalizing at_ out with
  | nil => simp [pushLines, drawLines]
  | cons line rest ih =>
    rw [pushLines, drawLines, pushLine_eq]
    cases pushLine [] numbering first at_ line with
    | none => rfl
    | some drawn =>
      simp only [Option.map_some, Option.bind_eq_bind, Option.bind_some, ih]
      cases drawLines numbering first (at_ + 1) rest with
      | none => rfl
      | some others => simp [List.append_assoc]

theorem text_eq_drawing (result : Json) (numbering : Numbering) :
    text result numbering = (drawing result numbering).map Drawing.text := by
  simp only [text, drawing, pushLines_eq, Option.map_eq_bind, Option.bind_eq_bind, Option.bind_assoc,
    Option.pure_def, Option.bind_some, Function.comp_def, Drawing.text]
  simp

end Read

end Sprawling
