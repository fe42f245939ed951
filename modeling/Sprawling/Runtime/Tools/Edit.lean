import Sprawling.Base.Json
import Sprawling.Kernel.Address
import Sprawling.Runtime.Tools.Replacement

/-! One file under the `read` and `edit` tools of any number of runs. A call is a sequence of steps,
each one thing the platform or a run's table is asked, so that the steps of several calls, and the
writes of others, come in any order. -/

namespace Sprawling

open Replacement Copied

/-- What a file is at one moment, as far as an edit needs to know. -/
structure Stamp where
  len : Nat
  written : Int × Int
  volume : Nat
  file : Nat
deriving DecidableEq

/-- A file's stamp and its bytes. -/
structure Standing where
  stamp : Stamp
  bytes : List UInt8
deriving DecidableEq

/-- What a call asks for: to replace text in a file that stands, or to make a file where none
does. -/
inductive Intent where
  | replace
  | create

inductive Admission where
  | lands
  | unread
  | moved
  | absent
  | present

def admission (seen current : Option Stamp) (intent : Intent) : Admission :=
  match current, intent with
  | none, .create => .lands
  | none, .replace => .absent
  | some _, .create => .present
  | some current, .replace =>
    match seen with
    | none => .unread
    | some seen => if seen = current then .lands else .moved

namespace Passage

def around : Nat := 3

def mostLines : Nat := 40

def mostBytes : Nat := 4096

/-- A line without its line end. -/
def unended (line : List Char) : List Char :=
  if line.getLast? = some '\n' then
    let bare := line.dropLast
    if bare.getLast? = some '\r' then bare.dropLast else bare
  else line

def linesOf (text : List Char) : List (List Char) := (splitInclusive text).map unended

/-- The lines of the window, from the one at index `number` on, while they fit. -/
def gather (found : Nat) : Nat → List Char → List (List Char) → List Char × Nat
  | number, body, [] => (body, number)
  | number, body, line :: rest =>
    if Utf8.byteLen body + Utf8.byteLen line > mostBytes ∧ number > found then (body, number)
    else gather found (number + 1) (body ++ line) rest

def drawn (index : Nat) : List Char := Text.decimal ((Numbering.current.shown index).getD index)

/-- The window around where `old` begins in `text`, or at its head when the first line of `old` is
gone; the answer says which. -/
def window (text old : List Char) : Bool × List Char :=
  let lines := splitInclusive text
  let first := ((linesOf old).map Text.trim).find? fun line => !line.isEmpty
  let found := first.bind fun first => lines.findIdx? (Replacement.contains first)
  let at_ := found.getD 0
  if lines.isEmpty then (found.isSome, "the file is now empty".toList)
  else
    let start := at_ - around
    let reach := (linesOf old).length + around * 2
    let stop := min (start + min reach mostLines) lines.length
    let gathered := gather at_ start [] ((lines.take stop).drop start)
    let last := if gathered.2 = start then start else gathered.2 - 1
    let body := if gathered.1.getLast? = some '\n' then gathered.1 else gathered.1 ++ ['\n']
    (found.isSome, "lines ".toList ++ drawn start ++ ['-'] ++ drawn last
      ++ " as the file now reads:\n".toList ++ body)

end Passage

/-- What one call of `edit` asks for, once its arguments are read. -/
structure EditRequest where
  rel : List Char
  old : List Char
  new : List Char
  every : Bool
  /-- The write limit's verdict on a replacement. -/
  limit : Option AxError
deriving DecidableEq

/-- Why an edit did not land. -/
inductive EditRefusal where
  /-- A door before the file is touched, or the write limit. -/
  | door
  /-- The platform would not say what stands at the path. -/
  | unreadable
  /-- The file was written while the edit read it. -/
  | torn
  | notText
  | absent
  | unread
  | moved
  | present
  | unmatched
  /-- The platform refused the write, or what comes after it. -/
  | storage
deriving DecidableEq

namespace EditRequest

def intent (request : EditRequest) : Intent := if request.old.isEmpty then .create else .replace

/-- The text with the replacement made, or how often the passage occurs. -/
def updated (request : EditRequest) (text : List Char) : Except Nat (List Char) :=
  let spelled := asTheFileSpells text request.old request.new
  match Replacement.count spelled.1 text, request.every with
  | 0, _ => .error 0
  | 1, false => .ok (replaceFirst spelled.1 spelled.2 text)
  | _, true => .ok (replaceAll spelled.1 spelled.2 text)
  | hits, false => .error hits

end EditRequest

namespace EditTool

/-- What is asked of a call before the file is touched. -/
structure Doors where
  mode : Option AxError
  withinCity : List Char → Except AxError (List Char)
  domain : Address → Option AxError
  /-- Whether the name, or a directory above it, is a link. -/
  link : List Char → Option AxError
  /-- Whether the run may change a file that is already there. -/
  replacing : Address → Option AxError

def arg (args : Json) (key : String) : Except AxError (List Char) :=
  match (args.get key).bind Json.asStr with
  | some text => .ok text
  | none => .error (.failure .invalidArgs "edit file" s!"missing string argument `{key}`"
      ("pass file_path, old_string and new_string - all strings - "
        ++ "and replace_all when every occurrence should change"))

/-- Whether the call asked for every occurrence; absent is one. -/
def replacingAll (args : Json) : Except AxError Bool :=
  match args.get "replace_all" with
  | none => .ok false
  | some asked =>
    match asked.asBool with
    | some every => .ok every
    | none => .error (.failure .invalidArgs "edit file" "`replace_all` is not true or false"
        "pass `replace_all` as a boolean, or leave it out to replace one occurrence")

def orElse (verdict : Option AxError) : Except AxError Unit :=
  match verdict with
  | none => .ok ()
  | some refusal => .error refusal

/-- What a call asks for, once every door before the file let it through. -/
def requested (doors : Doors) (args : Json) : Except AxError EditRequest := do
  orElse doors.mode
  let rel ← doors.withinCity (← arg args "file_path")
  let old ← arg args "old_string"
  let new ← arg args "new_string"
  let every ← replacingAll args
  let spelled := String.ofList rel
  if every && old.isEmpty then
    .error (.failure .invalidArgs "edit file" "`replace_all` with an empty `old_string`"
      s!"leave `replace_all` out to create {spelled}, or name the text to replace")
  match Address.parse rel with
  | .error err =>
    let why := err.subject
    .error (.failure .invalidArgs "edit file" s!"{spelled}: {why}"
      "pass a city-relative path with no `..` and no leading slash")
  | .ok target =>
    orElse (doors.domain target)
    orElse (doors.link rel)
    return { rel, old, new, every, limit := doors.replacing target }

def unreadable (rel : List Char) (err : String) : AxError :=
  let rel := String.ofList rel
  .failure .invalidArgs "edit file" s!"{rel}: {err}"
    "check the path; to create a new file pass old_string:\"\""

def torn (rel : List Char) : AxError :=
  let rel := String.ofList rel
  .failure .versionConflict "edit file" s!"{rel} was being written while this edit read it"
    "read the file again, then edit"

def notText (rel : List Char) : AxError :=
  let rel := String.ofList rel
  .failure .invalidArgs "edit file" s!"{rel} is not valid UTF-8"
    (s!"edit {rel} in a program that reads its bytes; this tool changes text "
      ++ "files and this one is not text")

def absent (rel : List Char) : AxError :=
  let rel := String.ofList rel
  .failure .invalidArgs "edit file" s!"{rel} does not exist"
    ("check the path; to create a new file pass old_string:\"\" and the whole "
      ++ "file in `new_string`")

def unread (rel : List Char) : AxError :=
  let rel := String.ofList rel
  .failure .invalidArgs "edit file" s!"{rel} has not been read in this run"
    (s!"read {rel} first - a window around the passage you are changing is enough - "
      ++ "then edit")

def moved (rel text old : List Char) : AxError :=
  let rel := String.ofList rel
  let shown := Passage.window text old
  let window := String.ofList shown.2
  .failure .versionConflict "edit file"
    (if shown.1 then s!"{rel} changed after this run read it; {window}"
      else s!"{rel} changed after this run read it, and the first line of "
        ++ s!"`old_string` is no longer in it; {window}")
    "edit again against the passage as it now reads, or read the file"

def alreadyExists (rel : List Char) : AxError :=
  let rel := String.ofList rel
  .failure .versionConflict "edit file"
    s!"{rel} already exists, so `old_string: \"\"` cannot create it"
    "read the file and replace a passage in it, or choose another path"

def unmatched (rel : List Char) (hits : Nat) : AxError :=
  let rel := String.ofList rel
  if hits = 0 then
    .failure .invalidArgs "edit file" s!"`old_string` matches 0 times in {rel}"
      "copy `old_string` from the file as it reads, whitespace included"
  else
    .failure .invalidArgs "edit file" s!"`old_string` matches {hits} times in {rel}, not once"
      ("include enough surrounding text in `old_string` to name exactly one "
        ++ "occurrence, or set `replace_all: true` to change all of them")

end EditTool

/-- What one call of `read` asks for: the interval, and whether the call named one. -/
structure ReadRequest where
  offset : Nat
  limit : Nat
  windowed : Bool

namespace ReadRequest

def lineCap : Nat := 512

def intervalCapBytes : Nat := 65536

/-- How many of the lines fit one answer; the first travels however long it is. -/
def fitting (limit : Nat) : Nat → Nat → List (List Char) → Nat
  | taken, _, [] => taken
  | taken, spent, line :: rest =>
    let after := spent + Utf8.byteLen line
    if taken ≥ limit ∨ (after > intervalCapBytes ∧ taken > 0) then taken
    else fitting limit (taken + 1) after rest

/-- Where the next read continues, when this one leaves lines behind. -/
def nextOffset (request : ReadRequest) (text : List Char) : Option Nat :=
  let lines := (splitInclusive text).drop request.offset
  let taken := fitting request.limit 0 0 lines
  if (lines.drop taken).isEmpty then none else some (request.offset + taken)

def whole (args : Json) (field : String) : Except AxError (Option Nat) :=
  match args.get field with
  | none => .ok none
  | some value =>
    match value.asU64 with
    | some lines => .ok (some lines)
    | none => .error (.failure .invalidArgs "read" s!"`{field}` is not a whole number of lines"
        ("pass `offset` and `limit` as non-negative integers, or leave them out "
          ++ "to read from the start"))

def askedFor (args : Json) : Except AxError ReadRequest := do
  let offset ← whole args "offset"
  let limit ← whole args "limit"
  let limit := (limit.map fun asked => min asked lineCap).getD lineCap
  if limit = 0 then
    .error (.failure .invalidArgs "read" "`limit` is zero, which asks for no lines at all"
      "pass a `limit` from 1 to 512, or leave it out")
  return {
    offset := (offset.map (· - 1)).getD 0
    limit
    windowed := (args.get "offset").isSome || (args.get "limit").isSome }

/-- Whether an answer counts as a look: it is whole, or the window the call asked for. -/
def counts (request : ReadRequest) (text : List Char) : Bool :=
  request.windowed || (request.nextOffset text).isNone

end ReadRequest

end Sprawling
