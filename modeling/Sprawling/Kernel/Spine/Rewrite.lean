import Sprawling.Kernel.Spine.Row

namespace Sprawling.Spine

def parseStatus (raw : List Char) : Option RoadmapStatus :=
  (roadmapStatusSpellings.find? fun known =>
    known.2.map Char.toLower == raw.map Char.toLower).map Prod.fst

/-- The cells of a table line: what stands between the outer bars, cut at every bar. -/
def splitTableRow (line : List Char) : Option (List (List Char)) :=
  match Text.trim line with
  | '|' :: rest =>
    if rest.getLast? = some '|' then some ((rest.dropLast.splitOn '|').map Text.trim) else none
  | _ => none

def isSeparator (cells : List (List Char)) : Bool :=
  !cells.isEmpty && cells.all fun cell => !cell.isEmpty && cell.all fun c => c == '-' || c == ':'

/-- Whether a line is a body row: six cells that are not the separator. -/
def bodyRow (cells : List (List Char)) : Bool :=
  cells.length == roadmapColumns && !isSeparator cells

def splitLines (text : List Char) : List (List Char) := text.splitOn '\n'

def joinLines (lines : List (List Char)) : List Char := ['\n'].intercalate lines

def stripReturn (line : List Char) : List Char :=
  if line.getLast? = some '\r' then line.dropLast else line

/-- The lines of `str::lines`: a final empty part is no line, and a line that was ended by a
newline loses one carriage return before it. -/
def lines (text : List Char) : List (List Char) :=
  let parts := splitLines text
  parts.dropLast.map stripReturn ++ parts.getLast?.toList.filter fun last => !last.isEmpty

/-- The lines of the first table as an inclusive range of `splitLines`. -/
def locateFrom : Nat → Option (Nat × Nat) → List (List Char) → Option (Nat × Nat)
  | _, found, [] => found
  | n, found, line :: rest =>
    if (splitTableRow line).isSome then
      locateFrom (n + 1) (some ((found.map Prod.fst).getD n, n)) rest
    else if found.isSome then found
    else locateFrom (n + 1) found rest

def locateTable (text : List Char) : Option (Nat × Nat) := locateFrom 0 none (splitLines text)

def readWeight (cell : List Char) : Except String UInt32 :=
  if cell.isEmpty then .ok 1
  else
    match Text.parseUnsigned u32Bound cell with
    | some value => .ok (UInt32.ofNat value)
    | none => .error s!"weight `{String.ofList cell}` is not a number"

/-- The indices of a needs cell, comma by comma; an empty part names nothing. -/
def readNeeds : List (List Char) → Except String (List NodeId)
  | [] => .ok []
  | part :: parts =>
    if (Text.trim part).isEmpty then readNeeds parts
    else do
      let need ← (NodeId.parse (Text.trim part)).mapError AxError.subject
      let needs ← readNeeds parts
      return need :: needs

def readEvidence (cell : List Char) : EvidenceCell :=
  if cell.isEmpty then .empty
  else
    match Locator.parse cell with
    | .ok locator => .present locator
    | .error _ => .invalid cell

/-- Reads one body row, or says in one clause what is wrong with it. -/
def readRow : List (List Char) → Except String RoadmapRow
  | indexCell :: itemCell :: weightCell :: needsCell :: statusCell :: evidenceCell :: _ => do
      let id ← (NodeId.parse indexCell).mapError AxError.subject
      let weight ← readWeight weightCell
      let needs ← readNeeds (needsCell.splitOn ',')
      match parseStatus statusCell with
      | none => .error s!"status `{String.ofList statusCell}` outside the five-value enum"
      | some status =>
        return { id, item := itemCell, weight, needs, status, evidence := readEvidence evidenceCell }
  | _ => .error "the row is short of cells"

/-- What the walk over the lines of a table has found. -/
structure Scan where
  rows : List RoadmapRow
  problems : List String
  headerSeen : Bool

namespace Scan

def addRow (row : RoadmapRow) (scan : Scan) : Scan := { scan with rows := row :: scan.rows }

def addProblem (problem : String) (scan : Scan) : Scan :=
  { scan with problems := problem :: scan.problems }

end Scan

/-- The loop of `checkRoadmapShape`; the first table ends at the first line that is no row of
one. -/
def scanLines : Nat → Bool → Bool → List (List Char) → Scan
  | _, _, headerSeen, [] => { rows := [], problems := [], headerSeen }
  | lineNo, inTable, headerSeen, line :: rest =>
    match splitTableRow line with
    | none =>
      if inTable then { rows := [], problems := [], headerSeen }
      else scanLines (lineNo + 1) false headerSeen rest
    | some cells =>
      if cells.length ≠ roadmapColumns then
        (scanLines (lineNo + 1) true headerSeen rest).addProblem
          (s!"line {lineNo}: {cells.length} columns, "
            ++ s!"the roadmap table has exactly {roadmapColumns}")
      else if !headerSeen then scanLines (lineNo + 1) true true rest
      else if isSeparator cells then scanLines (lineNo + 1) true headerSeen rest
      else
        match readRow cells with
        | .ok row => (scanLines (lineNo + 1) true headerSeen rest).addRow row
        | .error why =>
          (scanLines (lineNo + 1) true headerSeen rest).addProblem s!"line {lineNo}: {why}"

/-- Finds the first pipe table and checks the six-column contract. -/
def checkRoadmapShape (text : List Char) : RoadmapShape :=
  let scan := scanLines 1 false false (lines text)
  let problems := scan.problems
    ++ if scan.headerSeen then [] else [s!"no {roadmapColumns}-column table found"]
  if problems.isEmpty then .wellFormed scan.rows else .malformed problems

end Sprawling.Spine

namespace Sprawling.Spine

/-- The cells of a row between bars, each with a blank on both sides. -/
def drawCells (cells : List (List Char)) : List Char :=
  cells.foldl (fun line cell => line ++ ' ' :: cell ++ " |".toList) ['|']

def drawNeeds (needs : List NodeId) : List Char :=
  ", ".toList.intercalate (needs.map NodeId.text)

/-- One row as the table writes it. -/
def drawRow (row : RoadmapRow) (status : RoadmapStatus) (evidence : Option Locator) : List Char :=
  drawCells [row.id.text, row.item, Text.decimal row.weight.toNat, drawNeeds row.needs,
    status.spelling, (evidence.map Locator.display).getD []]

/-- The rows of a well-formed table, or the refusal that says which line is wrong. -/
def wellFormed (text : List Char) (action : String) : Except AxError (List RoadmapRow) :=
  match checkRoadmapShape text with
  | .wellFormed rows => .ok rows
  | .malformed problems =>
    .error (.failure .invalidArgs action (String.intercalate "; " problems)
      (s!"repair the {roadmapColumns}-column table in Roadmap.md first; "
        ++ "a plan that does not parse has no denominator"))

/-- Replaces the chosen body rows of the first table, leaving every other line alone. -/
def rewriteLines (chosen : List (List Char) → Option (List Char)) :
    Bool → Bool → List (List Char) → List (List Char)
  | _, _, [] => []
  | inTable, done, line :: rest =>
    let cells := splitTableRow line
    let inTableNow := cells.isSome
    let doneNow := done || (cells.isNone && inTable)
    let hit := if doneNow then none else (cells.filter bodyRow).bind chosen
    hit.getD line :: rewriteLines chosen inTableNow doneNow rest

def rewrite (text : List Char) (chosen : List (List Char) → Option (List Char)) : List Char :=
  joinLines (rewriteLines chosen false false (splitLines text))

/-- The index the first cell of a row spells, when it spells one. -/
def indexOf (cells : List (List Char)) : Option NodeId :=
  cells.head?.bind fun raw => (NodeId.parse raw).toOption

/-- Rewrites one row of the first table, returning the whole text. -/
def setRoadmapStatus (text : List Char) (id : NodeId) (status : RoadmapStatus)
    (evidence : Option Locator) : Except AxError (List Char) :=
  if status = .done ∧ evidence = none then
    .error (.failure .evidenceMissing "mark a roadmap row done" s!"row {id} has no evidence"
      "pass a retrievable locator: `cas:<hash>` or `file:<path>@<oid>`")
  else do
    let rows ← wellFormed text "edit a roadmap row"
    match rows.find? fun row => row.id = id with
    | none =>
      .error (.failure .invalidArgs "edit a roadmap row" s!"no row numbered {id}"
        "read the roadmap and use an index the table carries")
    | some row =>
      let replacement := drawRow row status evidence
      .ok (rewrite text fun cells => if indexOf cells = some id then some replacement else none)

/-- One new row as the table writes it, or the refusal that says why the table cannot hold it. -/
def drawChild (id : NodeId) (child : NewChild) (action : String) : Except AxError (List Char) :=
  if (Text.trim child.item).isEmpty then
    .error (.failure .invalidArgs action "a child with no text"
      "say what each child is; a row nobody can read is a row nobody can take")
  else if '|' ∈ child.item then
    .error (.failure .invalidArgs action
      s!"`{String.ofList child.item}` carries a column separator"
      "write the item without `|`; it would split the row into more cells")
  else if child.weight = 0 then
    .error (.failure .invalidArgs action s!"`{String.ofList child.item}` is weighted zero"
      ("give every child a weight of at least one; "
        ++ "a node worth nothing is never given to anybody"))
  else .ok (drawCells [id.text, Text.trim child.item, Text.decimal child.weight.toNat, [],
    RoadmapStatus.notStarted.spelling, []])

/-- Draws the children one ordinal after another; ordinals stop at the largest `u32`. -/
def drawChildren (parent : NodeId) : Nat → List NewChild → Except AxError (List (List Char))
  | _, [] => .ok []
  | last, child :: children => do
      let next := min (last + 1) (u32Bound - 1)
      let id ← parent.child next
      let line ← drawChild id child "split a plan node"
      let drawn ← drawChildren parent next children
      return line :: drawn

/-- The text with `drawn` inserted after line `seam`. -/
def insertAfter (text : List Char) (seam : Nat) (drawn : List (List Char)) : List Char :=
  let parts := splitLines text
  joinLines (parts.take (seam + 1) ++ (if seam < parts.length then drawn else []) ++
    parts.drop (seam + 1))

/-- The last table line that carries the parent or one of its descendants. -/
def seamOf (parent : NodeId) (first last : Nat) : Nat → Option Nat → List (List Char) → Option Nat
  | _, after, [] => after
  | n, after, line :: rest =>
    let id := if n < first ∨ n > last then none
      else ((splitTableRow line).filter bodyRow).bind indexOf
    let here := id.any fun id => id == parent || parent.isAncestorOf id
    seamOf parent first last (n + 1) (if here then some n else after) rest

/-- Hangs new children under a node, returning the whole text. -/
def insertChildren (text : List Char) (parent : NodeId) (children : List NewChild) :
    Except AxError (List Char) :=
  if children.isEmpty then
    .error (.failure .invalidArgs "split a plan node" "no children given"
      "name at least one child; splitting into nothing would delete the work")
  else do
    let rows ← wellFormed text "split a plan node"
    if !(rows.any fun row => row.id = parent) then
      .error (.failure .invalidArgs "split a plan node" s!"no row numbered {parent}"
        "read the roadmap and use an index the table carries")
    else
      let last := ((rows.filter fun row => row.id.parent = some parent).map
        fun row => row.id.ordinal).foldl max 0
      let drawn ← drawChildren parent last children
      match locateTable text with
      | none =>
        .error (.failure .invalidArgs "split a plan node" "the roadmap table is not there"
          "repair the table before splitting a node")
      | some (first, last) =>
        .ok (insertAfter text ((seamOf parent first last 0 none (splitLines text)).getD last)
          drawn)

/-- Appends one top-level row under the plan's root, returning the whole text. -/
def appendTopLevel (text : List Char) (id : NodeId) (child : NewChild) :
    Except AxError (List Char) :=
  if id.parent.isSome then
    .error (.failure .invalidArgs "add a plan row" s!"{id} is not a top-level index"
      "add under a node by splitting the node you hold")
  else do
    let rows ← wellFormed text "add a plan row"
    if rows.any fun row => row.id = id then
      .error (.failure .invalidArgs "add a plan row" s!"a row numbered {id} is already there"
        "read the plan again and add after its last top-level row")
    else
      let drawn ← drawChild id child "add a plan row"
      match locateTable text with
      | none =>
        .error (.failure .invalidArgs "add a plan row" "the roadmap table is not there"
          "repair the table before adding a row")
      | some (_, last) => .ok (insertAfter text last [drawn])

end Sprawling.Spine
