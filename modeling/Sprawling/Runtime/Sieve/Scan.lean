import Sprawling.Runtime.Tools.Replacement

/-! Which lines matter and how much, and which lines no stage rewrites. -/

namespace Sprawling

namespace Sieve

/-- A line of a command's output, without its end. -/
abbrev Line := List Char

/-- How much a line matters, in the order of keeping. -/
inductive Priority where
  | error
  | failure
  | assertion
  | warning
  | note
  | guarded
deriving DecidableEq

namespace Priority

/-- The place of a priority in the order of keeping. -/
def rank : Priority → Nat
  | .error => 0
  | .failure => 1
  | .assertion => 2
  | .warning => 3
  | .note => 4
  | .guarded => 5

theorem rank_injective {first second : Priority} (same : first.rank = second.rank) : first = second := by
  cases first <;> cases second <;> first | rfl | cases same

def min (first second : Priority) : Priority := if second.rank < first.rank then second else first

end Priority

def holds (part : String) (text : Line) : Bool := Replacement.contains part.toList text

def lowered (line : Line) : Line := line.map Char.toLower

/-- The maximal runs of characters that are not white space. -/
def splitWhitespace : Line → List Line
  | [] => []
  | c :: rest =>
    if Text.isWhitespace c then splitWhitespace rest
    else
      match rest, splitWhitespace rest with
      | next :: _, token :: others =>
        if Text.isWhitespace next then [c] :: token :: others else (c :: token) :: others
      | _, others => [c] :: others

def allDigits (text : Line) : Bool := !text.isEmpty && text.all Char.isDigit

/-- `secret:realm/name`. Two occurrences of `secret:` never overlap. -/
def hasSecretRef (line : Line) : Bool :=
  line.tails.any fun rest =>
    "secret:".toList.isPrefixOf rest &&
      ((splitWhitespace (rest.drop 7)).head?.any fun token => token.contains '/')

/-- `path:line:col`: a token with a path character, then two runs of digits. -/
def hasLocation (line : Line) : Bool :=
  (splitWhitespace line).any fun token =>
    match Text.rsplitOnce ':' token with
    | none => false
    | some (front, col) =>
      match Text.rsplitOnce ':' front with
      | none => false
      | some (path, row) =>
        allDigits col && allDigits row &&
          (!path.isEmpty && (path.contains '.' || path.contains '/' || path.contains '\\'))

def isAsciiAlphanumeric (c : Char) : Bool := c.isAlphanum

/-- Groups of four capitals or digits joined by hyphens, at least two of them. -/
def hasDeviceCode (line : Line) : Bool :=
  (splitWhitespace line).any fun token =>
    let token := (token.dropWhile fun c => !isAsciiAlphanumeric c).rdropWhile
      fun c => !isAsciiAlphanumeric c
    let groups := token.splitOn '-'
    2 ≤ groups.length && groups.all fun group =>
      group.length = 4 && group.all fun c => c.isUpper || c.isDigit

def resultPhrases : List String := ["test result:", "exit code"]

/-- A line no stage may fold or cut. -/
def isProtected (line : Line) : Bool :=
  holds "://" line || hasSecretRef line || hasLocation line || hasDeviceCode line ||
    (resultPhrases.any fun phrase => holds phrase (lowered line)) ||
      holds "exit status" (lowered line) || holds "exited with" (lowered line)

section Words

variable (isAlphanumeric : Char → Bool)

def isWordChar (c : Char) : Bool := isAlphanumeric c || c = '_'

/-- A word found from here on with no word character at either side; `skip` characters still belong to
the occurrence before, and `before` is the character passed last. -/
def hasWordFrom (word : Line) : (before : Option Char) → (skip : Nat) → Line → Bool
  | _, _, [] => false
  | _, skip + 1, c :: rest => hasWordFrom word (some c) skip rest
  | before, 0, c :: rest =>
    if word.isPrefixOf (c :: rest) then
      (!before.any (isWordChar isAlphanumeric) &&
          !(((c :: rest).drop word.length).head?.any (isWordChar isAlphanumeric))) ||
        hasWordFrom word (some c) (word.length - 1) rest
    else hasWordFrom word (some c) 0 rest

def hasWord (lower : Line) (words : List String) : Bool :=
  words.any fun word => hasWordFrom isAlphanumeric word.toList none 0 lower

/-- Two to four capitals then three to five digits, bounded by other than word characters. Every turn
passes a character at least. -/
def hasDiagnosticCodeFrom : (turns : Nat) → (before : Option Char) → Line → Bool
  | 0, _, _ => false
  | turns + 1, before, rest =>
    if rest.isEmpty then false
    else
      let upper := (rest.takeWhile Char.isUpper).length
      if 2 ≤ upper && upper ≤ 4 then
        let digits := ((rest.drop upper).takeWhile Char.isDigit).length
        let stop := upper + digits
        let beforeOk := !before.any (isWordChar isAlphanumeric)
        let afterOk := !(rest[stop]?.any (isWordChar isAlphanumeric))
        if (3 ≤ digits && digits ≤ 5) && beforeOk && afterOk then true
        else hasDiagnosticCodeFrom turns rest[stop - 1]? (rest.drop stop)
      else hasDiagnosticCodeFrom turns rest.head? (rest.drop 1)

def hasDiagnosticCode (line : Line) : Bool :=
  hasDiagnosticCodeFrom isAlphanumeric line.length none line

/-- The priority of one line, if it is worth keeping at all. -/
def priority (line : Line) : Option Priority :=
  let lower := lowered line
  if hasWord isAlphanumeric lower ["error"] then some .error
  else if hasWord isAlphanumeric lower ["panicked", "fatal", "failure", "failed"]
      || resultPhrases.any fun phrase => holds phrase lower then some .failure
  else if hasWord isAlphanumeric lower ["assertion"] then some .assertion
  else if hasWord isAlphanumeric lower ["warning"] || hasDiagnosticCode isAlphanumeric line then
    some .warning
  else if hasWord isAlphanumeric lower ["note", "help"] then some .note
  else if isProtected line then some .guarded
  else none

end Words

end Sieve

end Sprawling
