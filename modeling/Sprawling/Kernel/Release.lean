import Sprawling.Base.Calendar
import Sprawling.Base.Semver
import Sprawling.Base.Word
import Sprawling.Kernel.Error

/-! Which release a binary is, and how two releases are ordered: a release is spelled as a git tag, as an
npm version, and by its version number alone. -/

namespace Sprawling

open Numeral Text

/-! ### Version numbers -/

/-- A release named by its version number alone. -/
structure Version where
  major : UInt32
  minor : UInt32
  patch : UInt32

namespace Version

/-- One version component: digits only, and no leading zero that would make two spellings of one
number. -/
def number (text : List Char) : Option UInt32 :=
  match text with
  | [] => none
  | first :: rest =>
    if ¬first.isDigit then none
    else if first = '0' ∧ rest ≠ [] then none
    else (parseUnsigned Word.u32Values text).map UInt32.ofNat

/-- The one reading of a version number, shared by every spelling. -/
def parse (version : List Char) (refused : String → AxError) : Except AxError Version :=
  let parts := version.splitOn '.'
  match parts[0]?.bind number, parts[1]?.bind number, parts[2]?.bind number with
  | some major, some minor, some patch =>
    if parts[3]?.isSome then
      .error (refused ("`" ++ String.ofList version
        ++ "` carries more than the three numbers a version of this project has"))
    else .ok { major, minor, patch }
  | _, _, _ =>
    .error (refused ("`" ++ String.ofList version
      ++ "` is not three dot-separated numbers, as in `0.0.5`"))

/-- The version crates.io carries. -/
def fromCratesVersion (text : List Char) : Except AxError Version :=
  parse text fun msg => .failure .configInvalid "read a crates.io version" (String.ofList text) msg

def display (version : Version) : List Char :=
  Semver.core version.major.toNat version.minor.toNat version.patch.toNat

/-- The numbers, the first one first. -/
def order (first second : Version) : Ordering :=
  (compare first.major.toNat second.major.toNat).then <|
  (compare first.minor.toNat second.minor.toNat).then <|
  compare first.patch.toNat second.patch.toNat

end Version

/-! ### Releases -/

/-- How far this project stands, as every release it cuts names it. -/
inductive Maturity where
  | preAlpha
  | alpha
deriving DecidableEq

namespace Maturity

/-- The word as a tag writes it. -/
def titled : Maturity → List Char
  | .preAlpha => "Pre-alpha".toList
  | .alpha => "Alpha".toList

def tagInfix (maturity : Maturity) : List Char := '-' :: (maturity.titled ++ ['-'])

def current : Maturity := .alpha

end Maturity

def npmInfix : List Char := "-pre.".toList

def century : Nat := 2000

/-- One published release, in the form both spellings decode to. -/
structure Release where
  version : Version
  year : Nat
  month : Nat
  day : Nat
  inCentury : 2000 ≤ year ∧ year < 2100
  months : 1 ≤ month ∧ month ≤ 12
  days : 1 ≤ day ∧ day ≤ 31

/-- Where one release stands against the newest one published. -/
inductive ReleaseVerdict where
  | current
  | behind
  | ahead

namespace Release

/-- The digit a character is. -/
def toDigit (c : Char) : Option (Fin 10) :=
  if digit : c.isDigit then
    some ⟨c.toNat - 48, by have bounds := digit_bounds digit; omega⟩
  else none

/-- Two digits off the front, as the number they spell. -/
def pair : List Char → Option (Fin 100 × List Char)
  | tens :: ones :: rest => do
      let tens ← toDigit tens
      let ones ← toDigit ones
      return (⟨tens.val * 10 + ones.val, by omega⟩, rest)
  | _ => none

/-- The three pairs of a date, and what stands behind them. -/
def pairs (date : List Char) : Option (Fin 100 × Fin 100 × Fin 100 × List Char) := do
  let (year, digits) ← pair date
  let (month, digits) ← pair digits
  let (day, digits) ← pair digits
  return (year, month, day, digits)

/-- Both spellings decode through here, so neither can accept a version or a date the other would
refuse. -/
def assemble (version date subject : List Char) (action : String) : Except AxError Release := do
  let refused msg := AxError.failure .configInvalid action (String.ofList subject) msg
  let version ← Version.parse version refused
  let read := "the date reads `" ++ String.ofList date
  match pairs date with
  | none => .error (refused (read ++ "`, which is not six digits"))
  | some (short, month, day, digits) =>
    if digits ≠ [] then .error (refused (read ++ "`, which is longer than six digits"))
    else if days : (1 ≤ month.val ∧ month.val ≤ 12) ∧ 1 ≤ day.val ∧ day.val ≤ 31 then
      -- the sum of the century and two digits fits a u32
      .ok { version, year := century + short.val, month := month.val, day := day.val,
            inCentury := by unfold century; omega, months := days.1, days := days.2 }
    else
      .error (refused (read ++ "`, and `" ++ String.ofList (zeroPadded 2 month.val) ++ "-"
        ++ String.ofList (zeroPadded 2 day.val) ++ "` is not a day of any month"))

/-- The release a tag names, read as a build of a maturity reads it. -/
def decodeTag (tag expectedVersion : List Char) (maturity : Maturity) : Except AxError Release :=
  let action := "read a release tag"
  let refused msg := AxError.failure .configInvalid action (String.ofList tag) msg
  let mark := maturity.tagInfix
  match tag with
  | 'v' :: body =>
    match splitOnceText mark body with
    | some (version, date) =>
      if version ≠ expectedVersion then
        .error (refused ("the tag says " ++ String.ofList version ++ " and the build says "
          ++ String.ofList expectedVersion ++ "; one release cannot have two version numbers"))
      else assemble version date tag action
    | none =>
      .error (refused ("a release tag of this build reads `v<version>" ++ String.ofList mark
        ++ "<YYMMDD>`; a tag of another shape or another maturity is not one of its releases"))
  | _ => .error (refused ("a release tag begins with `v`, as in `v0.0.5" ++ String.ofList mark ++ "260912`"))

/-- The release a git tag names, for a build of a version. -/
def fromTag (tag expectedVersion : List Char) : Except AxError Release :=
  decodeTag tag expectedVersion .current

/-- The version a tag carries when it has the mark of a maturity. -/
def taggedVersion (tag : List Char) (maturity : Maturity) : Option (List Char) :=
  match tag with
  | 'v' :: body => (splitOnceText maturity.tagInfix body).map Prod.fst
  | _ => none

/-- A published tag, including releases cut before the current maturity. -/
def fromPublishedTag (tag : List Char) : Except AxError Release :=
  let decoded := [Maturity.alpha, Maturity.preAlpha].findSome? fun maturity =>
    (taggedVersion tag maturity).map fun version => decodeTag tag version maturity
  decoded.getD (.error (.failure .configInvalid "read a published tag" (String.ofList tag)
    "use a published Alpha or Pre-alpha release tag"))

/-- The release an npm version string names. -/
def fromNpmVersion (text : List Char) : Except AxError Release :=
  let action := "read an npm version"
  match splitOnceText npmInfix text with
  | some (version, date) => assemble version date text action
  | none =>
    .error (.failure .configInvalid action (String.ofList text)
      ("every release of this project is published as `<version>-pre.<YYMMDD>`; a version of another "
        ++ "shape was published by something other than this workflow"))

def short (release : Release) : Nat := release.year - century

/-- The day, in six digits. -/
def date (release : Release) : List Char :=
  zeroPadded 2 release.short ++ zeroPadded 2 release.month
    ++ zeroPadded 2 release.day

/-- The tag a build of a maturity cuts. -/
def tagAt (release : Release) (maturity : Maturity) : List Char :=
  'v' :: (release.version.display ++ maturity.tagInfix ++ release.date)

def tag (release : Release) : List Char := release.tagAt .current

def npmVersion (release : Release) : List Char := release.version.display ++ npmInfix ++ release.date

/-- The version, then the day. -/
def order (first second : Release) : Ordering :=
  (first.version.order second.version).then <|
  (compare first.year second.year).then <|
  (compare first.month second.month).then <|
  compare first.day second.day

end Release

/-- An order read as a verdict. -/
def verdictOf : Ordering → ReleaseVerdict
  | .lt => .behind
  | .eq => .current
  | .gt => .ahead

def stands (mine newest : Release) : ReleaseVerdict := verdictOf (mine.order newest)

def standsOnVersions (mine newest : Version) : ReleaseVerdict := verdictOf (mine.order newest)

/-- Where a release stands against the newest version crates.io offers. -/
def standsOnCrates (mine : Release) (newest : Version) : ReleaseVerdict :=
  standsOnVersions mine.version newest

end Sprawling
