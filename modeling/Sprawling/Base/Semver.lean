import Sprawling.Base.Numeral

/-! The order of versions: three numbers, then the identifiers of a pre-release. -/

namespace Semver

open List Text

/-- A part of a pre-release, between dots. -/
inductive Identifier where
  | numeric (value : Nat)
  | word (text : List Char)
deriving DecidableEq

namespace Identifier

def read (text : List Char) : Identifier :=
  if text ≠ [] ∧ text.all Char.isDigit then .numeric (Nat.ofDigitChars 10 text 0) else .word text

/-- Numbers are compared as numbers and words as text; a number comes before a word. -/
def order : Identifier → Identifier → Ordering
  | .numeric first, .numeric second => compare first second
  | .numeric _, .word _ => .lt
  | .word _, .numeric _ => .gt
  | .word first, .word second => compare first second

/-- The first identifiers that differ decide; where none does, the shorter list comes before. -/
def orderAll : List Identifier → List Identifier → Ordering
  | [], [] => .eq
  | [], _ :: _ => .lt
  | _ :: _, [] => .gt
  | first :: firsts, second :: seconds => (first.order second).then (orderAll firsts seconds)

end Identifier

/-- What of a version decides its place. -/
structure Parts where
  major : Nat
  minor : Nat
  patch : Nat
  prerelease : Option (List Identifier)

/-- A number between dots. -/
def readNumber (text : List Char) : Option Nat :=
  if text ≠ [] ∧ text.all Char.isDigit then some (Nat.ofDigitChars 10 text 0) else none

/-- A version's parts. What stands behind a plus decides nothing. Zeros in front of a number are read. -/
def read (text : List Char) : Option Parts :=
  let bare := ((splitOnce '+' text).map Prod.fst).getD text
  let (core, prerelease) :=
    match splitOnce '-' bare with
    | some (core, prerelease) => (core, some ((prerelease.splitOn '.').map Identifier.read))
    | none => (bare, none)
  match core.splitOn '.' with
  | [major, minor, patch] => do
      let major ← readNumber major
      let minor ← readNumber minor
      let patch ← readNumber patch
      return { major, minor, patch, prerelease }
  | _ => none

/-- The numbers decide, then the pre-releases, which come before the version they lead to. -/
def Parts.order (first second : Parts) : Ordering :=
  (compare first.major second.major).then <|
  (compare first.minor second.minor).then <|
  (compare first.patch second.patch).then <|
  match first.prerelease, second.prerelease with
  | none, none => .eq
  | none, some _ => .gt
  | some _, none => .lt
  | some firsts, some seconds => Identifier.orderAll firsts seconds

/-- How two versions are ordered, when both are versions. -/
def precedence (first second : List Char) : Option Ordering := do
  let first ← read first
  let second ← read second
  return first.order second

/-! ### Versions as they are written -/

theorem isDigit_decimal (value : Nat) : (decimal value).all Char.isDigit = true :=
  all_eq_true.mpr (decimal_digits value)

theorem readNumber_decimal (value : Nat) : readNumber (decimal value) = some value := by
  rw [readNumber, if_pos ⟨decimal_ne_nil value, isDigit_decimal value⟩, decimal,
    Nat.ofDigitChars_ten_toDigits]

/-- Three numbers between dots. -/
def core (major minor patch : Nat) : List Char :=
  decimal major ++ '.' :: (decimal minor ++ '.' :: decimal patch)

theorem splitOn_core (major minor patch : Nat) : (core major minor patch).splitOn '.' =
    [decimal major, decimal minor, decimal patch] := by
  have whole (value : Nat) : (decimal value).splitOn '.' = [decimal value] :=
    splitOn_eq_singleton (not_mem_decimal (by decide) value)
  rw [core, splitOn_append_cons_self, splitOn_append_cons_self, whole, whole, whole]
  rfl

variable {major minor patch : Nat}

theorem of_mem_core {c : Char} (member : c ∈ core major minor patch) :
    c.isDigit = true ∨ c = '.' := by
  rw [core] at member
  simp only [mem_append, mem_cons] at member
  rcases member with digit | dot | digit | dot | digit
  · exact .inl (decimal_digits _ c digit)
  · exact .inr dot
  · exact .inl (decimal_digits _ c digit)
  · exact .inr dot
  · exact .inl (decimal_digits _ c digit)

theorem not_mem_core {c : Char} (undigit : c.isDigit = false) (undot : c ≠ '.') :
    c ∉ core major minor patch := by
  intro member
  rcases of_mem_core member with digit | dot
  · rw [digit] at undigit
    cases undigit
  · exact undot dot

theorem read_core (major minor patch : Nat) :
    read (core major minor patch) = some ⟨major, minor, patch, none⟩ := by
  have plus : splitOnce '+' (core major minor patch) = none :=
    splitOnce_eq_none.mpr (not_mem_core (by decide) (by decide))
  have dash : splitOnce '-' (core major minor patch) = none :=
    splitOnce_eq_none.mpr (not_mem_core (by decide) (by decide))
  rw [read, plus]
  simp only [Option.map_none, Option.getD_none, dash, splitOn_core, readNumber_decimal,
    Option.bind_eq_bind, Option.bind_some, Option.pure_def]

/-- A version with a pre-release is read as its numbers and the identifiers of the pre-release. -/
theorem read_prerelease {prerelease : List Char} (plain : '+' ∉ prerelease) :
    read (core major minor patch ++ '-' :: prerelease) =
      some ⟨major, minor, patch, some ((prerelease.splitOn '.').map Identifier.read)⟩ := by
  have plus : splitOnce '+' (core major minor patch ++ '-' :: prerelease) = none := by
    refine splitOnce_eq_none.mpr fun member => ?_
    rcases mem_append.mp member with front | back
    · exact not_mem_core (by decide) (by decide) front
    · rcases mem_cons.mp back with same | later
      · exact absurd same (by decide)
      · exact plain later
  have dash : splitOnce '-' (core major minor patch ++ '-' :: prerelease) =
      some (core major minor patch, prerelease) :=
    splitOnce_eq_some.mpr ⟨rfl, not_mem_core (by decide) (by decide)⟩
  rw [read, plus]
  simp only [Option.map_none, Option.getD_none, dash, splitOn_core, readNumber_decimal,
    Option.bind_eq_bind, Option.bind_some, Option.pure_def]

end Semver
