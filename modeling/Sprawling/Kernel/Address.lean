import Sprawling.Base.OrdMap
import Sprawling.Base.Text
import Sprawling.Kernel.Error

namespace Sprawling

namespace Address

/-- Unicode's control characters. -/
def isControl (c : Char) : Bool :=
  c.toNat < 0x20 || (0x7F ≤ c.toNat && c.toNat ≤ 0x9F)

/-- The clause one segment of an address breaks. -/
def refuseSegment (segment : List Char) : Option String :=
  if segment.isEmpty then some "address contains an empty segment"
  else if segment = ['.'] ∨ segment = ['.', '.'] then
    some "address contains a `.` or `..` segment"
  else if segment.getLast? = some '.' || segment.getLast?.any Text.isWhitespace then
    some ("a segment ends with a dot or whitespace, which some file systems drop, "
      ++ "making this address a second spelling of a different one")
  else none

/-- The clause an address text breaks, in the order they are asked. -/
def refuse (raw : List Char) : Option String :=
  if raw.isEmpty then some "address is empty"
  else if raw.head? = some '/' then some "address is absolute"
  else if '\\' ∈ raw then some "address contains a backslash"
  else if ':' ∈ raw then some "address contains `:`"
  else if raw.any isControl then some "address contains a control character"
  else (raw.splitOn '/').findSome? refuseSegment

end Address

/-- A canonical relative path. Nothing is normalised, so `text` is what was parsed. -/
structure Address where
  text : List Char
  canonical : Address.refuse text = none
deriving DecidableEq

namespace Address

def parse (raw : List Char) : Except AxError Address :=
  match broken : refuse raw with
  | none => .ok ⟨raw, broken⟩
  | some violation => .error (.failure .invalidArgs "parse address" (String.ofList raw)
      (violation ++ "; use a canonical relative path: `/`-separated segments without "
        ++ "`.`/`..`, backslash, `:`, or control characters"))

/-- The address is another one or lies under it on a segment boundary. -/
def isWithin (addr outer : Address) : Bool :=
  if outer.text.isPrefixOf addr.text then
    match addr.text.drop outer.text.length with
    | [] => true
    | c :: _ => c = '/'
  else false

theorem parse_text (addr : Address) : parse addr.text = .ok addr := by
  unfold parse
  split
  · rfl
  · next violation broken =>
      rw [addr.canonical] at broken
      cases broken

theorem ext_text {first second : Address} (same : first.text = second.text) : first = second := by
  cases first
  cases second
  cases same
  rfl

instance : Ord Address := ⟨fun first second => compare first.text second.text⟩

theorem compare_def (first second : Address) :
    compare first second = compare first.text second.text := rfl

instance : Std.TransOrd Address := OrdMap.transOrd_of_key compare_def

instance : Std.LawfulEqOrd Address := OrdMap.lawfulEqOrd_of_key compare_def fun _ _ => ext_text

end Address

end Sprawling
