import Sprawling.Base.OrdMap
import Sprawling.Base.Text
import Sprawling.Kernel.Digest

namespace Sprawling

open Digest

/-- The identity of one command, minted by its sender. There is one derivation, and its number is
part of the spelling. -/
structure IdemKey where
  digest : Digest 16
deriving DecidableEq

namespace IdemKey

instance : Ord IdemKey := ⟨fun first second => compare first.digest.bytes second.digest.bytes⟩

theorem compare_def (first second : IdemKey) :
    compare first second = compare first.digest.bytes second.digest.bytes := rfl

instance : Std.TransOrd IdemKey := OrdMap.transOrd_of_key compare_def

instance : Std.LawfulEqOrd IdemKey := OrdMap.lawfulEqOrd_of_key compare_def fun first second same => by
  cases first
  cases second
  exact congrArg IdemKey.mk (ext_bytes same)

def display (key : IdemKey) : List Char := "idem1-".toList ++ key.digest.display

def parse (raw : List Char) : Option IdemKey := do
  let rest ← if "idem".toList.isPrefixOf raw then some (raw.drop 4) else none
  let (version, hex) ← Text.splitOnce '-' rest
  if version = ['1'] then (decodeHexFixed 16 hex).map IdemKey.mk else none

theorem parse_display (key : IdemKey) : parse key.display = some key := by
  have inner : Text.splitOnce '-' ('1' :: '-' :: key.digest.display) =
      some (['1'], key.digest.display) := by
    rw [Text.splitOnce_eq_some]
    exact ⟨rfl, by decide⟩
  have spelled : key.display = "idem".toList ++ '1' :: '-' :: key.digest.display := rfl
  have front : "idem".toList.isPrefixOf key.display = true := by
    rw [spelled, List.isPrefixOf_iff_prefix]
    exact List.prefix_append _ _
  have rest : key.display.drop 4 = '1' :: '-' :: key.digest.display := rfl
  simp only [parse, front, if_true, rest, Option.bind_eq_bind, Option.bind_some, inner,
    decodeHexFixed_display, Option.map_some]

end IdemKey

end Sprawling
