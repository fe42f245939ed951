import Sprawling.Base.OrdMap
import Sprawling.Kernel.Digest
import Sprawling.Kernel.Error

namespace Sprawling

open List Digest

/-- A run's identity: the sixteen bytes of a uuid. -/
structure RunId where
  bytes : Digest 16
deriving DecidableEq

namespace RunId

theorem ones_sized : (List.replicate 16 (1 : UInt8)).length = 16 := rfl

instance : Ord RunId := ⟨fun first second => compare first.bytes.bytes second.bytes.bytes⟩

theorem compare_def (first second : RunId) :
    compare first second = compare first.bytes.bytes second.bytes.bytes := rfl

instance : Std.TransOrd RunId := OrdMap.transOrd_of_key compare_def

instance : Std.LawfulEqOrd RunId := OrdMap.lawfulEqOrd_of_key compare_def fun first second same => by
  cases first
  cases second
  exact congrArg RunId.mk (ext_bytes same)

def city : RunId := ⟨⟨List.replicate 16 0, rfl⟩⟩

/-- The hyphenated lower-case spelling. -/
def display (run : RunId) : List Char :=
  let hex := run.bytes.display
  hex.take 8 ++ '-' :: (hex.drop 8).take 4 ++ '-' :: (hex.drop 12).take 4
    ++ '-' :: (hex.drop 16).take 4 ++ '-' :: hex.drop 20

def refused (raw : List Char) : AxError :=
  .failure .invalidArgs "parse run id" (String.ofList raw)
    "use the hyphenated lower-case uuid this city writes, as `0198f6a2-7c4a-7bbb-9d1e-000000000001`"

/-- Only the spelling this city writes is read. -/
def parse (raw : List Char) : Except AxError RunId :=
  match decodeHexFixed 16 (raw.filter (· ≠ '-')) with
  | some bytes => if display ⟨bytes⟩ = raw then .ok ⟨bytes⟩ else .error (refused raw)
  | none => .error (refused raw)

theorem hyphen_not_mem_hex (bytes : Digest 16) : '-' ∉ bytes.display := by
  intro member
  have inside := mem_hexDigits_of_mem_writeHex member
  revert inside
  decide

theorem filter_display (run : RunId) : run.display.filter (· ≠ '-') = run.bytes.display := by
  have plain : ∀ part : List Char, (∀ c ∈ part, c ∈ run.bytes.display) →
      part.filter (· ≠ '-') = part := by
    intro part inside
    rw [filter_eq_self]
    intro c member
    have absent := hyphen_not_mem_hex run.bytes
    have : c ≠ '-' := fun same => absent (same ▸ inside c member)
    simpa using this
  have whole : run.bytes.display =
      run.bytes.display.take 8 ++ (run.bytes.display.drop 8).take 4
        ++ (run.bytes.display.drop 12).take 4 ++ (run.bytes.display.drop 16).take 4
        ++ run.bytes.display.drop 20 := by
    have first := take_append_drop 8 run.bytes.display
    have second := take_append_drop 4 (run.bytes.display.drop 8)
    have third := take_append_drop 4 (run.bytes.display.drop 12)
    have fourth := take_append_drop 4 (run.bytes.display.drop 16)
    simp only [drop_drop] at second third fourth
    rw [append_assoc, append_assoc, append_assoc, fourth, third, second, first]
  simp only [display, filter_append, filter_cons, ne_eq, not_true_eq_false,
    decide_false, Bool.false_eq_true, if_false]
  rw [plain _ fun c member => mem_of_mem_take member,
    plain _ fun c member => mem_of_mem_drop (mem_of_mem_take member),
    plain _ fun c member => mem_of_mem_drop (mem_of_mem_take member),
    plain _ fun c member => mem_of_mem_drop (mem_of_mem_take member),
    plain _ fun c member => mem_of_mem_drop member]
  exact whole.symm

theorem parse_display (run : RunId) : parse run.display = .ok run := by
  simp only [parse, filter_display, decodeHexFixed_display, if_pos]

theorem space_not_mem_display (run : RunId) : ' ' ∉ run.display := by
  have absent : ' ' ∉ run.bytes.display := by
    intro member
    have inside := mem_hexDigits_of_mem_writeHex member
    revert inside
    decide
  intro member
  simp only [display, mem_append, mem_cons] at member
  apply absent
  rcases member with (((inside | spelled | inside) | spelled | inside) | spelled | inside) |
    spelled | inside
  · exact mem_of_mem_take inside
  · exact absurd spelled (by decide)
  · exact mem_of_mem_drop (mem_of_mem_take inside)
  · exact absurd spelled (by decide)
  · exact mem_of_mem_drop (mem_of_mem_take inside)
  · exact absurd spelled (by decide)
  · exact mem_of_mem_drop (mem_of_mem_take inside)
  · exact absurd spelled (by decide)
  · exact mem_of_mem_drop inside

end RunId

end Sprawling
