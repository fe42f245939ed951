import Mathlib.Data.List.Nodup
import Mathlib.Tactic.IntervalCases

namespace Sprawling

open List Option

/-- A digest of a fixed number of bytes. -/
structure Digest (width : Nat) where
  bytes : List UInt8
  sized : bytes.length = width
deriving DecidableEq

abbrev B3Hash := Digest 32

abbrev GitOid := Digest 20

namespace Digest

variable {width : Nat}

theorem ext_bytes {first second : Digest width} (same : first.bytes = second.bytes) :
    first = second := by
  cases first
  cases second
  cases same
  rfl

theorem zeros_sized : (List.replicate 32 (0 : UInt8)).length = 32 := rfl

def hexDigit (value : Nat) : Char :=
  if value < 10 then Char.ofNat ('0'.toNat + value) else Char.ofNat ('a'.toNat + (value - 10))

/-- Two lowercase hex digits a byte. -/
def writeHex (bytes : List UInt8) : List Char :=
  bytes.flatMap fun byte => [hexDigit (byte.toNat / 16), hexDigit (byte.toNat % 16)]

/-- Lowercase only; an uppercase digit is refused. -/
def nibble (c : Char) : Option Nat :=
  if '0'.toNat ≤ c.toNat ∧ c.toNat ≤ '9'.toNat then some (c.toNat - '0'.toNat)
  else if 'a'.toNat ≤ c.toNat ∧ c.toNat ≤ 'f'.toNat then some (c.toNat - 'a'.toNat + 10)
  else none

def decodeHex : List Char → Option (List UInt8)
  | [] => some []
  | [_] => none
  | high :: low :: rest => do
      let upper ← nibble high
      let lower ← nibble low
      let bytes ← decodeHex rest
      return UInt8.ofNat (upper * 16 + lower) :: bytes

/-- Strict lowercase hex of exactly `width` bytes. -/
def decodeHexFixed (width : Nat) (raw : List Char) : Option (Digest width) :=
  if raw.length ≠ width * 2 then none
  else do
    let bytes ← decodeHex raw
    if sized : bytes.length = width then some ⟨bytes, sized⟩ else none

def display {width : Nat} (digest : Digest width) : List Char := writeHex digest.bytes

def hexDigits : List Char := (List.range 16).map hexDigit

theorem forall_hexDigits {p : Char → Prop} [DecidablePred p]
    (checked : hexDigits.all (fun c => p c) = true) : ∀ c ∈ hexDigits, p c :=
  fun c member => of_decide_eq_true (all_eq_true.mp checked c member)

variable {value : Nat}

theorem mem_hexDigits (bounded : value < 16) : hexDigit value ∈ hexDigits :=
  mem_map_of_mem (mem_range.mpr bounded)

theorem mem_hexDigits_of_mem_writeHex {bytes : List UInt8} {c : Char}
    (member : c ∈ writeHex bytes) : c ∈ hexDigits := by
  rcases mem_flatMap.mp member with ⟨byte, -, inside⟩
  have small : byte.toNat < 256 := byte.toNat_lt
  simp only [mem_cons, not_mem_nil, or_false] at inside
  rcases inside with rfl | rfl
  · exact mem_hexDigits (by omega)
  · exact mem_hexDigits (by omega)

theorem length_writeHex (bytes : List UInt8) : (writeHex bytes).length = 2 * bytes.length := by
  induction bytes with
  | nil => rfl
  | cons byte bytes ih =>
    show (_ :: _ :: writeHex bytes).length = _
    simp only [length_cons, ih]
    omega

theorem nibble_hexDigit (bounded : value < 16) :
    nibble (hexDigit value) = some value := by
  interval_cases value <;> decide

theorem decodeHex_writeHex (bytes : List UInt8) : decodeHex (writeHex bytes) = some bytes := by
  induction bytes with
  | nil => rfl
  | cons byte bytes ih =>
    have small : byte.toNat < 256 := byte.toNat_lt
    have value : byte.toNat / 16 * 16 + byte.toNat % 16 = byte.toNat := by omega
    show decodeHex (_ :: _ :: writeHex bytes) = _
    simp only [decodeHex, nibble_hexDigit (show byte.toNat / 16 < 16 by omega),
      nibble_hexDigit (show byte.toNat % 16 < 16 by omega), ih, value, bind_eq_bind,
      bind_some, Option.pure_def, UInt8.ofNat_toNat]

theorem decodeHexFixed_display (digest : Digest width) :
    decodeHexFixed width digest.display = some digest := by
  have length : digest.display.length = width * 2 := by
    rw [display, length_writeHex, digest.sized]
    omega
  rw [decodeHexFixed, if_neg (not_not_intro length), display, decodeHex_writeHex]
  simp only [bind_eq_bind, bind_some, digest.sized, dite_true]

theorem writeHex_injective {first second : List UInt8} (same : writeHex first = writeHex second) :
    first = second := by
  have decoded := congrArg decodeHex same
  rw [decodeHex_writeHex, decodeHex_writeHex] at decoded
  exact Option.some.inj decoded

/-- The digest of bytes: the one the table gives, and for any other bytes one that is longer. -/
def tabled (known : List (List UInt8 × List UInt8)) (bytes : List UInt8) : List UInt8 :=
  (known.lookup bytes).getD (List.replicate 33 0 ++ bytes)

/-- Known digests of the length BLAKE3 answers, no two of them the same. -/
def Distinct (known : List (List UInt8 × List UInt8)) : Prop :=
  (∀ entry ∈ known, entry.2.length = 32) ∧ (known.map Prod.snd).Nodup

instance (known : List (List UInt8 × List UInt8)) : Decidable (Distinct known) :=
  inferInstanceAs (Decidable ((∀ entry ∈ known, entry.2.length = 32) ∧ _))

variable {known : List (List UInt8 × List UInt8)}

theorem mem_of_lookup {bytes digest : List UInt8}
    (found : known.lookup bytes = some digest) : (bytes, digest) ∈ known := by
  induction known with
  | nil => cases found
  | cons entry rest ih =>
    rw [lookup_cons] at found
    split at found
    · next same =>
        cases found
        rw [eq_of_beq same]
        exact mem_cons_self
    · exact mem_cons_of_mem _ (ih found)

theorem lookup_injective (distinct : (known.map Prod.snd).Nodup)
    {first second digest : List UInt8} (left : known.lookup first = some digest)
    (right : known.lookup second = some digest) : first = second := by
  have left := mem_of_lookup left
  have right := mem_of_lookup right
  have same := inj_on_of_nodup_map distinct left right rfl
  exact congrArg Prod.fst same

theorem tabled_injective (distinct : Distinct known) :
    Function.Injective (tabled known) := by
  intro first second same
  simp only [tabled] at same
  cases left : known.lookup first with
  | some digest =>
    have short := distinct.1 _ (mem_of_lookup left)
    cases right : known.lookup second with
    | some other =>
      simp only [left, right, getD_some] at same
      exact lookup_injective distinct.2 left (same ▸ right)
    | none =>
      simp only [left, right, getD_some, getD_none] at same
      rw [same] at short
      simp at short
  | none =>
    cases right : known.lookup second with
    | some other =>
      have short := distinct.1 _ (mem_of_lookup right)
      simp only [left, right, getD_some, getD_none] at same
      rw [← same] at short
      simp at short
    | none =>
      simp only [left, right, getD_none] at same
      exact append_cancel_left same

end Digest

end Sprawling
