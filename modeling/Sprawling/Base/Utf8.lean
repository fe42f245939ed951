import Mathlib.Algebra.GroupWithZero.Nat
import Mathlib.Data.List.Basic

/-! Text as UTF-8 bytes, and where a byte offset may split it. -/

namespace Utf8

open List

def byteLen (text : List Char) : Nat := (text.map Char.utf8Size).sum

def encode (text : List Char) : List UInt8 := text.flatMap String.utf8EncodeChar

/-- The text some bytes spell, if they spell one. -/
def decode (bytes : List UInt8) : Option (List Char) :=
  (ByteArray.mk bytes.toArray).utf8Decode?.map Array.toList

/-- The two sides of a byte offset, if it is between characters. -/
def splitAtChecked : List Char → Nat → Option (List Char × List Char)
  | text, 0 => some ([], text)
  | [], _ + 1 => none
  | c :: rest, at_ + 1 =>
    if c.utf8Size ≤ at_ + 1 then
      (splitAtChecked rest (at_ + 1 - c.utf8Size)).map fun sides => (c :: sides.1, sides.2)
    else none

@[simp] theorem byteLen_nil : byteLen [] = 0 := rfl

@[simp] theorem byteLen_cons (c : Char) (text : List Char) :
    byteLen (c :: text) = c.utf8Size + byteLen text := by
  simp only [byteLen, map_cons, sum_cons]

@[simp] theorem byteLen_append (first second : List Char) :
    byteLen (first ++ second) = byteLen first + byteLen second := by
  simp only [byteLen, map_append, sum_append]

@[simp] theorem length_encode (text : List Char) : (encode text).length = byteLen text := by
  induction text with
  | nil => rfl
  | cons c text ih =>
    rw [encode, flatMap_cons, length_append, String.length_utf8EncodeChar, byteLen_cons]
    exact congrArg _ ih

theorem encode_append (first second : List Char) :
    encode (first ++ second) = encode first ++ encode second := flatMap_append ..

variable {text : List Char}

theorem byteLen_eq_zero : byteLen text = 0 ↔ text = [] := by
  cases text with
  | nil => simp
  | cons c text =>
    have wide := c.utf8Size_pos
    simp only [byteLen_cons, reduceCtorEq, iff_false]
    omega

theorem decode_encode (text : List Char) : decode (encode text) = some text := by
  have whole : ByteArray.mk (encode text).toArray = text.utf8Encode := by
    rw [List.utf8Encode]
    apply ByteArray.ext
    simp [encode]
  rw [decode, whole, utf8Decode?_utf8Encode]
  rfl

theorem encode_of_decode {bytes : List UInt8} (spelt : decode bytes = some text) :
    encode text = bytes := by
  rw [decode, Option.map_eq_some_iff] at spelt
  obtain ⟨chars, decoded, rfl⟩ := spelt
  have present : (ByteArray.mk bytes.toArray).utf8Decode?.isSome := by
    rw [decoded]
    rfl
  have back := ByteArray.utf8Encode_get_utf8Decode? (h := present)
  simp only [decoded, Option.get_some, List.utf8Encode] at back
  have same := congrArg (fun all => all.data.toList) back
  simpa [encode] using same

theorem splitAtChecked_zero (text : List Char) : splitAtChecked text 0 = some ([], text) := by
  cases text <;> rfl

variable {offset : Nat}

/-- An offset splits a text exactly where one of its pieces ends. -/
theorem splitAtChecked_eq_some {text head tail : List Char} :
    splitAtChecked text offset = some (head, tail) ↔ text = head ++ tail ∧ byteLen head = offset := by
  induction text generalizing head offset with
  | nil =>
    cases offset with
    | zero =>
      simp only [splitAtChecked, Option.some.injEq, Prod.mk.injEq]
      constructor
      · rintro ⟨rfl, rfl⟩
        exact ⟨rfl, rfl⟩
      · rintro ⟨whole, -⟩
        have empty := append_eq_nil_iff.mp whole.symm
        exact ⟨empty.1.symm, empty.2.symm⟩
    | succ offset =>
      simp only [splitAtChecked, reduceCtorEq, false_iff]
      rintro ⟨whole, size⟩
      have empty := append_eq_nil_iff.mp whole.symm
      rw [empty.1] at size
      cases size
  | cons c rest ih =>
    cases offset with
    | zero =>
      rw [splitAtChecked_zero, Option.some.injEq, Prod.mk.injEq]
      constructor
      · rintro ⟨rfl, rfl⟩
        exact ⟨rfl, rfl⟩
      · rintro ⟨whole, size⟩
        rw [byteLen_eq_zero.mp size] at whole
        exact ⟨(byteLen_eq_zero.mp size).symm, whole⟩
    | succ offset =>
      simp only [splitAtChecked]
      split
      · next fits =>
          rw [Option.map_eq_some_iff]
          constructor
          · rintro ⟨⟨before, after⟩, split, same⟩
            cases same
            have inner := ih.mp split
            have size := inner.2
            refine ⟨by rw [inner.1]; rfl, ?_⟩
            show byteLen (c :: before) = offset + 1
            rw [byteLen_cons]
            omega
          · rintro ⟨whole, size⟩
            cases head with
            | nil => cases size
            | cons d head =>
              cases whole
              rw [byteLen_cons] at size
              exact ⟨(head, tail), ih.mpr ⟨rfl, by omega⟩, rfl⟩
      · next wide =>
          simp only [reduceCtorEq, false_iff]
          rintro ⟨whole, size⟩
          cases head with
          | nil => cases size
          | cons d head =>
            cases whole
            rw [byteLen_cons] at size
            omega

/-- An offset between two characters of a text. -/
def IsBoundary (text : List Char) (offset : Nat) : Prop :=
  ∃ head tail, text = head ++ tail ∧ byteLen head = offset

theorem isBoundary_zero (text : List Char) : IsBoundary text 0 := ⟨[], text, rfl, rfl⟩

theorem isBoundary_end (text : List Char) : IsBoundary text (byteLen text) :=
  ⟨text, [], (append_nil text).symm, rfl⟩

theorem IsBoundary.cons {text : List Char} {offset : Nat} (c : Char)
    (inside : IsBoundary text offset) : IsBoundary (c :: text) (c.utf8Size + offset) := by
  obtain ⟨head, tail, rfl, rfl⟩ := inside
  exact ⟨c :: head, tail, rfl, byteLen_cons c head⟩

variable {byte : UInt8}

theorem utf8EncodeChar_of_ascii {c : Char} (member : byte ∈ String.utf8EncodeChar c)
    (ascii : byte.toNat < 128) : String.utf8EncodeChar c = [byte] := by
  simp only [String.utf8EncodeChar] at member ⊢
  split
  · next small =>
      rw [if_pos small] at member
      rw [mem_singleton.mp member]
  · next large =>
      rw [if_neg large] at member
      exfalso
      split at member
      · simp only [mem_cons, not_mem_nil, or_false] at member
        rcases member with rfl | rfl <;> simp only [UInt8.toNat_ofNat'] at ascii <;> omega
      · split at member
        · simp only [mem_cons, not_mem_nil, or_false] at member
          rcases member with rfl | rfl | rfl <;> simp only [UInt8.toNat_ofNat'] at ascii <;> omega
        · simp only [mem_cons, not_mem_nil, or_false] at member
          rcases member with rfl | rfl | rfl | rfl <;>
            simp only [UInt8.toNat_ofNat'] at ascii <;> omega

/-- A byte below 128 is the character it spells. -/
theorem toNat_of_ascii {c : Char} (member : byte ∈ String.utf8EncodeChar c)
    (ascii : byte.toNat < 128) : byte.toNat = c.toNat := by
  have single := utf8EncodeChar_of_ascii member ascii
  have size : (String.utf8EncodeChar c).length = 1 := by
    rw [single]
    rfl
  simp only [String.utf8EncodeChar] at single size
  split at single
  · next small =>
      have same := singleton_inj.mp single
      rw [← same, UInt8.toNat_ofNat', Char.toNat, Nat.mod_eq_of_lt]
      omega
  · next large =>
      rw [if_neg large] at size
      repeat' split at size
      all_goals cases size

/-- A byte below 128 stands between two boundaries. -/
theorem isBoundary_of_ascii
    (found : (encode text)[offset]? = some byte) (ascii : byte.toNat < 128) :
    IsBoundary text offset ∧ IsBoundary text (offset + 1) := by
  induction text generalizing offset with
  | nil => cases found
  | cons c text ih =>
    rw [encode, flatMap_cons] at found
    have size := String.length_utf8EncodeChar c
    by_cases inside : offset < c.utf8Size
    · rw [getElem?_append_left (by omega)] at found
      have single := utf8EncodeChar_of_ascii (mem_of_getElem? found) ascii
      rw [single, length_singleton] at size
      have first : offset = 0 := by omega
      rw [first]
      refine ⟨isBoundary_zero _, ?_⟩
      have next := (isBoundary_zero text).cons c
      rwa [← size] at next
    · rw [getElem?_append_right (by omega), size] at found
      have later := ih found
      have moved : c.utf8Size + (offset - c.utf8Size) = offset := by omega
      have here := later.1.cons c
      have next := later.2.cons c
      rw [moved] at here
      rw [← Nat.add_assoc, moved] at next
      exact ⟨here, next⟩

/-- What stands between two boundaries is a text. -/
theorem decode_between {start stop : Nat} (order : start ≤ stop)
    (first : IsBoundary text start) (last : IsBoundary text stop) :
    ∃ piece, decode (((encode text).take stop).drop start) = some piece ∧
      encode piece = ((encode text).take stop).drop start := by
  obtain ⟨before, after, whole, startIs⟩ := first
  obtain ⟨upto, beyond, same, stopIs⟩ := last
  have inside : before <+: upto := by
    rcases Nat.le_total before.length upto.length with shorter | longer
    · exact prefix_of_prefix_length_le ⟨after, whole.symm⟩ ⟨beyond, same.symm⟩ shorter
    · obtain ⟨extra, joined⟩ :=
        prefix_of_prefix_length_le ⟨beyond, same.symm⟩ ⟨after, whole.symm⟩ longer
      have size := congrArg byteLen joined
      rw [byteLen_append] at size
      have none_more : extra = [] := byteLen_eq_zero.mp (by omega)
      rw [none_more, append_nil] at joined
      exact ⟨[], by rw [append_nil, joined]⟩
  obtain ⟨piece, joined⟩ := inside
  have written : ((encode text).take stop).drop start = encode piece := by
    rw [same, encode_append, take_left' (by rw [length_encode, stopIs]), ← joined, encode_append,
      drop_left' (by rw [length_encode, startIs])]
  exact ⟨piece, by rw [written, decode_encode], written.symm⟩

end Utf8
