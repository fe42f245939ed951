import Sprawling.Base.Coding
import Sprawling.Documents.Encoding

/-! Where the characters of a version begin: each encoding spells a text character by character, and
the bytes from an offset on show whether a character begins there. -/

namespace Sprawling.Documents

open List Option Word

/-- A version as a machine holds it: no more bytes than an offset can count. -/
structure Held where
  bytes : Bytes
  counted : bytes.length < u64Values

/-! ### UTF-16 -/

theorem toNat_valid (character : Char) :
    character.toNat < 0xD800 ∨ 0xDFFF < character.toNat ∧ character.toNat < 0x110000 :=
  character.valid

theorem toNat_lt (character : Char) : character.toNat < 0x110000 := by
  have valid := toNat_valid character
  omega

variable {unit : Nat}

theorem encodeUtf16_lt {character : Char} (member : unit ∈ encodeUtf16 character) :
    unit < 0x10000 := by
  have bound := toNat_lt character
  unfold encodeUtf16 at member
  split at member
  · next small => rwa [mem_singleton.mp member]
  · next wide =>
      simp only [mem_cons, not_mem_nil, or_false] at member
      rcases member with same | same <;> omega

variable {rest : List Nat}

theorem decodeUtf16_plain (plain : unit < 0xD800 ∨ 0xDFFF < unit) :
    decodeUtf16 (unit :: rest) = (decodeUtf16 rest).map (Char.ofNat unit :: ·) := by
  rw [decodeUtf16.eq_def]
  exact if_pos plain

theorem decodeUtf16_pair {low : Nat} (high : 0xD800 ≤ unit ∧ unit < 0xDC00)
    (follows : 0xDC00 ≤ low ∧ low ≤ 0xDFFF) :
    decodeUtf16 (unit :: low :: rest) = (decodeUtf16 rest).map
      (Char.ofNat (0x10000 + (unit - 0xD800) * 0x400 + (low - 0xDC00)) :: ·) := by
  have special : ¬(unit < 0xD800 ∨ 0xDFFF < unit) := by omega
  have leading : ¬0xDC00 ≤ unit := by omega
  rw [decodeUtf16.eq_def]
  simp only [if_neg special, if_neg leading, if_pos follows]

theorem decodeUtf16_encodeUtf16 (character : Char) (rest : List Nat) :
    decodeUtf16 (encodeUtf16 character ++ rest) = (decodeUtf16 rest).map (character :: ·) := by
  have valid := toNat_valid character
  unfold encodeUtf16
  split
  · next small =>
      have plain : character.toNat < 0xD800 ∨ 0xDFFF < character.toNat := by omega
      rw [singleton_append, decodeUtf16_plain plain, Char.ofNat_toNat]
  · next wide =>
      have high : 0xD800 ≤ 0xD800 + (character.toNat - 0x10000) / 0x400 ∧
          0xD800 + (character.toNat - 0x10000) / 0x400 < 0xDC00 := by omega
      have low : 0xDC00 ≤ 0xDC00 + (character.toNat - 0x10000) % 0x400 ∧
          0xDC00 + (character.toNat - 0x10000) % 0x400 ≤ 0xDFFF := by omega
      have same : 0x10000 + (0xD800 + (character.toNat - 0x10000) / 0x400 - 0xD800) * 0x400 +
          (0xDC00 + (character.toNat - 0x10000) % 0x400 - 0xDC00) = character.toNat := by omega
      rw [cons_append, singleton_append, decodeUtf16_pair high low, same, Char.ofNat_toNat]

theorem decodeUtf16_flatMap (text : List Char) :
    decodeUtf16 (text.flatMap encodeUtf16) = some text := by
  induction text with
  | nil => rfl
  | cons character text ih => rw [flatMap_cons, decodeUtf16_encodeUtf16, ih, map_some]

theorem toNat_ofNat_of_valid (valid : unit.isValidChar) : (Char.ofNat unit).toNat = unit := by
  rw [Char.ofNat, dif_pos valid]
  rfl

variable {text : List Char} {units : List Nat}

theorem encodeUtf16_of_decodeUtf16 (bounded : ∀ unit ∈ units, unit < 0x10000)
    (decoded : decodeUtf16 units = some text) : text.flatMap encodeUtf16 = units := by
  induction units using decodeUtf16.induct generalizing text with
  | case1 =>
    cases decoded
    rfl
  | case2 unit rest plain ih =>
    rw [decodeUtf16_plain plain, map_eq_some_iff] at decoded
    obtain ⟨later, found, rfl⟩ := decoded
    have small := bounded unit mem_cons_self
    have valid : unit.isValidChar := by
      unfold Nat.isValidChar
      omega
    rw [flatMap_cons, ih (fun other member => bounded other (mem_cons_of_mem _ member))
      found, encodeUtf16, toNat_ofNat_of_valid valid, if_pos small, singleton_append]
  | case3 unit rest special low =>
    rw [decodeUtf16.eq_def] at decoded
    simp only [if_neg special, if_pos low, reduceCtorEq] at decoded
  | case4 unit special leading =>
    rw [decodeUtf16.eq_def] at decoded
    simp only [if_neg special, if_neg leading, reduceCtorEq] at decoded
  | case5 unit special leading low rest follows ih =>
    have paired : 0xD800 ≤ unit ∧ unit < 0xDC00 := by omega
    rw [decodeUtf16_pair paired follows, map_eq_some_iff] at decoded
    obtain ⟨later, found, rfl⟩ := decoded
    have valid : (0x10000 + (unit - 0xD800) * 0x400 + (low - 0xDC00)).isValidChar := by
      unfold Nat.isValidChar
      omega
    have wide : ¬0x10000 + (unit - 0xD800) * 0x400 + (low - 0xDC00) < 0x10000 := by omega
    have high : 0xD800 + (0x10000 + (unit - 0xD800) * 0x400 + (low - 0xDC00) - 0x10000) / 0x400 =
        unit := by omega
    have lower : 0xDC00 +
        (0x10000 + (unit - 0xD800) * 0x400 + (low - 0xDC00) - 0x10000) % 0x400 = low := by omega
    have later_bounded : ∀ other ∈ rest, other < 0x10000 := fun other member =>
      bounded other (mem_cons_of_mem _ (mem_cons_of_mem _ member))
    rw [flatMap_cons, ih later_bounded found, encodeUtf16, toNat_ofNat_of_valid valid,
      if_neg wide, high, lower]
    rfl
  | case6 unit special leading low rest lone =>
    rw [decodeUtf16.eq_def] at decoded
    simp only [if_neg special, if_neg leading, if_neg lone, reduceCtorEq] at decoded

variable {bytes : Bytes}

theorem pairs_eq_some {found : List (UInt8 × UInt8)} :
    pairs bytes = some found ↔ bytes = found.flatMap fun pair => [pair.1, pair.2] := by
  induction bytes using pairs.induct generalizing found with
  | case1 =>
    cases found with
    | nil => simp [pairs]
    | cons pair found => simp [pairs]
  | case2 byte =>
    cases found with
    | nil => simp [pairs]
    | cons pair found => simp [pairs]
  | case3 first second rest ih =>
    rw [pairs, map_eq_some_iff]
    cases found with
    | nil => simp
    | cons pair found =>
      rw [flatMap_cons, cons_append, cons_append, nil_append]
      constructor
      · rintro ⟨later, same, joined⟩
        cases joined
        rw [← ih.mp same]
      · intro same
        injection same with first_eq same
        injection same with second_eq same
        exact ⟨found, ih.mpr same, by rw [first_eq, second_eq]⟩

/-! ### The four encodings -/

theorem decode_eq_some : Utf8.decode bytes = some text ↔ Utf8.encode text = bytes := by
  constructor
  · exact Utf8.encode_of_decode
  · rintro rfl
    exact Utf8.decode_encode text

theorem zero_mem_encode : 0 ∈ Utf8.encode text ↔ Char.ofNat 0 ∈ text := by
  rw [Utf8.encode, mem_flatMap]
  constructor
  · rintro ⟨character, member, found⟩
    have same := Utf8.toNat_of_ascii found (by decide)
    rw [← Char.ofNat_toNat character, ← same] at member
    exact member
  · intro member
    exact ⟨_, member, by decide⟩

theorem continues_iff (byte : UInt8) :
    (byte &&& 0xC0 != 0x80) =
      !(Decidable.decide (128 ≤ byte.toNat) && Decidable.decide (byte.toNat < 192)) := by
  have every : ∀ value : Fin 256, (UInt8.ofFin value &&& 0xC0 != 0x80) =
      !(Decidable.decide (128 ≤ value.val) && Decidable.decide (value.val < 192)) := by
    decide +kernel
  exact every byte.toFin

theorem utf8EncodeChar_shows (character : Char) :
    ∃ first rest, String.utf8EncodeChar character = first :: rest ∧
      (first &&& 0xC0 != 0x80) = true ∧ ∀ byte ∈ rest, (byte &&& 0xC0 != 0x80) = false := by
  have bound : character.val.toNat < 0x110000 := toNat_lt character
  simp only [continues_iff, Bool.not_eq_true', Bool.not_eq_false', Bool.and_eq_true,
    Bool.and_eq_false_iff, decide_eq_true_eq, decide_eq_false_iff_not]
  unfold String.utf8EncodeChar
  simp only
  split
  · refine ⟨_, [], rfl, ?_, fun byte member => nomatch member⟩
    rw [UInt8.toNat_ofNat']
    omega
  · split
    · refine ⟨_, _, rfl, ?_, ?_⟩
      · rw [UInt8.toNat_ofNat']
        omega
      · intro byte member
        rw [mem_singleton.mp member, UInt8.toNat_ofNat']
        omega
    · split
      · refine ⟨_, _, rfl, ?_, ?_⟩
        · rw [UInt8.toNat_ofNat']
          omega
        · intro byte member
          simp only [mem_cons, not_mem_nil, or_false] at member
          rcases member with same | same <;> rw [same, UInt8.toNat_ofNat'] <;> omega
      · refine ⟨_, _, rfl, ?_, ?_⟩
        · rw [UInt8.toNat_ofNat']
          omega
        · intro byte member
          simp only [mem_cons, not_mem_nil, or_false] at member
          rcases member with same | same | same <;> rw [same, UInt8.toNat_ofNat'] <;> omega

theorem encodeUtf16_shows (character : Char) :
    (∃ unit, encodeUtf16 character = [unit] ∧ unit < 0x10000 ∧ ¬(0xDC00 ≤ unit ∧ unit ≤ 0xDFFF)) ∨
      ∃ high low, encodeUtf16 character = [high, low] ∧ high < 0xDC00 ∧
        0xDC00 ≤ low ∧ low ≤ 0xDFFF := by
  have valid := toNat_valid character
  unfold encodeUtf16
  split
  · next small =>
      exact .inl ⟨_, rfl, small, by omega⟩
  · next wide =>
      exact .inr ⟨_, _, rfl, by omega, by omega, by omega⟩

namespace Encoding

/-- How many bytes its units have. -/
def width : Encoding → Nat
  | utf8 | utf8Bom => 1
  | utf16Le | utf16Be => 2

/-- The bytes of one unit of UTF-16. -/
def unitBytes (encoding : Encoding) (unit : Nat) : Bytes :=
  match encoding with
  | utf16Be => [UInt8.ofNat (unit / 256), UInt8.ofNat (unit % 256)]
  | utf8 | utf8Bom | utf16Le => [UInt8.ofNat (unit % 256), UInt8.ofNat (unit / 256)]

/-- The bytes of one character. -/
def spelling (encoding : Encoding) (character : Char) : Bytes :=
  match encoding with
  | utf8 | utf8Bom => String.utf8EncodeChar character
  | utf16Le | utf16Be => (encodeUtf16 character).flatMap encoding.unitBytes

/-- Whether the front of a stretch of whole units is the front of a character. -/
def opens (encoding : Encoding) (bytes : Bytes) : Bool :=
  match encoding with
  | utf8 | utf8Bom => bytes.head?.any fun byte => byte &&& 0xC0 != 0x80
  | utf16Le | utf16Be =>
    match bytes with
    | first :: second :: _ =>
      !(0xDC00 ≤ encoding.unit (first, second) && encoding.unit (first, second) ≤ 0xDFFF)
    | _ => false

theorem encode_eq (encoding : Encoding) (text : List Char) :
    encoding.encode text = Coding.encode encoding.spelling text := by
  cases encoding with
  | utf8 => rfl
  | utf8Bom => rfl
  | utf16Le => exact flatMap_assoc
  | utf16Be => exact flatMap_assoc

variable {encoding : Encoding} {bytes : Bytes} {index origin : Nat}

theorem beginsAt_iff (counted : origin + index < u64Values) :
    encoding.beginsAt bytes index origin = true ↔
      encoding.width ∣ origin + index ∧ encoding.opens (bytes.drop index) = true := by
  have exact_ : Word.saturatingAdd u64Values origin index = origin + index :=
    saturatingAdd_of_lt counted
  cases encoding with
  | utf8 | utf8Bom =>
    simp only [beginsAt, opens, width, head?_drop, Nat.one_dvd, true_and]
  | utf16Le | utf16Be =>
    simp only [beginsAt, opens, width, exact_, Bool.and_eq_true, beq_iff_eq,
      Nat.dvd_iff_mod_eq_zero]
    exact Iff.rfl

theorem beginsAt_past (past : bytes.length ≤ index) :
    encoding.beginsAt bytes index origin = false := by
  cases encoding with
  | utf8 | utf8Bom => simp only [beginsAt, getElem?_eq_none past, any_none]
  | utf16Le | utf16Be => simp only [beginsAt, drop_eq_nil_of_le past, Bool.and_false]

theorem unit_lt (encoding : Encoding) (pair : UInt8 × UInt8) : encoding.unit pair < 0x10000 := by
  have first := pair.1.toNat_lt
  have second := pair.2.toNat_lt
  cases encoding <;> simp only [unit] <;> omega

theorem unitBytes_unit (encoding : Encoding) (pair : UInt8 × UInt8) :
    encoding.unitBytes (encoding.unit pair) = [pair.1, pair.2] := by
  have first := pair.1.toNat_lt
  have second := pair.2.toNat_lt
  cases encoding <;> simp only [unit, unitBytes, List.cons.injEq, and_true] <;>
    constructor <;> apply UInt8.toNat_inj.mp <;> rw [UInt8.toNat_ofNat'] <;> omega

theorem exists_unitBytes (encoding : Encoding) {unit : Nat} (bounded : unit < 0x10000) :
    ∃ pair, encoding.unitBytes unit = [pair.1, pair.2] ∧ encoding.unit pair = unit := by
  cases encoding with
  | utf16Be =>
    refine ⟨(UInt8.ofNat (unit / 256), UInt8.ofNat (unit % 256)), rfl, ?_⟩
    simp only [Encoding.unit, UInt8.toNat_ofNat']
    omega
  | utf8 | utf8Bom | utf16Le =>
    refine ⟨(UInt8.ofNat (unit % 256), UInt8.ofNat (unit / 256)), rfl, ?_⟩
    simp only [Encoding.unit, UInt8.toNat_ofNat']
    omega

theorem exists_pairs (encoding : Encoding)
    (bounded : ∀ unit ∈ units, unit < 0x10000) :
    ∃ found : List (UInt8 × UInt8),
      units.flatMap encoding.unitBytes = found.flatMap (fun pair => [pair.1, pair.2]) ∧
        found.map encoding.unit = units := by
  induction units with
  | nil => exact ⟨[], rfl, rfl⟩
  | cons unit units ih =>
    obtain ⟨found, paired, same⟩ := ih fun other member =>
      bounded other (mem_cons_of_mem _ member)
    obtain ⟨pair, spelt, read⟩ := encoding.exists_unitBytes (bounded unit mem_cons_self)
    refine ⟨pair :: found, ?_, ?_⟩
    · rw [flatMap_cons, flatMap_cons, paired, spelt]
    · rw [map_cons, same, read]

variable {text : List Char}

theorem encode_wide :
    encoding.wide bytes = some text ↔
      (text.flatMap encodeUtf16).flatMap encoding.unitBytes = bytes := by
  rw [wide, bind_eq_some_iff]
  constructor
  · rintro ⟨found, paired, decoded⟩
    have bounded : ∀ unit ∈ found.map encoding.unit, unit < 0x10000 := by
      intro unit member
      obtain ⟨pair, -, rfl⟩ := mem_map.mp member
      exact encoding.unit_lt pair
    rw [encodeUtf16_of_decodeUtf16 bounded decoded, pairs_eq_some.mp paired, flatMap_map]
    exact congrArg (List.flatMap · found) (funext encoding.unitBytes_unit)
  · intro spelt
    have bounded : ∀ unit ∈ text.flatMap encodeUtf16, unit < 0x10000 := by
      intro unit member
      obtain ⟨character, -, found⟩ := mem_flatMap.mp member
      exact encodeUtf16_lt found
    obtain ⟨found, paired, units⟩ := exists_pairs encoding bounded
    refine ⟨found, pairs_eq_some.mpr (spelt.symm.trans paired), ?_⟩
    rw [units]
    exact decodeUtf16_flatMap text

/-- The text some bytes spell in the encoding, if they spell one. -/
def characters (encoding : Encoding) (bytes : Bytes) : Option (List Char) :=
  match encoding with
  | utf8 => (Utf8.decode bytes).filter fun text => !text.contains (Char.ofNat 0)
  | utf8Bom => Utf8.decode bytes
  | utf16Le | utf16Be => encoding.wide bytes

/-- What reads as text in an encoding is what the encoding spells; without a mark there is no NUL
in it. -/
theorem characters_eq_some :
    encoding.characters bytes = some text ↔
      encoding.encode text = bytes ∧ (encoding = utf8 → Char.ofNat 0 ∉ text) := by
  cases encoding with
  | utf8 =>
    simp only [characters, filter_eq_some_iff, decode_eq_some, encode, forall_const,
      Bool.not_eq_true', contains_eq_mem, decide_eq_false_iff_not]
  | utf8Bom =>
    simp only [characters, decode_eq_some, encode, reduceCtorEq, false_imp_iff, and_true]
  | utf16Le =>
    simp only [characters, encode_wide, encode, reduceCtorEq, false_imp_iff, and_true]
    exact Iff.rfl
  | utf16Be =>
    simp only [characters, encode_wide, encode, reduceCtorEq, false_imp_iff, and_true]
    exact Iff.rfl

theorem decode_eq_ok :
    encoding.decode bytes = .ok text ↔ encoding.characters bytes = some text := by
  unfold decode characters
  cases encoding <;> simp only <;> split <;> next found =>
    rw [found]
    simp only [Except.ok.injEq, Option.some.injEq, reduceCtorEq]

theorem spells_eq : encoding.spells bytes = (encoding.characters bytes).isSome := by
  cases encoding with
  | utf8 =>
    cases found : Utf8.decode bytes with
    | none => simp only [spells, characters, found, isSome_none, Bool.and_false, filter_none]
    | some text =>
      have same : bytes.contains 0 = text.contains (Char.ofNat 0) := by
        rw [← decode_eq_some.mp found, Bool.eq_iff_iff, contains_iff_mem,
          contains_iff_mem, zero_mem_encode]
      simp only [spells, characters, found, same, isSome_some, Bool.and_true, filter_some]
      cases text.contains (Char.ofNat 0) <;> rfl
  | utf8Bom => rfl
  | utf16Le => rfl
  | utf16Be => rfl

theorem shows_utf8 (spelt : encoding.spelling = String.utf8EncodeChar)
    (opening : encoding.opens = fun bytes => bytes.head?.any fun byte => byte &&& 0xC0 != 0x80) :
    Coding.Shows encoding.spelling 1 encoding.opens := by
  rw [spelt, opening]
  constructor
  · intro character
    rw [String.length_utf8EncodeChar]
    exact character.utf8Size_pos
  · intro character
    exact Nat.one_dvd _
  · intro character rest
    obtain ⟨first, others, whole, begins, -⟩ := utf8EncodeChar_shows character
    rw [whole]
    exact begins
  · intro character rest offset positive within _
    obtain ⟨first, others, whole, -, continues⟩ := utf8EncodeChar_shows character
    rw [whole] at within ⊢
    obtain ⟨offset, rfl⟩ := Nat.exists_eq_add_one_of_ne_zero (by omega : offset ≠ 0)
    rw [length_cons] at within
    rw [drop_succ_cons, head?_append_of_ne_nil _ (by simp; omega), head?_drop,
      getElem?_eq_getElem (by omega)]
    exact continues _ (getElem_mem _)

theorem shows_utf16
    (spelt : encoding.spelling = fun character => (encodeUtf16 character).flatMap encoding.unitBytes)
    (opening : ∀ first second rest, encoding.opens (first :: second :: rest) = !(Decidable.decide (0xDC00 ≤ encoding.unit (first, second)) && Decidable.decide (encoding.unit (first, second) ≤ 0xDFFF))) :
    Coding.Shows encoding.spelling 2 encoding.opens := by
  have opens_unit : ∀ {unit : Nat} (_ : unit < 0x10000) (rest : Bytes),
      encoding.opens (encoding.unitBytes unit ++ rest) =
        !(Decidable.decide (0xDC00 ≤ unit) && Decidable.decide (unit ≤ 0xDFFF)) := by
    intro unit bounded rest
    obtain ⟨pair, bytes, same⟩ := encoding.exists_unitBytes bounded
    rw [bytes, cons_append, cons_append, nil_append, opening, same]
  have two : ∀ unit, (encoding.unitBytes unit).length = 2 := by
    intro unit
    cases encoding <;> rfl
  rw [spelt]
  constructor
  · intro character
    rcases encodeUtf16_shows character with ⟨unit, same, -⟩ | ⟨high, low, same, -⟩ <;>
      simp [same, two]
  · intro character
    rcases encodeUtf16_shows character with ⟨unit, same, -⟩ | ⟨high, low, same, -⟩ <;>
      simp [same, two]
  · intro character rest
    rcases encodeUtf16_shows character with ⟨unit, same, bounded, plain⟩ |
      ⟨high, low, same, leading, -⟩
    · rw [same, flatMap_singleton, opens_unit bounded]
      simp only [Bool.not_eq_true', Bool.and_eq_false_iff, decide_eq_false_iff_not]
      omega
    · rw [same, flatMap_cons, append_assoc, opens_unit (by omega)]
      simp only [Bool.not_eq_true', Bool.and_eq_false_iff, decide_eq_false_iff_not]
      omega
  · intro character rest offset positive within even
    rcases encodeUtf16_shows character with ⟨unit, same, -⟩ | ⟨high, low, same, -, low_from, low_to⟩
    · rw [same, flatMap_singleton, two] at within
      omega
    · rw [same, flatMap_cons, flatMap_singleton, length_append, two, two] at within
      have middle : offset = 2 := by omega
      rw [same, flatMap_cons, flatMap_singleton, middle, drop_left' (two high),
        opens_unit (by omega)]
      simp only [Bool.not_eq_false', Bool.and_eq_true, decide_eq_true_eq]
      exact ⟨low_from, low_to⟩

theorem shows (encoding : Encoding) :
    Coding.Shows encoding.spelling encoding.width encoding.opens := by
  cases encoding with
  | utf8 => exact shows_utf8 rfl rfl
  | utf8Bom => exact shows_utf8 rfl rfl
  | utf16Le => exact shows_utf16 rfl fun _ _ _ => rfl
  | utf16Be => exact shows_utf16 rfl fun _ _ _ => rfl

/-- An offset between two characters of a text, or at one of its ends. -/
def IsBoundary (encoding : Encoding) (text : List Char) (offset : Nat) : Prop :=
  Coding.IsBoundary encoding.spelling text offset

theorem beginsAt_iff_isBoundary {encoding : Encoding} {source : Held} {text : List Char}
    (spelt : encoding.encode text = source.bytes) {offset : Nat}
    (inside : offset < source.bytes.length) :
    encoding.beginsAt source.bytes offset 0 = true ↔ encoding.IsBoundary text offset := by
  have counted := source.counted
  rw [encode_eq] at spelt
  rw [beginsAt_iff (by omega), Nat.zero_add, IsBoundary,
    encoding.shows.isBoundary_iff (by rw [spelt]; exact inside), spelt]

/-- A character begins at an offset of a version, or the version ends there. -/
theorem starts_iff {source : Held} (spelt : encoding.encode text = source.bytes) {offset : Nat} :
    (offset == source.bytes.length || encoding.beginsAt source.bytes offset 0) = true ↔
      encoding.IsBoundary text offset := by
  have ends : encoding.IsBoundary text source.bytes.length := by
    rw [← spelt, encode_eq]
    exact Coding.isBoundary_end
  rw [Bool.or_eq_true, beq_iff_eq]
  rcases Nat.lt_trichotomy offset source.bytes.length with inside | same | outside
  · rw [beginsAt_iff_isBoundary spelt inside]
    constructor
    · rintro (same | found)
      · omega
      · exact found
    · exact .inr
  · rw [same]
    exact ⟨fun _ => ends, fun _ => .inl rfl⟩
  · constructor
    · rintro (same | found)
      · omega
      · rw [beginsAt_past (by omega)] at found
        cases found
    · intro found
      have bound := Coding.IsBoundary.le_length found
      rw [← encode_eq, spelt] at bound
      omega

end Encoding

/-- A version that reads as text is what its encoding spells that text. -/
theorem Reading.of_eq_text {encoding : Encoding} :
    Reading.of bytes = .text encoding ↔
      encoding = Encoding.ofMark bytes ∧ ∃ text, encoding.characters bytes = some text := by
  unfold Reading.of
  rw [Encoding.spells_eq]
  cases found : (Encoding.ofMark bytes).characters bytes with
  | none =>
    simp only [isSome_none, Bool.false_eq_true, if_false, reduceCtorEq, false_iff]
    rintro ⟨rfl, text, impossible⟩
    rw [found] at impossible
    cases impossible
  | some text =>
    simp only [isSome_some, if_true, Reading.text.injEq]
    constructor
    · rintro rfl
      exact ⟨rfl, text, found⟩
    · exact fun both => both.1.symm

end Sprawling.Documents
