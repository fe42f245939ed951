import Mathlib.Data.List.Induction
import Sprawling.Base.Text
import Sprawling.Base.Utf8

/-! Numerals of a fixed width: how they are written, read back and ordered. -/

namespace Numeral

open List Text

section Order

variable {α : Type} [Ord α] [Std.ReflOrd α]

theorem compare_append_left (lead first second : List α) :
    compare (lead ++ first) (lead ++ second) = compare first second := by
  induction lead with
  | nil => rfl
  | cons item lead ih =>
    rw [cons_append, cons_append, List.compare_cons_cons, Std.ReflOrd.compare_self, ih]
    rfl

omit [Std.ReflOrd α] in
theorem compare_append {first second rest others : List α} (same : first.length = second.length) :
    compare (first ++ rest) (second ++ others) = (compare first second).then (compare rest others) := by
  induction first generalizing second with
  | nil =>
    cases second with
    | nil => rfl
    | cons item second => cases same
  | cons item first ih =>
    cases second with
    | nil => cases same
    | cons other second =>
      rw [cons_append, cons_append, List.compare_cons_cons, List.compare_cons_cons,
        ih (Nat.succ.inj same), Ordering.then_assoc]

end Order

variable {first second : Nat}

theorem compare_digitChar (low : first < 10) (high : second < 10) :
    compare [Nat.digitChar first] [Nat.digitChar second] = compare first second := by
  have table : ∀ a b : Fin 10,
      compare [Nat.digitChar a.val] [Nat.digitChar b.val] = compare a.val b.val := by decide
  exact table ⟨first, low⟩ ⟨second, high⟩

/-- Numbers of a high and a low part are in the order of the high parts, then of the low ones. -/
theorem compare_mul_add {base high low high' low' : Nat} (small : low < base) (small' : low' < base) :
    compare (high * base + low) (high' * base + low') = (compare high high').then (compare low low') := by
  have step {lower upper : Nat} (below : lower < upper) : lower * base + base ≤ upper * base := by
    rw [← Nat.succ_mul]
    exact Nat.mul_le_mul_right base below
  rcases Nat.lt_trichotomy high high' with below | same | above
  · have apart := step below
    rw [Nat.compare_eq_lt.mpr below, Nat.compare_eq_lt.mpr (by omega)]
    rfl
  · rw [same, Nat.compare_eq_eq.mpr (Eq.refl high'), Ordering.then]
    rcases Nat.lt_trichotomy low low' with below | even | above
    · rw [Nat.compare_eq_lt.mpr below, Nat.compare_eq_lt.mpr (by omega)]
    · rw [Nat.compare_eq_eq.mpr even, Nat.compare_eq_eq.mpr (by omega)]
    · rw [Nat.compare_eq_gt.mpr above, Nat.compare_eq_gt.mpr (by omega)]
  · have apart := step above
    rw [Nat.compare_eq_gt.mpr above, Nat.compare_eq_gt.mpr (by omega)]
    rfl

theorem compare_tens (first second : Nat) :
    compare first second =
      (compare (first / 10) (second / 10)).then (compare (first % 10) (second % 10)) := by
  have split := @compare_mul_add 10 (first / 10) (first % 10) (second / 10) (second % 10)
    (Nat.mod_lt _ (by decide)) (Nat.mod_lt _ (by decide))
  rwa [Nat.div_add_mod', Nat.div_add_mod'] at split

/-- `value` in decimal, in `width` digits at least. -/
def zeroPadded (width value : Nat) : List Char :=
  List.replicate (width - (decimal value).length) '0' ++ decimal value

variable {value : Nat}

theorem decimal_of_lt (low : value < 10) : decimal value = [Nat.digitChar value] :=
  Nat.toDigits_of_lt_base low

theorem decimal_of_le {value : Nat} (high : 10 ≤ value) :
    decimal value = decimal (value / 10) ++ [Nat.digitChar (value % 10)] := by
  rw [decimal, Nat.toDigits_eq_if (by decide), if_neg (by omega)]
  rfl

theorem digitChar_of_isDigit {c : Char} (digit : c.isDigit = true) :
    ∃ value < 10, Nat.digitChar value = c := by
  obtain ⟨low, high⟩ := digit_bounds digit
  refine ⟨c.toNat - 48, by omega, Char.toNat_inj.mp ?_⟩
  rw [Nat.toNat_digitChar_of_lt_ten (by omega)]
  omega

variable {text : List Char}

/-- Some digits spell a number as it is written when no zero is in front of others. -/
theorem decimal_ofDigitChars (digits : ∀ c ∈ text, c.isDigit = true)
    (some_digit : text ≠ []) (front : text.head? = some '0' → text.length ≤ 1) :
    decimal (Nat.ofDigitChars 10 text 0) = text := by
  induction text using List.reverseRecOn with
  | nil => exact absurd rfl some_digit
  | append_singleton text c ih =>
    obtain ⟨digit, low, rfl⟩ := digitChar_of_isDigit (digits c (by simp))
    rw [Nat.ofDigitChars_append, Nat.ofDigitChars_cons_digitChar_of_lt_ten low, Nat.ofDigitChars_nil]
    cases text with
    | nil =>
      rw [Nat.ofDigitChars_nil, Nat.mul_zero, Nat.zero_add]
      exact decimal_of_lt low
    | cons first rest =>
      have lead : first ≠ '0' := fun zero => by
        have short := front (by simp [zero])
        simp at short
      have inner := ih (fun c member => digits c (mem_append_left _ member)) (by simp)
        fun zero => absurd (Option.some.inj zero) lead
      have positive : Nat.ofDigitChars 10 (first :: rest) 0 ≠ 0 := by
        intro zero
        rw [zero] at inner
        injection inner with same
        exact lead same.symm
      have tens : (10 * Nat.ofDigitChars 10 (first :: rest) 0 + digit) / 10 =
          Nat.ofDigitChars 10 (first :: rest) 0 := by omega
      have ones : (10 * Nat.ofDigitChars 10 (first :: rest) 0 + digit) % 10 = digit := by omega
      rw [decimal_of_le (by omega), tens, ones, inner]

theorem decimal_leads (zero : (decimal value).head? = some '0') : value = 0 := by
  induction value using Nat.strongRecOn with
  | ind value ih =>
    by_cases low : value < 10
    · rw [decimal_of_lt low] at zero
      have all : ∀ value < 10, [Nat.digitChar value].head? = some '0' → value = 0 := by decide
      exact all value low zero
    · have high := Nat.le_of_not_lt low
      rw [decimal_of_le high, head?_append_of_ne_nil _ (decimal_ne_nil _)] at zero
      have less := ih (value / 10) (by omega) zero
      omega

theorem zeroPadded_one (low : value < 10) : zeroPadded 1 value = [Nat.digitChar value] := by
  rw [zeroPadded, decimal_of_lt low]
  rfl

variable {width : Nat}

theorem isDigit_of_mem_zeroPadded {c : Char} (member : c ∈ zeroPadded width value) :
    c.isDigit = true := by
  rcases mem_append.mp member with zero | digit
  · rw [eq_of_mem_replicate zero]
    rfl
  · exact decimal_digits value c digit

theorem ofDigitChars_zeroPadded (width value : Nat) :
    Nat.ofDigitChars 10 (zeroPadded width value) 0 = value := by
  rw [zeroPadded, Nat.ofDigitChars_append, Nat.ofDigitChars_replicate_zero, Nat.mul_zero, decimal,
    Nat.ofDigitChars_ten_toDigits]

theorem zeroPadded_concat (width value : Nat) :
    zeroPadded (width + 2) value = zeroPadded (width + 1) (value / 10) ++ [Nat.digitChar (value % 10)] := by
  by_cases low : value < 10
  · have none_left : value / 10 = 0 := by omega
    have itself : value % 10 = value := by omega
    have zero : decimal 0 = ['0'] := rfl
    simp [zeroPadded, none_left, itself, decimal_of_lt low, zero, ← replicate_succ']
  · rw [zeroPadded, zeroPadded, decimal_of_le (by omega), ← append_assoc, length_append,
      length_singleton]
    simp

theorem length_zeroPadded (some_digit : 0 < width) (fits : value < 10 ^ width) :
    (zeroPadded width value).length = width := by
  induction width generalizing value with
  | zero => cases some_digit
  | succ width ih =>
    cases width with
    | zero => rw [zeroPadded_one (by simpa using fits), length_singleton]
    | succ width =>
      have shorter : 10 ^ (width + 2) = 10 ^ (width + 1) * 10 := Nat.pow_succ 10 (width + 1)
      rw [zeroPadded_concat, length_append, ih (by omega) (by omega), length_singleton]

/-- Numerals of one width are in the order of their values. -/
theorem compare_zeroPadded (some_digit : 0 < width)
    (low : first < 10 ^ width) (high : second < 10 ^ width) :
    compare (zeroPadded width first) (zeroPadded width second) = compare first second := by
  induction width generalizing first second with
  | zero => cases some_digit
  | succ width ih =>
    cases width with
    | zero =>
      rw [zeroPadded_one (by simpa using low), zeroPadded_one (by simpa using high),
        compare_digitChar (by simpa using low) (by simpa using high)]
    | succ width =>
      have shorter : 10 ^ (width + 2) = 10 ^ (width + 1) * 10 := Nat.pow_succ 10 (width + 1)
      have left : first / 10 < 10 ^ (width + 1) := by omega
      have right : second / 10 < 10 ^ (width + 1) := by omega
      rw [zeroPadded_concat, zeroPadded_concat,
        compare_append (by rw [length_zeroPadded (by omega) left, length_zeroPadded (by omega) right]),
        ih (by omega) left right,
        compare_digitChar (Nat.mod_lt _ (by decide)) (Nat.mod_lt _ (by decide)), ← compare_tens]

/-- The digit a byte is in ASCII. -/
def digitOf (byte : UInt8) : Option Nat :=
  if 48 ≤ byte.toNat ∧ byte.toNat ≤ 57 then some (byte.toNat - 48) else none

/-- The number some ASCII digits spell. -/
def valueOf (bytes : List UInt8) : Option Nat :=
  bytes.foldlM (fun number byte => (digitOf byte).map fun digit => number * 10 + digit) 0

theorem digitOf_eq_some {byte : UInt8} {digit : Nat} :
    digitOf byte = some digit ↔
      digit < 10 ∧ String.utf8EncodeChar (Nat.digitChar digit) = [byte] := by
  have table : ∀ digit : Fin 10,
      String.utf8EncodeChar (Nat.digitChar digit.val) = [UInt8.ofNat (48 + digit.val)] := by decide
  constructor
  · intro found
    simp only [digitOf, Option.ite_none_right_eq_some, Option.some.injEq] at found
    obtain ⟨bounds, rfl⟩ := found
    have low : byte.toNat - 48 < 10 := by omega
    refine ⟨low, ?_⟩
    rw [table ⟨byte.toNat - 48, low⟩]
    have same : 48 + (byte.toNat - 48) = byte.toNat := by omega
    rw [same, UInt8.ofNat_toNat]
  · rintro ⟨low, spelt⟩
    rw [table ⟨digit, low⟩] at spelt
    obtain rfl := singleton_inj.mp spelt
    have value : (UInt8.ofNat (48 + digit)).toNat = 48 + digit := by
      rw [UInt8.toNat_ofNat']
      omega
    simp only [digitOf, value]
    rw [if_pos (by omega)]
    congr 1
    omega

theorem valueOf_concat (bytes : List UInt8) (byte : UInt8) :
    valueOf (bytes ++ [byte]) =
      (valueOf bytes).bind fun number => (digitOf byte).map fun digit => number * 10 + digit := by
  simp only [valueOf, foldlM_append, foldlM_cons, foldlM_nil, bind_pure]
  rfl

/-- Some digits spell a number exactly when they are the numeral of that number in their width. -/
theorem valueOf_eq_some {bytes : List UInt8} (some_digit : bytes ≠ []) :
    valueOf bytes = some value ↔
      value < 10 ^ bytes.length ∧ Utf8.encode (zeroPadded bytes.length value) = bytes := by
  induction bytes using List.reverseRecOn generalizing value with
  | nil => exact absurd rfl some_digit
  | append_singleton bytes byte ih =>
    rw [valueOf_concat, length_append, length_singleton]
    cases bytes with
    | nil =>
      have alone : (digitOf byte).map (fun digit => 0 * 10 + digit) = digitOf byte := by simp
      change (digitOf byte).map (fun digit => 0 * 10 + digit) = some value ↔ _
      rw [alone, digitOf_eq_some]
      refine and_congr_right fun low => ?_
      rw [length_nil, zeroPadded_one low, Utf8.encode, flatMap_singleton]
      rfl
    | cons first rest =>
      have shorter : 10 ^ (rest.length + 2) = 10 ^ (rest.length + 1) * 10 := Nat.pow_succ 10 _
      have inner := @ih (value / 10) (by simp)
      have last := @digitOf_eq_some byte (value % 10)
      rw [length_cons] at inner ⊢
      rw [zeroPadded_concat, Utf8.encode_append, Utf8.encode, Utf8.encode, flatMap_singleton]
      constructor
      · intro read
        obtain ⟨number, front, read⟩ := Option.bind_eq_some_iff.mp read
        obtain ⟨digit, found, rfl⟩ := Option.map_eq_some_iff.mp read
        have low := (digitOf_eq_some.mp found).1
        have whole : (number * 10 + digit) / 10 = number := by omega
        have rem : (number * 10 + digit) % 10 = digit := by omega
        rw [whole] at inner
        rw [rem] at last
        obtain ⟨bound, spelt⟩ := inner.mp front
        rw [Utf8.encode] at spelt
        rw [whole, rem, spelt, (last.mp found).2]
        exact ⟨by omega, rfl⟩
      · rintro ⟨bound, spelt⟩
        have single : (String.utf8EncodeChar (Nat.digitChar (value % 10))).length = 1 := by
          have table : ∀ digit : Fin 10,
              (String.utf8EncodeChar (Nat.digitChar digit.val)).length = 1 := by decide
          exact table ⟨value % 10, Nat.mod_lt _ (by decide)⟩
        obtain ⟨front, final⟩ := append_inj' spelt single
        rw [inner.mpr ⟨by omega, front⟩, last.mpr ⟨Nat.mod_lt _ (by decide), final⟩]
        simp only [Option.bind_some, Option.map_some, Option.some.injEq]
        omega

theorem byteLen_of_digits (digits : ∀ c ∈ text, c.isDigit = true) :
    Utf8.byteLen text = text.length := by
  have ascii : ∀ c ∈ text, c.utf8Size = 1 := by
    intro c member
    have bounds := digit_bounds (digits c member)
    rw [Char.utf8Size_eq_one_iff]
    exact UInt32.le_iff_toNat_le.mpr (Nat.le_trans bounds.2 (by decide))
  rw [Utf8.byteLen, map_congr_left ascii, map_const', sum_replicate_nat, Nat.mul_one]

theorem byteLen_decimal (value : Nat) :
    Utf8.byteLen (decimal value) = (decimal value).length :=
  byteLen_of_digits (decimal_digits value)

theorem length_decimal_mono {small large : Nat} (order : small ≤ large) :
    (decimal small).length ≤ (decimal large).length := by
  induction large using Nat.strongRecOn generalizing small with
  | ind large ih =>
    by_cases low : small < 10
    · rw [decimal_of_lt low]
      exact length_pos_of_ne_nil (decimal_ne_nil large)
    · have shorter := @ih (large / 10) (by omega) (small / 10) (by omega)
      rw [decimal_of_le (by omega), @decimal_of_le large (by omega), length_append,
        length_append]
      exact Nat.add_le_add_right shorter 1

theorem length_encode_zeroPadded (some_digit : 0 < width) (fits : value < 10 ^ width) :
    (Utf8.encode (zeroPadded width value)).length = width := by
  have digits : ∀ c ∈ zeroPadded width value, c.isDigit = true := fun _ => isDigit_of_mem_zeroPadded
  rw [Utf8.length_encode, byteLen_of_digits digits, length_zeroPadded some_digit fits]

theorem valueOf_zeroPadded (some_digit : 0 < width) (fits : value < 10 ^ width) :
    valueOf (Utf8.encode (zeroPadded width value)) = some value := by
  have length := length_encode_zeroPadded some_digit fits
  rw [valueOf_eq_some (by intro none_left; simp [none_left] at length; omega), length]
  exact ⟨fits, rfl⟩

end Numeral
