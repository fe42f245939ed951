import Mathlib.Data.List.Basic

/-! Texts spelled symbol by symbol, and where such a spelling may be cut. A code whose symbols show
where they begin tells its boundaries from what stands after them alone. -/

namespace Sprawling.Coding

open List

variable {α β : Type}

def encode (spell : α → List β) (text : List α) : List β := text.flatMap spell

/-- An offset between two symbols of a text, or at one of its ends. -/
def IsBoundary (spell : α → List β) (text : List α) (offset : Nat) : Prop :=
  ∃ head tail, text = head ++ tail ∧ (encode spell head).length = offset

/-- A code read by units of `width`, in which `begins` tells a stretch that starts with a symbol
from one that starts inside one. -/
structure Shows (spell : α → List β) (width : Nat) (begins : List β → Bool) : Prop where
  nonempty : ∀ symbol, 0 < (spell symbol).length
  whole : ∀ symbol, width ∣ (spell symbol).length
  first : ∀ symbol rest, begins (spell symbol ++ rest) = true
  inner : ∀ symbol rest offset, 0 < offset → offset < (spell symbol).length → width ∣ offset →
    begins ((spell symbol).drop offset ++ rest) = false

variable {spell : α → List β} {text : List α}

@[simp]
theorem encode_nil : encode spell [] = [] := rfl

@[simp]
theorem encode_cons (symbol : α) (text : List α) :
    encode spell (symbol :: text) = spell symbol ++ encode spell text := rfl

@[simp]
theorem encode_append (first second : List α) :
    encode spell (first ++ second) = encode spell first ++ encode spell second :=
  flatMap_append ..

theorem isBoundary_zero : IsBoundary spell text 0 := ⟨[], text, rfl, rfl⟩

theorem isBoundary_end : IsBoundary spell text (encode spell text).length :=
  ⟨text, [], (append_nil text).symm, rfl⟩

variable {offset : Nat}

theorem IsBoundary.le_length (at_ : IsBoundary spell text offset) :
    offset ≤ (encode spell text).length := by
  obtain ⟨head, tail, rfl, rfl⟩ := at_
  rw [encode_append, length_append]
  omega

theorem isBoundary_cons {symbol : α} :
    IsBoundary spell (symbol :: text) offset ↔
      offset = 0 ∨ (spell symbol).length ≤ offset ∧
        IsBoundary spell text (offset - (spell symbol).length) := by
  constructor
  · rintro ⟨head, tail, whole, rfl⟩
    cases head with
    | nil => exact .inl rfl
    | cons first head =>
      injection whole with same rest
      subst same
      rw [encode_cons, length_append, Nat.add_sub_cancel_left]
      exact .inr ⟨Nat.le_add_right _ _, head, tail, rest, rfl⟩
  · rintro (rfl | ⟨past, head, tail, whole, size⟩)
    · exact isBoundary_zero
    · refine ⟨symbol :: head, tail, by rw [whole, cons_append], ?_⟩
      rw [encode_cons, length_append, size]
      omega

/-- What stands between two boundaries is spelled by a piece of the text. -/
theorem piece_between {start stop : Nat} (order : start ≤ stop)
    (first : IsBoundary spell text start) (last : IsBoundary spell text stop)
    (nonempty : ∀ symbol, 0 < (spell symbol).length) :
    ∃ before piece after, text = before ++ piece ++ after ∧
      (encode spell before).length = start ∧
      encode spell piece = ((encode spell text).take stop).drop start := by
  induction text generalizing start stop with
  | nil =>
    have startIs := first.le_length
    have stopIs := last.le_length
    rw [encode_nil, length_nil] at startIs stopIs
    have none_before : start = 0 := by omega
    rw [none_before]
    exact ⟨[], [], [], rfl, rfl, by simp⟩
  | cons symbol text ih =>
    rcases isBoundary_cons.mp first with rfl | ⟨past, first⟩
    · obtain ⟨head, tail, whole, size⟩ := last
      refine ⟨[], head, tail, whole, rfl, ?_⟩
      rw [whole, encode_append, drop_zero, take_left' size]
    · rcases isBoundary_cons.mp last with rfl | ⟨beyond, last⟩
      · have wide := nonempty symbol
        omega
      · obtain ⟨before, piece, after, whole, size, spelt⟩ := ih (by omega) first last
        refine ⟨symbol :: before, piece, after, by rw [whole]; rfl, ?_, ?_⟩
        · rw [encode_cons, length_append, size]
          omega
        · rw [encode_cons, take_append, drop_append, take_of_length_le beyond,
            drop_eq_nil_of_le past, nil_append, spelt]

namespace Shows

variable {width : Nat} {begins : List β → Bool}

/-- Inside a text, the boundaries are the whole units at which a symbol begins. -/
theorem isBoundary_iff (shows : Shows spell width begins)
    (inside : offset < (encode spell text).length) :
    IsBoundary spell text offset ↔
      width ∣ offset ∧ begins ((encode spell text).drop offset) = true := by
  induction text generalizing offset with
  | nil => exact absurd inside (Nat.not_lt_zero _)
  | cons symbol text ih =>
    rw [isBoundary_cons, encode_cons]
    rw [encode_cons, length_append] at inside
    rcases Nat.eq_zero_or_pos offset with rfl | positive
    · rw [drop_zero, shows.first]
      exact ⟨fun _ => ⟨Nat.dvd_zero width, rfl⟩, fun _ => .inl rfl⟩
    · rcases Nat.lt_or_ge offset (spell symbol).length with within | past
      · rw [drop_append_of_le_length (Nat.le_of_lt within)]
        constructor
        · rintro (rfl | ⟨past, -⟩) <;> omega
        · rintro ⟨unit, found⟩
          rw [shows.inner symbol _ offset positive within unit] at found
          cases found
      · have later := @ih (offset - (spell symbol).length) (by omega)
        have parity : width ∣ offset - (spell symbol).length ↔ width ∣ offset := by
          rw [Nat.dvd_sub_iff_left past (shows.whole symbol)]
        rw [drop_append, drop_eq_nil_of_le past, nil_append, ← parity, ← later]
        constructor
        · rintro (rfl | ⟨-, found⟩)
          · omega
          · exact found
        · exact fun found => .inr ⟨past, found⟩

end Shows

/-- Where symbols are at most `reach` units longer than one, a boundary is never further back. -/
theorem exists_boundary {reach : Nat} (narrow : ∀ symbol, (spell symbol).length ≤ reach + 1) (inside : offset ≤ (encode spell text).length) :
    ∃ start, IsBoundary spell text start ∧ start ≤ offset ∧ offset ≤ start + reach := by
  induction text generalizing offset with
  | nil =>
    rw [encode_nil, length_nil] at inside
    exact ⟨0, isBoundary_zero, by omega, by omega⟩
  | cons symbol text ih =>
    rw [encode_cons, length_append] at inside
    rcases Nat.lt_or_ge offset (spell symbol).length with within | past
    · have size := narrow symbol
      exact ⟨0, isBoundary_zero, by omega, by omega⟩
    · obtain ⟨start, found, before, near⟩ :=
        @ih (offset - (spell symbol).length) (by omega)
      refine ⟨start + (spell symbol).length, ?_, by omega, by omega⟩
      rw [isBoundary_cons, Nat.add_sub_cancel]
      exact .inr ⟨Nat.le_add_left _ _, found⟩

end Sprawling.Coding
