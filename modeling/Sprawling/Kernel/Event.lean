import Mathlib.Algebra.GroupWithZero.Nat
import Sprawling.Kernel.Error

namespace Sprawling

/-- Bytes as a file holds them. -/
abbrev Bytes := List UInt8

def u64Max : Nat := 2 ^ 64 - 1

def saturatingAdd (a b : Nat) : Nat := min (a + b) u64Max

theorem saturatingAdd_assoc (a b c : Nat) :
    saturatingAdd (saturatingAdd a b) c = saturatingAdd a (saturatingAdd b c) := by
  simp only [saturatingAdd]
  omega

/-- Event sequence number: a 64-bit count from `first`. -/
structure Seq where
  value : Nat
  lt : value < 2 ^ 64
deriving DecidableEq

namespace Seq

theorem zero_fits : 0 < 2 ^ 64 := by decide

theorem one_fits : 1 < 2 ^ 64 := by decide

theorem two_fits : 2 < 2 ^ 64 := by decide

theorem three_fits : 3 < 2 ^ 64 := by decide

theorem four_fits : 4 < 2 ^ 64 := by decide

def first : Seq := ⟨0, zero_fits⟩

def last : Seq := ⟨2 ^ 64 - 1, by decide⟩

def next (seq : Seq) : Except AxError Seq :=
  if lt : seq.value + 1 < 2 ^ 64 then .ok ⟨seq.value + 1, lt⟩
  else
    .error (AxError.failure .invalidArgs "advance seq" (toString seq.value)
      "sequence space exhausted; this ledger cannot grow further")

variable {a b : Seq}

theorem ext_value (same : a.value = b.value) : a = b := by
  cases a
  cases b
  cases same
  rfl

theorem next_eq_ok : a.next = .ok b ↔ b.value = a.value + 1 := by
  constructor
  · intro stepped
    unfold next at stepped
    split at stepped
    · cases stepped
      rfl
    · cases stepped
  · intro step
    have fits : a.value + 1 < 2 ^ 64 := step ▸ b.lt
    rw [next, dif_pos fits]
    exact congrArg Except.ok (ext_value step.symm)

theorem exists_next {a : Seq} (room : a ≠ last) : ∃ b, a.next = .ok b := by
  have bound := a.lt
  have different : a.value ≠ 2 ^ 64 - 1 := fun same => room (ext_value same)
  have fits : a.value + 1 < 2 ^ 64 := by omega
  exact ⟨⟨a.value + 1, fits⟩, next_eq_ok.mpr rfl⟩

theorem ne_last_of_next (stepped : a.next = .ok b) : a ≠ last := by
  intro same
  have step := next_eq_ok.mp stepped
  have bound := b.lt
  rw [same] at step
  simp only [last] at step
  omega

theorem next_ne_first (stepped : a.next = .ok b) : b ≠ first := by
  intro same
  have step := next_eq_ok.mp stepped
  rw [same] at step
  simp only [first] at step
  omega

end Seq

def eventLogV : Nat := 2

def eventLogVFirst : Nat := 1

/-- Where a ledger line's `v` stands against the version this build writes. -/
inductive LogVersion where
  | current
  | older
  | ahead
  | notAVersion

def readableLogV (v : Nat) : LogVersion :=
  if v < eventLogVFirst then .notAVersion
  else if v > eventLogV then .ahead
  else if v = eventLogV then .current
  else .older

/-- Enough of any line to judge version, chain and kind before a typed parse. -/
structure Envelope (Hash : Type) where
  v : Nat
  seq : Seq
  prev : Hash
  kind : String
  ig : Bool

/-- What the ledger takes from the JSON and BLAKE3 crates: reading a line as an envelope and as
a record, writing a record as a line, and hashing. A refusal is the sentence the crate gives. -/
structure Codec (Hash Record : Type) where
  envelope : Bytes → Except String (Envelope Hash)
  isEventKind : String → Bool
  parseLine : Bytes → Except String Record
  canonicalLine : Record → Except String Bytes
  blake3 : Bytes → Hash
  genesisPrev : Hash

/-- Chain rule: `prev` of the next line is the hash of this one. -/
def Codec.chainHash {Hash Record : Type} (codec : Codec Hash Record) (rawLine : Bytes) : Hash :=
  codec.blake3 rawLine

end Sprawling
