import Mathlib.Algebra.GroupWithZero.Nat

/-! Arithmetic of machine words, given how many values a word has. -/

namespace Word

def u32Values : Nat := 2 ^ 32

def u64Values : Nat := 2 ^ 64

def saturatingAdd (values first second : Nat) : Nat := min (first + second) (values - 1)

def wrappingAdd (values first second : Nat) : Nat := (first + second) % values

/-- A sum, unless it lies past the last value there is. -/
def checkedAdd (last first second : Nat) : Option Nat :=
  -- A large constant comes second, and a sum unfolds along its second summand.
  if second + first ≤ last then some (second + first) else none

theorem checkedAdd_eq_some {last first second sum : Nat} :
    checkedAdd last first second = some sum ↔ second + first = sum ∧ sum ≤ last := by
  unfold checkedAdd
  split
  · constructor
    · intro same
      cases same
      omega
    · intro same
      rw [← same.1]
  · constructor
    · intro same
      cases same
    · omega

/-- A difference, unless it lies below zero. -/
def checkedSub (first second : Nat) : Option Nat :=
  if second ≤ first then some (first - second) else none

theorem checkedSub_eq_some {first second rest : Nat} :
    checkedSub first second = some rest ↔ second + rest = first := by
  unfold checkedSub
  split
  · rw [Option.some.injEq]
    omega
  · simp only [reduceCtorEq, false_iff]
    omega

theorem saturatingAdd_of_lt {values first second : Nat} (fits : first + second < values) :
    saturatingAdd values first second = first + second := by
  unfold saturatingAdd
  omega

theorem saturatingAdd_lt {values : Nat} (some_value : 0 < values) (first second : Nat) :
    saturatingAdd values first second < values := by
  unfold saturatingAdd
  omega

theorem le_saturatingAdd {values first : Nat} (held : first < values) (second : Nat) :
    first ≤ saturatingAdd values first second := by
  unfold saturatingAdd
  omega

end Word
