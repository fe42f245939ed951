import Sprawling.Base.OrdMap
import Sprawling.Base.Utf8

/-! A binary format that writes values one after another with nothing between them: lengths as
variable-length numbers, texts and byte strings behind their length, maps as their entries in order.
A codec reads exactly what it writes, whatever follows. -/

namespace Sprawling

/-- How values are written and read back. -/
structure Postcard (α : Type) where
  write : α → List UInt8
  read : List UInt8 → Option (α × List UInt8)
  reads : ∀ value rest, read (write value ++ rest) = some (value, rest)

namespace Postcard

variable {α β : Type}

/-- Seven bits a byte, the lowest first; every byte but the last has its high bit set. -/
def writeVarint (value : Nat) : List UInt8 :=
  if value < 128 then [UInt8.ofNat value]
  else UInt8.ofNat (value % 128 + 128) :: writeVarint (value / 128)

def readVarint : List UInt8 → Option (Nat × List UInt8)
  | [] => none
  | byte :: rest =>
    if byte.toNat < 128 then some (byte.toNat, rest)
    else (readVarint rest).map fun found => (byte.toNat - 128 + 128 * found.1, found.2)

theorem readVarint_writeVarint (value : Nat) (rest : List UInt8) :
    readVarint (writeVarint value ++ rest) = some (value, rest) := by
  induction value using Nat.strongRecOn with
  | ind value ih =>
    rw [writeVarint]
    by_cases small : value < 128
    · have same : (UInt8.ofNat value).toNat = value := by
        rw [UInt8.toNat_ofNat']
        omega
      rw [if_pos small, List.singleton_append, readVarint, same, if_pos small]
    · have same : (UInt8.ofNat (value % 128 + 128)).toNat = value % 128 + 128 := by
        rw [UInt8.toNat_ofNat']
        omega
      have more : ¬value % 128 + 128 < 128 := by omega
      have whole : value % 128 + 128 - 128 + 128 * (value / 128) = value := by omega
      rw [if_neg small, List.cons_append, readVarint, same, if_neg more, ih _ (by omega),
        Option.map_some, whole]

/-- A length, or any other number. -/
def number : Postcard Nat where
  write := writeVarint
  read := readVarint
  reads := readVarint_writeVarint

/-- One value after another. -/
def pair (first : Postcard α) (second : Postcard β) : Postcard (α × β) where
  write value := first.write value.1 ++ second.write value.2
  read bytes :=
    match first.read bytes with
    | none => none
    | some (one, rest) => (second.read rest).map fun found => ((one, found.1), found.2)
  reads value rest := by
    simp only [List.append_assoc, first.reads, second.reads, Option.map_some]

/-- Values written as other values and read through a check of those. -/
def through (codec : Postcard β) (view : α → β) (check : β → Option α)
    (checks : ∀ value, check (view value) = some value) : Postcard α where
  write value := codec.write (view value)
  read bytes :=
    match codec.read bytes with
    | none => none
    | some (found, rest) => (check found).map fun value => (value, rest)
  reads value rest := by
    simp only [codec.reads, checks, Option.map_some]

/-- A value that may be missing, behind a byte that tells. -/
def option (codec : Postcard α) : Postcard (Option α) where
  write
    | none => [0]
    | some value => 1 :: codec.write value
  read
    | 0 :: rest => some (none, rest)
    | 1 :: rest => (codec.read rest).map fun found => (some found.1, found.2)
    | _ => none
  reads value rest := by
    cases value with
    | none => rfl
    | some value => simp [codec.reads]

/-- Some number of values. -/
def readMany (codec : Postcard α) : Nat → List UInt8 → Option (List α × List UInt8)
  | 0, bytes => some ([], bytes)
  | count + 1, bytes =>
    match codec.read bytes with
    | none => none
    | some (value, rest) =>
      (readMany codec count rest).map fun found => (value :: found.1, found.2)

theorem readMany_writes (codec : Postcard α) (values : List α) (rest : List UInt8) :
    readMany codec values.length (values.flatMap codec.write ++ rest) = some (values, rest) := by
  induction values with
  | nil => rfl
  | cons value values ih =>
    simp only [List.length_cons, List.flatMap_cons, List.append_assoc, readMany, codec.reads, ih,
      Option.map_some]

/-- A list behind its length. -/
def list (codec : Postcard α) : Postcard (List α) where
  write values := number.write values.length ++ values.flatMap codec.write
  read bytes :=
    match number.read bytes with
    | none => none
    | some (count, rest) => readMany codec count rest
  reads values rest := by
    simp only [List.append_assoc, number.reads, readMany_writes]

def byte : Postcard UInt8 where
  write value := [value]
  read bytes := bytes.head?.map fun found => (found, bytes.tail)
  reads _ _ := rfl

def text : Postcard (List Char) := (list byte).through Utf8.encode Utf8.decode Utf8.decode_encode

variable {κ ν : Type} [Ord κ] [Std.TransOrd κ] [Std.LawfulEqOrd κ] [DecidableEq κ]

/-- A map as its entries in order, behind how many there are. -/
def map (keys : Postcard κ) (values : Postcard ν) : Postcard (OrdMap κ ν) :=
  (list (keys.pair values)).through (fun held => held.toList)
    (fun entries => some (Std.ExtTreeMap.ofList entries compare)) fun held =>
      congrArg some (OrdMap.ofList_toList held)

end Postcard

end Sprawling
