import Sprawling.Base.OrdMap
import Sprawling.Base.Text

/-! JSON as text: the compact writer, and a reader that refuses containers nested past a limit. -/

namespace Sprawling

namespace JsonText

/-- A number as the reader holds it. A float is kept as the literal it was read from. -/
inductive Number where
  | posInt (value : Nat) (fits : value < 2 ^ 64)
  /-- Below zero, by its magnitude. -/
  | negInt (magnitude : Nat) (fits : 0 < magnitude ∧ magnitude ≤ 2 ^ 63)
  | float (literal : List Char)

namespace Number

def isU64 : Number → Bool
  | .posInt _ _ => true
  | .negInt _ _ | .float _ => false

def isI64 : Number → Bool
  | .posInt value _ => value < 2 ^ 63
  | .negInt _ _ => true
  | .float _ => false

def isFloat : Number → Bool
  | .float _ => true
  | .posInt _ _ | .negInt _ _ => false

end Number

/-- A JSON value; an object lists its entries as they stand. -/
inductive Value where
  | null
  | bool (value : Bool)
  | number (value : Number)
  | string (text : List Char)
  | array (items : List Value)
  | object (entries : List (List Char × Value))

/-- What holds of each part holds of a value: a container's proof has it of what is inside. -/
theorem Value.induct {motive : Value → Prop} (null : motive .null)
    (bool : ∀ value, motive (.bool value)) (number : ∀ value, motive (.number value))
    (string : ∀ text, motive (.string text))
    (array : ∀ items, (∀ item ∈ items, motive item) → motive (.array items))
    (object : ∀ entries, (∀ entry ∈ entries, motive entry.2) → motive (.object entries)) :
    ∀ value, motive value
  | .null => null
  | .bool value => bool value
  | .number value => number value
  | .string text => string text
  | .array items => array items fun item _ =>
    Value.induct null bool number string array object item
  | .object entries => object entries fun entry member => by
      have inside := List.sizeOf_lt_of_mem member
      have part : sizeOf entry.2 < sizeOf entry := by
        obtain ⟨key, value⟩ := entry
        show sizeOf value < 1 + sizeOf key + sizeOf value
        omega
      exact Value.induct null bool number string array object entry.2

section Measures

mutual

/-- How many containers are nested in one another. -/
def Value.depth : Value → Nat
  | .null | .bool _ | .number _ | .string _ => 0
  | .array items => depthItems items + 1
  | .object entries => depthEntries entries + 1

def depthItems : List Value → Nat
  | [] => 0
  | item :: rest => max item.depth (depthItems rest)

def depthEntries : List (List Char × Value) → Nat
  | [] => 0
  | entry :: rest => max entry.2.depth (depthEntries rest)

end

mutual

/-- No float occurs in the value. -/
def Value.whole : Value → Bool
  | .null | .bool _ | .string _ => true
  | .number value => !value.isFloat
  | .array items => wholeItems items
  | .object entries => wholeEntries entries

def wholeItems : List Value → Bool
  | [] => true
  | item :: rest => item.whole && wholeItems rest

def wholeEntries : List (List Char × Value) → Bool
  | [] => true
  | entry :: rest => entry.2.whole && wholeEntries rest

end

def valuesOf (entries : List (List Char × Value)) : List Value := entries.map Prod.snd

mutual

/-- How many values a value is made of, itself included. -/
def Value.nodes : Value → Nat
  | .null | .bool _ | .number _ | .string _ => 1
  | .array items => nodesItems items + 1
  | .object entries => nodesEntries entries + 1

def nodesItems : List Value → Nat
  | [] => 0
  | item :: rest => item.nodes + nodesItems rest

def nodesEntries : List (List Char × Value) → Nat
  | [] => 0
  | entry :: rest => entry.2.nodes + nodesEntries rest

end

theorem Value.nodes_pos (value : Value) : 0 < value.nodes := by
  cases value <;> simp [Value.nodes]

theorem nodesItems_eq (items : List Value) : nodesItems items = (items.map Value.nodes).sum := by
  induction items with
  | nil => rfl
  | cons item rest ih => rw [nodesItems, ih, List.map_cons, List.sum_cons]

theorem nodesEntries_eq (entries : List (List Char × Value)) :
    nodesEntries entries = ((valuesOf entries).map Value.nodes).sum := by
  induction entries with
  | nil => rfl
  | cons entry rest ih =>
    rw [nodesEntries, ih]
    rfl

/-- Keys in strictly rising order. -/
def Sorted (entries : List (List Char × Value)) : Prop :=
  entries.Pairwise fun first second => compare first.1 second.1 = .lt

mutual

/-- Every object in the value has its keys in order. -/
def Value.Ordered : Value → Prop
  | .null | .bool _ | .number _ | .string _ => True
  | .array items => OrderedItems items
  | .object entries => Sorted entries ∧ OrderedEntries entries

def OrderedItems : List Value → Prop
  | [] => True
  | item :: rest => item.Ordered ∧ OrderedItems rest

def OrderedEntries : List (List Char × Value) → Prop
  | [] => True
  | entry :: rest => entry.2.Ordered ∧ OrderedEntries rest

end

end Measures

section Writer

def hexDigit (value : Nat) : Char := Nat.digitChar value

/-- A character of a string as it is written. -/
def escape (c : Char) : List Char :=
  if c = '"' then ['\\', '"']
  else if c = '\\' then ['\\', '\\']
  else if c.toNat = 8 then ['\\', 'b']
  else if c.toNat = 12 then ['\\', 'f']
  else if c = '\n' then ['\\', 'n']
  else if c = '\r' then ['\\', 'r']
  else if c = '\t' then ['\\', 't']
  else if c.toNat < 32 then ['\\', 'u', '0', '0', hexDigit (c.toNat / 16), hexDigit (c.toNat % 16)]
  else [c]

def writeString (text : List Char) : List Char := '"' :: text.flatMap escape ++ ['"']

def Number.write : Number → List Char
  | .posInt value _ => Text.decimal value
  | .negInt magnitude _ => '-' :: Text.decimal magnitude
  | .float literal => literal

mutual

/-- The compact text of a value. -/
def Value.write : Value → List Char
  | .null => ['n', 'u', 'l', 'l']
  | .bool true => ['t', 'r', 'u', 'e']
  | .bool false => ['f', 'a', 'l', 's', 'e']
  | .number value => value.write
  | .string text => writeString text
  | .array [] => ['[', ']']
  | .array (item :: rest) => '[' :: item.write ++ writeItems rest
  | .object [] => ['{', '}']
  | .object (entry :: rest) =>
    '{' :: writeString entry.1 ++ ':' :: entry.2.write ++ writeEntries rest

/-- What follows an item, up to the end of the array. -/
def writeItems : List Value → List Char
  | [] => [']']
  | item :: rest => ',' :: item.write ++ writeItems rest

def writeEntries : List (List Char × Value) → List Char
  | [] => ['}']
  | entry :: rest => ',' :: writeString entry.1 ++ ':' :: entry.2.write ++ writeEntries rest

end

end Writer

section Reader

/-- A reader takes a value off the front of a text, or refuses it. -/
abbrev Reader (α : Type) := List Char → Option (α × List Char)

def skip (text : List Char) : List Char :=
  text.dropWhile fun c => c = ' ' || c = '\n' || c = '\t' || c = '\r'

def word (spelled : List Char) (value : Value) : Reader Value := fun text =>
  if spelled.isPrefixOf text then some (value, text.drop spelled.length) else none

/-- A nonempty run of digits. -/
def digits : Reader (List Char) := fun text =>
  let run := text.takeWhile Char.isDigit
  if run.isEmpty then none else some (run, text.dropWhile Char.isDigit)

/-- The fraction of a number, if it has one. -/
def fraction : Reader (List Char)
  | '.' :: rest => (digits rest).map fun found => ('.' :: found.1, found.2)
  | text => some ([], text)

/-- The exponent of a number, if it has one. -/
def exponent : Reader (List Char)
  | c :: rest =>
    if c = 'e' ∨ c = 'E' then
      match rest with
      | sign :: rest =>
        if sign = '+' ∨ sign = '-' then
          (digits rest).map fun found => (c :: sign :: found.1, found.2)
        else (digits (sign :: rest)).map fun found => (c :: found.1, found.2)
      | [] => none
    else some ([], c :: rest)
  | [] => some ([], [])

/-- A number after its sign. -/
def number (negative : Bool) : Reader Number := fun text => do
  let (whole, rest) ← digits text
  if whole.head? = some '0' ∧ 1 < whole.length then none
  else
    let (part, rest) ← fraction rest
    let (power, rest) ← exponent rest
    let literal := (if negative then ['-'] else []) ++ whole ++ part ++ power
    let value := Nat.ofDigitChars 10 whole 0
    let read : Number :=
      if part = [] ∧ power = [] then
        if negative then
          if fits : 0 < value ∧ value ≤ 2 ^ 63 then .negInt value fits else .float literal
        else if fits : value < 2 ^ 64 then .posInt value fits else .float literal
      else .float literal
    return (read, rest)

def hexValue (c : Char) : Option Nat :=
  if c.isDigit then some (c.toNat - 48)
  else if 97 ≤ c.toNat ∧ c.toNat ≤ 102 then some (c.toNat - 87)
  else if 65 ≤ c.toNat ∧ c.toNat ≤ 70 then some (c.toNat - 55)
  else none

def hex4 : Reader Nat
  | first :: second :: third :: fourth :: rest => do
      let a ← hexValue first
      let b ← hexValue second
      let c ← hexValue third
      let d ← hexValue fourth
      return (((a * 16 + b) * 16 + c) * 16 + d, rest)
  | _ => none

/-- The character an escape stands for, after its backslash. -/
def unescape : Reader Char
  | '"' :: rest => some ('"', rest)
  | '\\' :: rest => some ('\\', rest)
  | '/' :: rest => some ('/', rest)
  | 'b' :: rest => some (Char.ofNat 8, rest)
  | 'f' :: rest => some (Char.ofNat 12, rest)
  | 'n' :: rest => some ('\n', rest)
  | 'r' :: rest => some ('\r', rest)
  | 't' :: rest => some ('\t', rest)
  | 'u' :: rest => do
      let (unit, rest) ← hex4 rest
      if 0xDC00 ≤ unit ∧ unit ≤ 0xDFFF then none
      else if 0xD800 ≤ unit ∧ unit ≤ 0xDBFF then
        match rest with
        | '\\' :: 'u' :: rest => do
            let (low, rest) ← hex4 rest
            if 0xDC00 ≤ low ∧ low ≤ 0xDFFF then
              some (Char.ofNat ((unit - 0xD800) * 0x400 + (low - 0xDC00) + 0x10000), rest)
            else none
        | _ => none
      else some (Char.ofNat unit, rest)
  | _ => none

/-- A string after its quote, of at most `fuel` characters. -/
def stringBody : Nat → Reader (List Char)
  | 0, _ => none
  | _ + 1, [] => none
  | fuel + 1, c :: rest =>
    if c = '"' then some ([], rest)
    else if c = '\\' then do
      let (read, rest) ← unescape rest
      let (others, rest) ← stringBody fuel rest
      return (read :: others, rest)
    else if c.toNat < 32 then none
    else do
      let (others, rest) ← stringBody fuel rest
      return (c :: others, rest)

def string : Reader (List Char)
  | '"' :: rest => stringBody rest.length rest
  | _ => none

/-- A value that is no container. -/
def scalar : Reader Value
  | 'n' :: rest => word ['u', 'l', 'l'] .null rest
  | 't' :: rest => word ['r', 'u', 'e'] (.bool true) rest
  | 'f' :: rest => word ['a', 'l', 's', 'e'] (.bool false) rest
  | '-' :: rest => (number true rest).map fun found => (.number found.1, found.2)
  | '"' :: rest => (string ('"' :: rest)).map fun found => (.string found.1, found.2)
  | text => (number false text).map fun found => (.number found.1, found.2)

section Containers

variable (inner : Reader Value)

/-- The items of an array, at most `fuel` of them, after its bracket or a comma. -/
def elements : Nat → Reader (List Value)
  | 0, _ => none
  | fuel + 1, text => do
      let (item, rest) ← inner text
      match skip rest with
      | ']' :: rest => some ([item], rest)
      | ',' :: rest => do
          let (others, rest) ← elements fuel rest
          return (item :: others, rest)
      | _ => none

def items : Reader (List Value) := fun text =>
  match skip text with
  | ']' :: rest => some ([], rest)
  | rest => elements inner text.length rest

/-- A key, its colon and its value. -/
def entry : Reader (List Char × Value) := fun text => do
  let (key, rest) ← string (skip text)
  match skip rest with
  | ':' :: rest => do
      let (value, rest) ← inner rest
      return ((key, value), rest)
  | _ => none

/-- The entries of an object, at most `fuel` of them, after its brace or a comma. -/
def members : Nat → Reader (List (List Char × Value))
  | 0, _ => none
  | fuel + 1, text => do
      let (first, rest) ← entry inner text
      match skip rest with
      | '}' :: rest => some ([first], rest)
      | ',' :: rest => do
          let (others, rest) ← members fuel rest
          return (first :: others, rest)
      | _ => none

/-- Every entry as it stands, a key said twice included. -/
def entries : Reader (List (List Char × Value)) := fun text =>
  match skip text with
  | '}' :: rest => some ([], rest)
  | rest => members inner text.length rest

end Containers

/-- Reads a value that opens at most `depth` containers in one another. -/
def value : Nat → Reader Value
  | 0, text =>
    match skip text with
    | '[' :: _ | '{' :: _ => none
    | text => scalar text
  | depth + 1, text =>
    match skip text with
    | '[' :: rest => (items (value depth) rest).map fun found => (.array found.1, found.2)
    | '{' :: rest => (entries (value depth) rest).map fun found => (.object found.1, found.2)
    | text => scalar text

/-- The entries in the order of their keys, the last of each key. -/
def collect (entries : List (List Char × Value)) : List (List Char × Value) :=
  (entries.foldl (fun held entry => held.insert entry.1 entry.2) (∅ : OrdMap (List Char) Value)).toList

mutual

/-- A value as maps hold it: each object collected. -/
def Value.settle : Value → Value
  | .null => .null
  | .bool value => .bool value
  | .number value => .number value
  | .string text => .string text
  | .array items => .array (settleItems items)
  | .object entries => .object (collect (settleEntries entries))

def settleItems : List Value → List Value
  | [] => []
  | item :: rest => item.settle :: settleItems rest

def settleEntries : List (List Char × Value) → List (List Char × Value)
  | [] => []
  | entry :: rest => (entry.1, entry.2.settle) :: settleEntries rest

end

end Reader

end JsonText

end Sprawling
