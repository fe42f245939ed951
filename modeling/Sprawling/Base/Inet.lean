import Sprawling.Base.Text

/-! Internet addresses: the values, the ranges that are no public ones, and the reader of their
spellings. A dotted address is four decimal octets without leading zeros. A colon-separated one is
eight hexadecimal groups, of which one run of zeros may be left out behind two colons, and of which
the last two may be a dotted address. -/

namespace Inet

open Option Text

structure Ipv4 where
  first : UInt8
  second : UInt8
  third : UInt8
  fourth : UInt8
deriving DecidableEq

namespace Ipv4

def isLoopback (addr : Ipv4) : Bool := addr.first == 127

/-- 10.0.0.0/8, 172.16.0.0/12 and 192.168.0.0/16. -/
def isPrivate (addr : Ipv4) : Bool :=
  addr.first == 10 || addr.first == 172 && 16 ≤ addr.second && addr.second ≤ 31
    || addr.first == 192 && addr.second == 168

def isLinkLocal (addr : Ipv4) : Bool := addr.first == 169 && addr.second == 254

end Ipv4

structure Ipv6 where
  groups : List UInt16
  sized : groups.length = 8
deriving DecidableEq

namespace Ipv6

def leading (addr : Ipv6) : UInt16 := addr.groups.headD 0

def isLoopback (addr : Ipv6) : Bool := addr.groups == [0, 0, 0, 0, 0, 0, 0, 1]

def isUniqueLocal (addr : Ipv6) : Bool := addr.leading &&& 0xfe00 == 0xfc00

def isUnicastLinkLocal (addr : Ipv6) : Bool := addr.leading &&& 0xffc0 == 0xfe80

/-- The dotted address that ::ffff:0:0/96 holds. -/
def toIpv4Mapped (addr : Ipv6) : Option Ipv4 :=
  match addr.groups with
  | [0, 0, 0, 0, 0, 0xffff, high, low] =>
    some ⟨(high >>> 8).toUInt8, high.toUInt8, (low >>> 8).toUInt8, low.toUInt8⟩
  | _ => none

end Ipv6

inductive IpAddr where
  | v4 (addr : Ipv4)
  | v6 (addr : Ipv6)
deriving DecidableEq

namespace IpAddr

def isLoopback : IpAddr → Bool
  | v4 addr => addr.isLoopback
  | v6 addr => addr.isLoopback

/-- A mapped address as the dotted one it maps. -/
def toCanonical : IpAddr → IpAddr
  | v4 addr => v4 addr
  | v6 addr =>
    match addr.toIpv4Mapped with
    | some mapped => v4 mapped
    | none => v6 addr

end IpAddr

def localhost : List Char := ['l', 'o', 'c', 'a', 'l', 'h', 'o', 's', 't']

/-! ### The reader -/

/-- The value of a digit, in either case of a letter. -/
def digit (radix : Nat) (c : Char) : Option Nat :=
  let value :=
    if 48 ≤ c.toNat ∧ c.toNat ≤ 57 then c.toNat - 48
    else if 97 ≤ c.toNat ∧ c.toNat ≤ 122 then c.toNat - 97 + 10
    else if 65 ≤ c.toNat ∧ c.toNat ≤ 90 then c.toNat - 65 + 10
    else radix
  if value < radix then some value else none

def isDigit (radix : Nat) (c : Char) : Bool := (digit radix c).isSome

/-- The number a run of digits spells. -/
def number (radix : Nat) (run : List Char) : Nat :=
  run.foldl (fun value c => value * radix + (digit radix c).getD 0) 0

/-- A run of at most so many digits whose number fits. -/
def readNumber (radix maxDigits : Nat) (zeroPrefix : Bool) (bound : Nat) (text : List Char) :
    Option (Nat × List Char) :=
  let run := text.takeWhile (isDigit radix)
  if run.length > maxDigits then none
  else if run = [] then none
  else if !zeroPrefix ∧ run.head? = some '0' ∧ run.length > 1 then none
  else if number radix run < bound then some (number radix run, text.drop run.length)
  else none

def readGiven (mark : Char) : List Char → Option (List Char)
  | [] => none
  | c :: rest => if c = mark then some rest else none

/-- What every item but the first stands behind. -/
def readSeparator (mark : Char) (first : Bool) (text : List Char) : Option (List Char) :=
  if first then some text else readGiven mark text

def readOctet (text : List Char) : Option (UInt8 × List Char) :=
  (readNumber 10 3 false 256 text).map fun found => (UInt8.ofNat found.1, found.2)

def readIpv4 (text : List Char) : Option (Ipv4 × List Char) := do
  let (first, text) ← readOctet text
  let (second, text) ← readOctet (← readGiven '.' text)
  let (third, text) ← readOctet (← readGiven '.' text)
  let (fourth, text) ← readOctet (← readGiven '.' text)
  return (⟨first, second, third, fourth⟩, text)

def readGroup (text : List Char) : Option (UInt16 × List Char) :=
  (readNumber 16 4 true 65536 text).map fun found => (UInt16.ofNat found.1, found.2)

/-- Groups until there are enough or none follows, and whether the last two were a dotted address. -/
def readGroups : (left : Nat) → (first : Bool) → List Char → List UInt16 × Bool × List Char
  | 0, _, text => ([], false, text)
  | left + 1, first, text =>
    match if 0 < left then (readSeparator ':' first text).bind readIpv4 else none with
    | some (addr, rest) =>
      ([addr.first.toUInt16 <<< 8 ||| addr.second.toUInt16,
        addr.third.toUInt16 <<< 8 ||| addr.fourth.toUInt16], true, rest)
    | none =>
      match (readSeparator ':' first text).bind readGroup with
      | some (group, rest) =>
        let (groups, dotted, rest) := readGroups left false rest
        (group :: groups, dotted, rest)
      | none => ([], false, text)

def ofGroups (groups : List UInt16) : Option Ipv6 :=
  if sized : groups.length = 8 then some ⟨groups, sized⟩ else none

def readIpv6 (text : List Char) : Option (Ipv6 × List Char) := do
  let (head, dotted, text) := readGroups 8 true text
  if head.length = 8 then return (← ofGroups head, text)
  else if dotted then none
  else
    let text ← readGiven ':' text
    let text ← readGiven ':' text
    let (tail, _, text) := readGroups (7 - head.length) true text
    return (← ofGroups (head ++ List.replicate (8 - tail.length - head.length) 0 ++ tail), text)

def readIpAddr (text : List Char) : Option (IpAddr × List Char) :=
  match readIpv4 text with
  | some (addr, rest) => some (.v4 addr, rest)
  | none => (readIpv6 text).map fun found => (.v6 found.1, found.2)

/-- The address a whole text spells. -/
def IpAddr.parse (text : List Char) : Option IpAddr :=
  match readIpAddr text with
  | some (addr, []) => some addr
  | _ => none

/-! ### Either case of a letter reads the same -/

variable (radix : Nat)

theorem digit_toLower (c : Char) : digit radix c.toLower = digit radix c := by
  by_cases upper : 65 ≤ c.toNat ∧ c.toNat ≤ 90
  · have turned : c.toLower.toNat = c.toNat + 32 := by rw [toNat_toLower, if_pos upper]
    have first : ¬(48 ≤ c.toLower.toNat ∧ c.toLower.toNat ≤ 57) := by omega
    have second : 97 ≤ c.toLower.toNat ∧ c.toLower.toNat ≤ 122 := by omega
    have third : ¬(48 ≤ c.toNat ∧ c.toNat ≤ 57) := by omega
    have fourth : ¬(97 ≤ c.toNat ∧ c.toNat ≤ 122) := by omega
    have value : c.toLower.toNat - 97 + 10 = c.toNat - 65 + 10 := by omega
    rw [digit, digit, if_neg first, if_pos second, if_neg third, if_neg fourth, if_pos upper, value]
  · rw [toLower_of_not_upper upper]

theorem isDigit_comp_toLower : isDigit radix ∘ Char.toLower = isDigit radix :=
  funext fun c => by rw [Function.comp_apply, isDigit, digit_toLower, isDigit]

theorem number_map_toLower (run : List Char) :
    number radix (run.map Char.toLower) = number radix run := by
  simp only [number, List.foldl_map, digit_toLower]

/-- What a reader left, in lower case. -/
def lowered {α : Type} (found : α × List Char) : α × List Char :=
  (found.1, found.2.map Char.toLower)

theorem readNumber_toLower (maxDigits : Nat) (zeroPrefix : Bool) (bound : Nat) (text : List Char) :
    readNumber radix maxDigits zeroPrefix bound (text.map Char.toLower) =
      (readNumber radix maxDigits zeroPrefix bound text).map lowered := by
  have zero : ∀ run : List Char, (run.map Char.toLower).head? = some '0' ↔ run.head? = some '0' := by
    intro run
    cases run with
    | nil => simp
    | cons c run => simp [toLower_eq_mark (show Text.Mark '0' by decide)]
  simp only [readNumber, List.takeWhile_map, isDigit_comp_toLower, List.length_map,
    number_map_toLower, List.map_eq_nil_iff, zero, ← List.map_drop]
  split_ifs <;> rfl

variable {mark : Char}

theorem readGiven_toLower (plain : Text.Mark mark) (text : List Char) :
    readGiven mark (text.map Char.toLower) = (readGiven mark text).map (List.map Char.toLower) := by
  cases text with
  | nil => rfl
  | cons c rest =>
    simp only [List.map_cons, readGiven, toLower_eq_mark plain]
    split_ifs <;> rfl

theorem readSeparator_toLower (plain : Text.Mark mark) (first : Bool)
    (text : List Char) : readSeparator mark first (text.map Char.toLower) =
      (readSeparator mark first text).map (List.map Char.toLower) := by
  cases first with
  | false => exact readGiven_toLower plain text
  | true => rfl

variable (text : List Char)

theorem readOctet_toLower : readOctet (text.map Char.toLower) = (readOctet text).map lowered := by
  rw [readOctet, readNumber_toLower, Option.map_map, readOctet, Option.map_map]
  rfl

theorem readGroup_toLower : readGroup (text.map Char.toLower) = (readGroup text).map lowered := by
  rw [readGroup, readNumber_toLower, Option.map_map, readGroup, Option.map_map]
  rfl

theorem readIpv4_toLower : readIpv4 (text.map Char.toLower) = (readIpv4 text).map lowered := by
  have dot : Text.Mark '.' := by decide
  simp only [readIpv4, readOctet_toLower, readGiven_toLower dot, bind_eq_bind,
    bind_map, Option.map_bind, Function.comp_def, lowered, Option.pure_def, map_some]

theorem readGroups_toLower (left : Nat) (first : Bool) (text : List Char) :
    readGroups left first (text.map Char.toLower) =
      ((readGroups left first text).1, lowered (readGroups left first text).2) := by
  have colon : Text.Mark ':' := by decide
  induction left generalizing first text with
  | zero => rfl
  | succ left ih =>
    have dotted : (if 0 < left then
          (readSeparator ':' first (text.map Char.toLower)).bind readIpv4 else none) =
        (if 0 < left then (readSeparator ':' first text).bind readIpv4 else none).map lowered := by
      rw [readSeparator_toLower colon]
      cases readSeparator ':' first text <;> by_cases more : 0 < left <;>
        simp [more, readIpv4_toLower]
    have group : (readSeparator ':' first (text.map Char.toLower)).bind readGroup =
        ((readSeparator ':' first text).bind readGroup).map lowered := by
      rw [readSeparator_toLower colon]
      cases readSeparator ':' first text <;> simp [readGroup_toLower]
    simp only [readGroups, dotted, group]
    cases if 0 < left then (readSeparator ':' first text).bind readIpv4 else none with
    | some found => rfl
    | none =>
      cases (readSeparator ':' first text).bind readGroup with
      | some found => simp only [map_none, map_some, lowered, ih]
      | none => rfl

theorem readIpv6_toLower : readIpv6 (text.map Char.toLower) = (readIpv6 text).map lowered := by
  have colon : Text.Mark ':' := by decide
  rcases found : readGroups 8 true text with ⟨head, dotted, rest⟩
  simp only [readIpv6, readGroups_toLower, found, lowered]
  by_cases whole : head.length = 8
  · rw [if_pos whole, if_pos whole]
    cases ofGroups head <;> rfl
  · rw [if_neg whole, if_neg whole]
    cases dotted with
    | true => rfl
    | false =>
      simp only [Bool.false_eq_true, if_false, readGiven_toLower colon]
      cases readGiven ':' rest with
      | none => rfl
      | some rest =>
        simp only [map_some, bind_eq_bind, bind_some, readGiven_toLower colon]
        cases readGiven ':' rest with
        | none => rfl
        | some rest =>
          simp only [map_some, bind_some, readGroups_toLower, lowered]
          cases ofGroups _ <;> rfl

theorem readIpAddr_toLower :
    readIpAddr (text.map Char.toLower) = (readIpAddr text).map lowered := by
  rw [readIpAddr, readIpv4_toLower, readIpv6_toLower, readIpAddr]
  cases readIpv4 text with
  | some found => rfl
  | none => cases readIpv6 text <;> rfl

theorem IpAddr.parse_toLower : IpAddr.parse (text.map Char.toLower) = IpAddr.parse text := by
  rw [IpAddr.parse, readIpAddr_toLower, IpAddr.parse]
  cases readIpAddr text with
  | none => rfl
  | some found =>
    obtain ⟨addr, rest⟩ := found
    cases rest <;> rfl

end Inet
