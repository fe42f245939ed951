import Sprawling.Base.InetSpelling

/-! The host of a URL as a standard parser leaves it: a name, an address, or, where the scheme is none a
browser connects with, a text nothing is made of. A name that ends in a number would have been read as an
address, so it is no name. -/

namespace Inet

/-- A part of a dotted address: hexadecimal behind 0x, octal behind a zero, else decimal. -/
def parseIpv4Number (part : List Char) : Option Nat :=
  match part with
  | [] => none
  | '0' :: mark :: rest =>
    if mark = 'x' ∨ mark = 'X' then
      if rest.all (isDigit 16) then some (number 16 rest) else none
    else if (mark :: rest).all (isDigit 8) then some (number 8 (mark :: rest)) else none
  | digits => if digits.all (isDigit 10) then some (number 10 digits) else none

/-- The last label of a name, one dot at its end left aside. -/
def lastLabel (name : List Char) : List Char :=
  match (name.splitOn '.').reverse with
  | [] => []
  | [only] => only
  | [] :: last :: _ => last
  | last :: _ => last

/-- Whether a name's last label is a number. -/
def endsInNumber (name : List Char) : Bool :=
  let last := lastLabel name
  (last ≠ [] && last.all Char.isDigit) || (parseIpv4Number last).isSome

/-- Characters no name holds. -/
def forbiddenInName (c : Char) : Bool :=
  c.toNat ≤ 0x20 || c.toNat == 0x7f
    || c ∈ ['#', '/', ':', '<', '>', '?', '@', '[', '\\', ']', '^', '|', '%']

/-- A name: ASCII in lower case, without the characters that mean something in a URL. -/
structure Domain where
  name : List Char
  some_name : name ≠ []
  ascii : ∀ c ∈ name, c.toNat < 128
  lower : ∀ c ∈ name, ¬(65 ≤ c.toNat ∧ c.toNat ≤ 90)
  plain : ∀ c ∈ name, forbiddenInName c = false
  unnumbered : endsInNumber name = false

inductive Host where
  | domain (name : Domain)
  | ipv4 (addr : Ipv4)
  | ipv6 (addr : Ipv6)
  | verbatim (text : List Char)
  | empty

namespace Host

/-- The host's spelling in a URL. -/
def spelling : Host → List Char
  | domain name => name.name
  | ipv4 addr => addr.spelling
  | ipv6 addr => '[' :: (addr.spelling ++ [']'])
  | verbatim text => text
  | empty => []

def ofAddress : IpAddr → Host
  | .v4 addr => ipv4 addr
  | .v6 addr => ipv6 addr

end Host

def Ipv4.isInside (addr : Ipv4) : Bool := addr.isLoopback || addr.isPrivate || addr.isLinkLocal

def Ipv6.isInside (addr : Ipv6) : Bool :=
  addr.isLoopback || addr.isUniqueLocal || addr.isUnicastLinkLocal

/-- Whether a browser connects to the host. -/
def Host.connects : Host → Bool
  | domain _ | ipv4 _ | ipv6 _ => true
  | verbatim _ | empty => false

/-- The host is the machine or on the network around it, told without resolving a name. -/
def Host.isInside : Host → Bool
  | domain name => name.name = localhost || name.name = localhost ++ ['.']
  | ipv4 addr => addr.isInside
  | ipv6 addr => addr.isInside
  | verbatim _ | empty => false

end Inet
