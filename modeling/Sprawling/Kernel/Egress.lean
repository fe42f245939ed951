import Sprawling.Base.Host
import Sprawling.Kernel.AccountRecovery
import Mathlib.Data.List.Destutter

/-! Which hosts may be reached, and which of them are this machine or the network around it. -/

namespace Sprawling

open Inet Text

/-- What the kernel knows of a destination. -/
inductive EgressTarget where
  | loopback
  | privateNet
  | publicHost (host : List Char)
  | connector (label : ServerLabel)

/-- Which hosts a run may reach: the domains it names, in order and each once. -/
structure EgressAllowlist where
  suffixes : List (List Char)

namespace EgressAllowlist

/-- An entry as a rule: without blanks around it, without leading dots, in lower case. -/
def rule (entry : List Char) : List Char :=
  ((trim entry).dropWhile (· = '.')).map Char.toLower

def new (entries : List (List Char)) : EgressAllowlist where
  suffixes := (((entries.map rule).filter (· ≠ [])).mergeSort fun first second =>
    (compare first second).isLE).destutter (· ≠ ·)

/-- The host is the domain itself or one of its subdomains. -/
def admits (list : EgressAllowlist) (host : List Char) : Bool :=
  let host := (host.rdropWhile (· = '.')).map Char.toLower
  list.suffixes.any fun allowed =>
    host = allowed || allowed.isSuffixOf host &&
      (host.take (host.length - allowed.length)).getLast? = some '.'

end EgressAllowlist

/-- Why a text is no URL. -/
inductive UrlError where
  | relativeUrlWithoutBase
  | other

namespace Egress

def malformedHost : AxError :=
  .failure .invalidArgs "read a url" "the url's host is not a host"
    "pass an absolute url, for example `https://example.com/page`"

/-- The host a URL names, when it names one. -/
def hostOf (parse : List Char → Except UrlError (Option Host)) (url : List Char) :
    Except AxError (Option (List Char)) :=
  match parse (trim url) with
  | .ok parsed =>
    .ok (((parsed.map Host.spelling).filter (· ≠ [])).map fun host =>
      ((host.dropWhile (· = '[')).rdropWhile (· = ']')).map Char.toLower)
  | .error .relativeUrlWithoutBase => .ok none
  | .error .other => .error malformedHost

/-- Four octets when the text is a dotted address. -/
def ipv4Octets (host : List Char) : Option Ipv4 :=
  match (host.splitOn '.').mapM (parseUnsigned 256) with
  | some [first, second, third, fourth] =>
    some ⟨UInt8.ofNat first, UInt8.ofNat second, UInt8.ofNat third, UInt8.ofNat fourth⟩
  | _ => none

/-- A number in a radix as integer parsing reads it: one leading plus sign is allowed. -/
def parseRadix (radix bound : Nat) (text : List Char) : Option Nat :=
  let digits := (readGiven '+' text).getD text
  if digits ≠ [] ∧ digits.all (isDigit radix) ∧ number radix digits < bound then
    some (number radix digits)
  else none

/-- The first sixteen-bit group, when the text has colons. -/
def ipv6Leading (host : List Char) : Option UInt16 :=
  if ':' ∈ host then
    (parseRadix 16 65536 (host.takeWhile (· ≠ ':'))).map UInt16.ofNat
  else none

/-- The host as it is judged. -/
def bare (host : List Char) : List Char :=
  ((((trim host).rdropWhile (· = '.')).dropWhile (· = '[')).rdropWhile (· = ']')).map Char.toLower

/-- Classifies a host name or address. It is never resolved, and what cannot be read as an address is
public. -/
def targetOf (host : List Char) : EgressTarget :=
  let bare := bare host
  if bare = localhost ∨ bare = [':', ':', '1'] then .loopback
  else
    let octets := ipv4Octets bare
    if octets.any (·.first == 127) then .loopback
    else if octets.any fun addr => addr.first == 10 || addr.first == 192 && addr.second == 168
        || addr.first == 172 && 16 ≤ addr.second && addr.second ≤ 31
        || addr.first == 169 && addr.second == 254 then .privateNet
    else if (ipv6Leading bare).any fun leading =>
        leading &&& 0xfe00 == 0xfc00 || leading &&& 0xffc0 == 0xfe80 then .privateNet
    else .publicHost bare

end Egress

end Sprawling
