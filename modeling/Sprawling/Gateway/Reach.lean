import Sprawling.Base.Inet

/-! Where a base URL points: its host, told without a URL parser, and whether that host is this machine,
its private network, or anywhere else. -/

namespace Sprawling

open Text Inet

namespace Reach

def http : List Char := ['h', 't', 't', 'p']

def https : List Char := ['h', 't', 't', 'p', 's']

def colonSlashes : List Char := [':', '/', '/']

/-- The two sides of the first colon that two slashes follow. -/
def splitScheme : List Char → Option (List Char × List Char)
  | ':' :: '/' :: '/' :: rest => some ([], rest)
  | c :: rest => (splitScheme rest).map fun sides => (c :: sides.1, sides.2)
  | [] => none

def endsAuthority (c : Char) : Bool := c = '/' || c = '?' || c = '#'

/-- The authority without what is written before its last at sign. -/
def afterUser (authority : List Char) : List Char :=
  match rsplitOnce '@' authority with
  | some (_, host) => host
  | none => authority

/-- The host and the port of an authority. Brackets decide where an address ends and a port begins. -/
def hostAndPort (fallback : Nat) (authority : List Char) : Option (List Char × Nat) :=
  match readGiven '[' authority with
  | some bracketed =>
    match splitOnce ']' bracketed with
    | none => none
    | some (inside, rest) =>
      match readGiven ':' rest with
      | some port => (parseUnsigned 65536 port).map fun port => (inside, port)
      | none => some (inside, fallback)
  | none =>
    match rsplitOnce ':' authority with
    | some (host, port) =>
      if ':' ∈ host then some (authority, fallback)
      else (parseUnsigned 65536 port).map fun port => (host, port)
    | none => some (authority, fallback)

/-- The host and port a base URL points at, and whether its scheme is the TLS one. -/
def split (baseUrl : List Char) : Option (List Char × Nat × Bool) := do
  let (scheme, rest) ← splitScheme baseUrl
  let tls ← if scheme = https then some true else if scheme = http then some false else none
  let authority := afterUser (rest.takeWhile fun c => !endsAuthority c)
  let (host, port) ← hostAndPort (if tls then 443 else 80) authority
  if host = [] then none else some (host, port, tls)

end Reach

/-- Where an address is, as far as a call to it is concerned. -/
inductive Locality where
  | machine
  | privateNetwork
  | publicNetwork
deriving DecidableEq

namespace Locality

open Inet

def ofAddress (addr : IpAddr) : Locality :=
  if addr.isLoopback then machine
  else
    let inside := match addr with
      | .v4 addr => addr.isPrivate || addr.isLinkLocal
      | .v6 addr => addr.isUniqueLocal || addr.isUnicastLinkLocal
    if inside then privateNetwork else publicNetwork

def under (host domain : List Char) : Bool := host = domain || ('.' :: domain).isSuffixOf host

def ofName (host : List Char) : Locality :=
  if under host localhost then machine
  else if under host ['l', 'o', 'c', 'a', 'l']
      || under host ['h', 'o', 'm', 'e', '.', 'a', 'r', 'p', 'a'] then privateNetwork
  else publicNetwork

def ofHost (host : List Char) : Locality :=
  match IpAddr.parse host with
  | some addr => ofAddress addr.toCanonical
  | none => ofName (host.map Char.toLower)

/-- Where this base URL points. A name is judged by its spelling and never resolved. -/
def ofUrl (baseUrl : List Char) : Locality :=
  match Reach.split baseUrl with
  | none => publicNetwork
  | some (host, _, _) => ofHost host

end Locality

def isLocal (baseUrl : List Char) : Bool := Locality.ofUrl baseUrl = .machine

/-! ### Either case of a letter points the same way -/

namespace Reach

theorem splitScheme_eq_some {text scheme rest : List Char}
    (found : splitScheme text = some (scheme, rest)) : text = scheme ++ colonSlashes ++ rest := by
  induction text generalizing scheme with
  | nil => cases found
  | cons c text ih =>
    unfold splitScheme at found
    split at found
    · next same =>
        cases found
        rw [same]
        rfl
    · next d others apart same =>
        cases same
        obtain ⟨⟨before, after⟩, inner, made⟩ := Option.map_eq_some_iff.mp found
        cases made
        rw [ih inner]
        rfl
    · next same => cases same

theorem splitScheme_known {scheme : List Char} (known : scheme = http ∨ scheme = https)
    (rest : List Char) : splitScheme (scheme ++ colonSlashes ++ rest) = some (scheme, rest) := by
  rcases known with rfl | rfl <;> rfl

theorem afterUser_toLower (authority : List Char) :
    afterUser (authority.map Char.toLower) = (afterUser authority).map Char.toLower := by
  rw [afterUser, rsplitOnce_toLower (by decide), afterUser]
  cases rsplitOnce '@' authority <;> rfl

theorem hostAndPort_toLower (fallback : Nat) (authority : List Char) :
    hostAndPort fallback (authority.map Char.toLower) =
      (hostAndPort fallback authority).map fun found => (found.1.map Char.toLower, found.2) := by
  have bracket : Text.Mark ']' := by decide
  have colon : Text.Mark ':' := by decide
  have colons : ∀ host : List Char, ':' ∈ host.map Char.toLower ↔ ':' ∈ host :=
    fun _ => mem_map_toLower colon
  simp only [hostAndPort, readGiven_toLower (show Text.Mark '[' by decide),
    rsplitOnce_toLower colon]
  cases readGiven '[' authority with
  | some bracketed =>
    simp only [Option.map_some, splitOnce_toLower bracket]
    cases splitOnce ']' bracketed with
    | none => rfl
    | some sides =>
      simp only [Option.map_some, readGiven_toLower colon]
      cases readGiven ':' sides.2 with
      | none => rfl
      | some port =>
        simp only [Option.map_some, parseUnsigned_toLower]
        cases parseUnsigned 65536 port <;> rfl
  | none =>
    simp only [Option.map_none]
    cases rsplitOnce ':' authority with
    | none => rfl
    | some sides =>
      simp only [Option.map_some, colons, parseUnsigned_toLower]
      split_ifs
      · rfl
      · cases parseUnsigned 65536 sides.2 <;> rfl

theorem endsAuthority_toLower (c : Char) : endsAuthority c.toLower = endsAuthority c := by
  simp only [endsAuthority, toLower_eq_mark (show Text.Mark '/' by decide),
    toLower_eq_mark (show Text.Mark '?' by decide),
    toLower_eq_mark (show Text.Mark '#' by decide)]

theorem takeWhile_authority_toLower (text : List Char) :
    (text.map Char.toLower).takeWhile (fun c => !endsAuthority c) =
      (text.takeWhile fun c => !endsAuthority c).map Char.toLower := by
  have same : (fun c => !endsAuthority c) ∘ Char.toLower = fun c => !endsAuthority c :=
    funext fun c => congrArg not (endsAuthority_toLower c)
  rw [List.takeWhile_map, same]

/-- The host of a locator. -/
def hostOf (locator : List Char) : Option (List Char) :=
  (hostAndPort 80 (afterUser (locator.takeWhile fun c => !endsAuthority c))).map Prod.fst

theorem hostAndPort_fst (fallback other : Nat) (authority : List Char) :
    (hostAndPort fallback authority).map Prod.fst = (hostAndPort other authority).map Prod.fst := by
  unfold hostAndPort
  cases readGiven '[' authority with
  | some bracketed =>
    simp only
    cases splitOnce ']' bracketed with
    | none => rfl
    | some sides =>
      simp only
      cases readGiven ':' sides.2 <;> rfl
  | none =>
    simp only
    cases rsplitOnce ':' authority with
    | none => rfl
    | some sides =>
      simp only
      split_ifs <;> rfl

/-- A URL of a known scheme points at the host of what follows. -/
theorem split_known {scheme rest host : List Char} (known : scheme = http ∨ scheme = https) :
    (∃ port tls, split (scheme ++ colonSlashes ++ rest) = some (host, port, tls)) ↔
      hostOf rest = some host ∧ host ≠ [] := by
  have same : ∀ fallback, (hostAndPort fallback (afterUser (rest.takeWhile fun c =>
      !endsAuthority c))).map Prod.fst = hostOf rest := fun fallback => hostAndPort_fst _ _ _
  have parts : ∃ tls : Bool, split (scheme ++ colonSlashes ++ rest) =
      (hostAndPort (if tls then 443 else 80) (afterUser (rest.takeWhile fun c =>
        !endsAuthority c))).bind fun found =>
          if found.1 = [] then none else some (found.1, found.2, tls) := by
    rcases known with rfl | rfl
    · exact ⟨false, rfl⟩
    · exact ⟨true, rfl⟩
  obtain ⟨tls, parts⟩ := parts
  rw [parts, ← same (if tls then 443 else 80)]
  cases hostAndPort (if tls then 443 else 80) (afterUser (rest.takeWhile fun c =>
    !endsAuthority c)) with
  | none => simp
  | some found =>
    simp only [Option.bind_some, Option.map_some, Option.some.injEq]
    constructor
    · rintro ⟨port, tls, pointed⟩
      split_ifs at pointed with empty
      cases pointed
      exact ⟨rfl, empty⟩
    · rintro ⟨rfl, filled⟩
      exact ⟨found.2, tls, if_neg filled⟩

end Reach

namespace Locality

theorem ofHost_toLower (host : List Char) : ofHost (host.map Char.toLower) = ofHost host := by
  have twice : (host.map Char.toLower).map Char.toLower = host.map Char.toLower := by
    rw [List.map_map]
    exact List.map_congr_left fun c _ => toLower_toLower c
  rw [ofHost, Inet.IpAddr.parse_toLower, twice, ofHost]

theorem ofUrl_of_split {baseUrl host : List Char} {port : Nat} {tls : Bool}
    (found : Reach.split baseUrl = some (host, port, tls)) : ofUrl baseUrl = ofHost host := by
  rw [ofUrl, found]

end Locality

end Sprawling
