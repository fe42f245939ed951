import Sprawling.Gateway.Reach
import Sprawling.Kernel.Egress

/-! The kernel and the gateway each judge where a host is, over code written apart. Where they agree, and
when the kernel takes a host that is outside for one that is inside. -/

namespace Sprawling

open Inet List Text EgressAllowlist Locality Option Ipv6

/-- The side of the machine's border the kernel puts a destination on. -/
def EgressTarget.side : EgressTarget → Locality
  | loopback => .machine
  | privateNet => .privateNetwork
  | publicHost _ | connector _ => .publicNetwork

namespace Egress

theorem of_all {α : Type} {items : List α} {p : α → Prop} [DecidablePred p]
    (checked : items.all (fun item => Decidable.decide (p item)) = true) : ∀ item ∈ items, p item :=
  fun item member => of_decide_eq_true (all_eq_true.mp checked item member)

/-! ### A text without the marks that are taken off -/

/-- A text in lower case that no blank, dot or bracket stands at the ends of. -/
structure Bare (text : List Char) : Prop where
  trimmed : Text.Trimmed text
  undotted : ∀ c, text.getLast? = some c → c ≠ '.'
  opened : ∀ c, text.head? = some c → c ≠ '['
  closed : ∀ c, text.getLast? = some c → c ≠ ']'
  lower : ∀ c ∈ text, ¬(65 ≤ c.toNat ∧ c.toNat ≤ 90)

variable {text : List Char}

theorem rdropWhile_of_getLast? {mark : Char} (ends : ∀ c, text.getLast? = some c → c ≠ mark) :
    text.rdropWhile (· = mark) = text := by
  rw [rdropWhile_eq_self_iff]
  intro some_char
  simpa using ends _ (getLast?_eq_getLast_of_ne_nil some_char)

theorem dropWhile_of_head? {mark : Char} (begins : ∀ c, text.head? = some c → c ≠ mark) :
    text.dropWhile (· = mark) = text := by
  cases text with
  | nil => rfl
  | cons c rest => exact dropWhile_cons_of_neg (by simpa using begins c rfl)

theorem map_toLower_of_lower (lower : ∀ c ∈ text, ¬(65 ≤ c.toNat ∧ c.toNat ≤ 90)) :
    text.map Char.toLower = text :=
  (map_congr_left fun c member => toLower_of_not_upper (lower c member)).trans
    (map_id text)

theorem Bare.bare_eq (plain : Bare text) : bare text = text := by
  rw [bare, trim_of_trimmed plain.trimmed, rdropWhile_of_getLast? plain.undotted,
    dropWhile_of_head? plain.opened, rdropWhile_of_getLast? plain.closed,
    map_toLower_of_lower plain.lower]

theorem Bare.bare_bracketed (plain : Bare text) : bare ('[' :: (text ++ [']'])) = text := by
  have trimmed : Text.Trimmed ('[' :: (text ++ [']'])) := by
    constructor
    · intro c first
      cases first
      decide
    · intro c last
      rw [← cons_append, getLast?_concat] at last
      cases last
      decide
  have undotted : ∀ c, ('[' :: (text ++ [']'])).getLast? = some c → c ≠ '.' := by
    intro c last
    rw [← cons_append, getLast?_concat] at last
    cases last
    decide
  have opened : ('[' :: (text ++ [']'])).dropWhile (· = '[') = text ++ [']'] := by
    rw [dropWhile_cons_of_pos (by decide)]
    refine dropWhile_of_head? fun c first => ?_
    cases text with
    | nil =>
      cases first
      decide
    | cons d rest => exact plain.opened c first
  have closed : (text ++ [']']).rdropWhile (· = ']') = text := by
    rw [rdropWhile_concat_pos _ _ _ (by decide), rdropWhile_of_getLast? plain.closed]
  rw [bare, trim_of_trimmed trimmed, rdropWhile_of_getLast? undotted, opened, closed,
    map_toLower_of_lower plain.lower]

theorem bare_of_plain {text : List Char} (plain : ∀ c ∈ text, 33 ≤ c.toNat ∧ c.toNat ≤ 126 ∧
    c ≠ '[' ∧ c ≠ ']' ∧ ¬(65 ≤ c.toNat ∧ c.toNat ≤ 90))
    (undotted : ∀ c, text.getLast? = some c → c ≠ '.') : Bare text where
  trimmed := trimmed_of_plain fun c member => by
    obtain ⟨low, high, -⟩ := plain c member
    simp only [Text.isWhitespace, Bool.or_eq_false_iff, Bool.and_eq_false_iff, beq_eq_false_iff_ne,
      decide_eq_false_iff_not]
    omega
  undotted := undotted
  opened c first := (plain c (mem_of_head? first)).2.2.1
  closed c last := (plain c (mem_of_getLast? last)).2.2.2.1
  lower c member := (plain c member).2.2.2.2

/-! ### Dotted addresses -/

variable {addr : Ipv4} {c : Char}

theorem mem_ipv4 (member : c ∈ addr.spelling) : c.isDigit = true ∨ c = '.' := by
  have digits := decimal_digits
  simp only [Ipv4.spelling, mem_append, mem_cons] at member
  rcases member with first | dot | second | dot | third | dot | fourth
  · exact .inl (digits _ c first)
  · exact .inr dot
  · exact .inl (digits _ c second)
  · exact .inr dot
  · exact .inl (digits _ c third)
  · exact .inr dot
  · exact .inl (digits _ c fourth)

theorem plain_ipv4 (member : c ∈ addr.spelling) :
    33 ≤ c.toNat ∧ c.toNat ≤ 126 ∧ c ≠ '[' ∧ c ≠ ']' ∧ ¬(65 ≤ c.toNat ∧ c.toNat ≤ 90) := by
  rcases mem_ipv4 member with digit | rfl
  · obtain ⟨low, high⟩ := digit_bounds digit
    refine ⟨by omega, by omega, ?_, ?_, by omega⟩
    · rintro rfl
      exact absurd high (by decide)
    · rintro rfl
      exact absurd high (by decide)
  · decide

theorem bare_ipv4 (addr : Ipv4) : bare addr.spelling = addr.spelling := by
  refine (bare_of_plain (fun c => plain_ipv4) fun c last => ?_).bare_eq
  have of_fourth : c ∈ decimal addr.fourth.toNat := by
    have some_digit := decimal_ne_nil addr.fourth.toNat
    have shape : addr.spelling = (decimal addr.first.toNat ++ '.' ::
        (decimal addr.second.toNat ++ '.' :: (decimal addr.third.toNat ++ ['.']))) ++
          decimal addr.fourth.toNat := by simp [Ipv4.spelling]
    rw [shape, getLast?_append_of_ne_nil _ some_digit] at last
    exact mem_of_getLast? last
  rintro rfl
  exact not_mem_decimal (by decide) _ of_fourth

theorem ipv4Octets_spelling (addr : Ipv4) : ipv4Octets addr.spelling = some addr := by
  have dotless : ∀ value, '.' ∉ decimal value := not_mem_decimal (by decide)
  have parts : addr.spelling.splitOn '.' = [decimal addr.first.toNat,
      decimal addr.second.toNat, decimal addr.third.toNat,
      decimal addr.fourth.toNat] := by
    rw [Ipv4.spelling, splitOn_append_cons_self, splitOn_append_cons_self, splitOn_append_cons_self]
    simp only [splitOn_eq_singleton (dotless _), singleton_append]
  have octets : ∀ octet : UInt8, parseUnsigned 256 (decimal octet.toNat) = some octet.toNat :=
    fun octet => parseUnsigned_decimal octet.toNat_lt
  rw [ipv4Octets, parts]
  simp only [mapM_cons, mapM_nil, octets, bind_eq_bind, bind_some,
    Option.pure_def, UInt8.ofNat_toNat]

theorem octets_inside (addr : Ipv4) : (addr.first == 10 || addr.first == 192 && addr.second == 168
    || addr.first == 172 && 16 ≤ addr.second && addr.second ≤ 31
    || addr.first == 169 && addr.second == 254) = (addr.isPrivate || addr.isLinkLocal) := by
  rw [Ipv4.isPrivate, Ipv4.isLinkLocal, Bool.or_right_comm (addr.first == 10)]

theorem side_targetOf_ipv4 (addr : Ipv4) :
    (targetOf addr.spelling).side = Locality.ofAddress (.v4 addr) := by
  have dot : '.' ∈ addr.spelling := by simp [Ipv4.spelling]
  have colonless : ':' ∉ addr.spelling := by
    intro member
    rcases mem_ipv4 member with digit | same
    · exact absurd digit (by decide)
    · exact absurd same (by decide)
  have unnamed : ¬(addr.spelling = localhost ∨ addr.spelling = [':', ':', '1']) := by
    rintro (same | same) <;>
    · rw [same] at dot
      exact absurd dot (by decide)
  have located : Locality.ofAddress (.v4 addr) = if addr.isLoopback then .machine
      else if addr.isPrivate || addr.isLinkLocal then .privateNetwork else .publicNetwork := rfl
  have loopback : (addr.first == 127) = addr.isLoopback := rfl
  rw [targetOf, located]
  simp only [bare_ipv4, if_neg unnamed, ipv4Octets_spelling, any_some, ipv6Leading,
    if_neg colonless, any_none, Bool.false_eq_true, if_false, octets_inside, loopback]
  split_ifs <;> rfl

/-! ### Colon-separated addresses -/

theorem plain_ipv6 {addr : Ipv6} (member : c ∈ addr.spelling) :
    33 ≤ c.toNat ∧ c.toNat ≤ 126 ∧ c ≠ '[' ∧ c ≠ ']' ∧ ¬(65 ≤ c.toNat ∧ c.toNat ≤ 90) := by
  rcases mem_spelling member with rfl | ⟨group, inside⟩
  · decide
  · have bounds := (hex_bounds inside).2
    refine ⟨by omega, by omega, ?_, ?_, by omega⟩
    · rintro rfl
      exact absurd bounds (by decide)
    · rintro rfl
      exact absurd bounds (by decide)

theorem Bare.ipv6 (addr : Ipv6) : Bare addr.spelling := by
  refine bare_of_plain (fun c => plain_ipv6) fun c last => ?_
  rintro rfl
  exact dot_not_colon_or_hex (mem_spelling (mem_of_getLast? last))

theorem bare_ipv6 (addr : Ipv6) : bare ('[' :: (addr.spelling ++ [']'])) = addr.spelling :=
  (Bare.ipv6 addr).bare_bracketed

theorem colon_mem_spelling (addr : Ipv6) : ':' ∈ addr.spelling := by
  rcases addr.spelling_leading with ⟨rest, same⟩ | ⟨-, rest, same⟩ <;> simp [same]

theorem spelling_eq_loopback {addr : Ipv6} :
    addr.spelling = [':', ':', '1'] ↔ addr.isLoopback = true := by
  constructor
  · intro same
    have read := addr.parse_spelling
    rw [same] at read
    have known : IpAddr.parse [':', ':', '1'] = some (.v6 ⟨[0, 0, 0, 0, 0, 0, 0, 1], rfl⟩) := by
      decide +kernel
    rw [known] at read
    cases read
    rfl
  · intro loopback
    obtain ⟨groups, sized⟩ := addr
    have same : groups = [0, 0, 0, 0, 0, 0, 0, 1] := by simpa [Ipv6.isLoopback] using loopback
    subst same
    have known : (⟨[0, 0, 0, 0, 0, 0, 0, 1], rfl⟩ : Ipv6).spelling = [':', ':', '1'] := by
      decide +kernel
    exact known

theorem ipv4Octets_ipv6 (addr : Ipv6) : ipv4Octets addr.spelling = none := by
  have whole : addr.spelling.splitOn '.' = [addr.spelling] :=
    splitOn_eq_singleton fun member => dot_not_colon_or_hex (mem_spelling member)
  rw [ipv4Octets, whole, mapM_cons, mapM_nil]
  cases parseUnsigned 256 addr.spelling <;> rfl

theorem parseRadix_hex (group : UInt16) : parseRadix 16 65536 (hex group) = some group.toNat := by
  have unsigned : readGiven '+' (hex group) = none := by
    cases digits : hex group with
    | nil => rfl
    | cons c rest =>
      have bounds := (@hex_bounds group c (by simp [digits])).2
      have apart : c ≠ '+' := by
        rintro rfl
        exact absurd bounds (by decide)
      rw [readGiven, if_neg apart]
  have some_digit : hex group ≠ [] := Nat.toDigits_ne_nil
  have digits : (hex group).all (isDigit 16) = true :=
    all_eq_true.mpr fun c member => (hex_bounds member).1
  have value : number 16 (hex group) = group.toNat :=
    number_toDigits (by decide) digit_digitChar_sixteen _
  have fits : group.toNat < 65536 := group.toNat_lt
  rw [parseRadix, unsigned, getD_none, value]
  exact if_pos ⟨some_digit, digits, fits⟩

theorem ipv6Leading_spelling (addr : Ipv6) :
    ipv6Leading addr.spelling = some addr.leading ∨
      addr.leading = 0 ∧ ipv6Leading addr.spelling = none := by
  rw [ipv6Leading, if_pos (colon_mem_spelling addr)]
  rcases addr.spelling_leading with ⟨rest, same⟩ | ⟨zero, rest, same⟩
  · have first : (hex addr.leading ++ ':' :: rest).takeWhile (· ≠ ':') = hex addr.leading := by
      rw [takeWhile_append_of_pos, takeWhile_cons_of_neg (by simp), append_nil]
      intro c member
      have digit := (hex_bounds member).1
      have apart : c ≠ ':' := by
        rintro rfl
        exact absurd digit (by decide)
      simpa using apart
    left
    rw [same, first, parseRadix_hex, map_some, UInt16.ofNat_toNat]
  · right
    rw [same, takeWhile_cons_of_neg (by simp)]
    exact ⟨zero, rfl⟩

theorem side_targetOf_ipv6 (addr : Ipv6) :
    (targetOf ('[' :: (addr.spelling ++ [']']))).side = Locality.ofAddress (.v6 addr) := by
  have unnamed : addr.spelling ≠ localhost := by
    intro same
    have member : 'l' ∈ addr.spelling := by
      rw [same]
      decide
    exact not_colon_or_hex (by decide) (by decide) (mem_spelling member)
  have located : Locality.ofAddress (.v6 addr) = if addr.isLoopback then .machine
      else if addr.isUniqueLocal || addr.isUnicastLinkLocal then .privateNetwork
      else .publicNetwork := rfl
  have inside : ((ipv6Leading addr.spelling).any fun leading =>
      leading &&& 0xfe00 == 0xfc00 || leading &&& 0xffc0 == 0xfe80) =
        (addr.isUniqueLocal || addr.isUnicastLinkLocal) := by
    rcases ipv6Leading_spelling addr with found | ⟨zero, none_found⟩
    · rw [found]
      rfl
    · rw [none_found, isUniqueLocal, isUnicastLinkLocal, zero]
      rfl
  rw [targetOf, located]
  simp only [bare_ipv6, unnamed, false_or, spelling_eq_loopback, ipv4Octets_ipv6, any_none,
    Bool.false_eq_true, if_false, inside]
  split_ifs <;> rfl

/-! ### Where they agree -/

section Url

open Reach

def Follows (tail : List Char) : Prop := ∀ c, tail.head? = some c → endsAuthority c = true

theorem ofUrl_of_authority {scheme authority tail host : List Char}
    (known : scheme = http ∨ scheme = https) (follows : Follows tail)
    (plain : ∀ c ∈ authority, endsAuthority c = false) (unnamed : '@' ∉ authority)
    (found : (hostAndPort 80 authority).map Prod.fst = some host) (filled : host ≠ []) :
    ofUrl (scheme ++ colonSlashes ++ (authority ++ tail)) = ofHost host := by
  have front : (authority ++ tail).takeWhile (fun c => !endsAuthority c) = authority := by
    rw [takeWhile_append_of_pos fun c member => by simp [plain c member]]
    cases tail with
    | nil => simp
    | cons c rest => rw [takeWhile_cons_of_neg (by simp [follows c rfl]), append_nil]
  have pointed : Reach.hostOf (authority ++ tail) = some host := by
    rw [Reach.hostOf, front, afterUser, rsplitOnce_eq_none.mpr unnamed]
    exact found
  obtain ⟨port, tls, split⟩ := (split_known known).mpr ⟨pointed, filled⟩
  exact ofUrl_of_split split

theorem endsAuthority_of_plain {c : Char} (first : c ≠ '/') (second : c ≠ '?') (third : c ≠ '#') :
    endsAuthority c = false := by
  simp [endsAuthority, first, second, third]

variable {scheme tail : List Char}

theorem ofUrl_address (addr : IpAddr)
    (known : scheme = http ∨ scheme = https) (follows : Follows tail) :
    ofUrl (scheme ++ colonSlashes ++ ((Host.ofAddress addr).spelling ++ tail)) =
      Locality.ofAddress addr.toCanonical := by
  have located : ∀ text : List Char, IpAddr.parse text = some addr →
      ofHost text = Locality.ofAddress addr.toCanonical := by
    intro text read
    rw [ofHost, read]
  cases addr with
  | v4 addr =>
    have absent : ∀ c : Char, c.isDigit = false → c ≠ '.' → c ∉ addr.spelling := by
      intro c digit dot member
      rcases mem_ipv4 member with is_digit | same
      · rw [is_digit] at digit
        cases digit
      · exact dot same
    have first := absent '/' (by decide) (by decide)
    have second := absent '?' (by decide) (by decide)
    have third := absent '#' (by decide) (by decide)
    have unbracketed : readGiven '[' addr.spelling = none := by
      cases text : addr.spelling with
      | nil => rfl
      | cons c rest =>
        have apart : c ≠ '[' := by
          rintro rfl
          exact absent '[' (by decide) (by decide) (by simp [text])
        rw [readGiven, if_neg apart]
    have filled : addr.spelling ≠ [] := by simp [Ipv4.spelling]
    have whole : hostAndPort 80 addr.spelling = some (addr.spelling, 80) := by
      rw [hostAndPort, unbracketed]
      simp only [rsplitOnce_eq_none.mpr (absent ':' (by decide) (by decide))]
    rw [← located _ addr.parse_spelling]
    refine ofUrl_of_authority known follows (fun c member => endsAuthority_of_plain ?_ ?_ ?_)
      (absent '@' (by decide) (by decide)) (by rw [Host.ofAddress, Host.spelling, whole]; rfl) filled
    · rintro rfl
      exact first member
    · rintro rfl
      exact second member
    · rintro rfl
      exact third member
  | v6 addr =>
    have absent : ∀ c : Char, isDigit 16 c = false → c ≠ ':' → c ∉ addr.spelling :=
      fun c digit colon member => not_colon_or_hex digit colon (mem_spelling member)
    have outside : ∀ c : Char, isDigit 16 c = false → c ≠ ':' → c ≠ '[' → c ≠ ']' →
        c ∉ '[' :: (addr.spelling ++ [']']) := by
      intro c digit colon opened closed member
      simp only [mem_cons, mem_append, not_mem_nil, or_false] at member
      rcases member with same | inside | same
      · exact opened same
      · exact absent c digit colon inside
      · exact closed same
    have filled : addr.spelling ≠ [] := ne_nil_of_mem (colon_mem_spelling addr)
    have cut : splitOnce ']' (addr.spelling ++ [']']) = some (addr.spelling, []) :=
      splitOnce_eq_some.mpr ⟨rfl, absent ']' (by decide) (by decide)⟩
    have whole : hostAndPort 80 ('[' :: (addr.spelling ++ [']'])) = some (addr.spelling, 80) := by
      rw [hostAndPort, readGiven, if_pos rfl]
      simp only [cut]
      rfl
    rw [← located _ addr.parse_spelling]
    refine ofUrl_of_authority known follows (fun c member => endsAuthority_of_plain ?_ ?_ ?_)
      (outside '@' (by decide) (by decide) (by decide) (by decide))
      (by rw [Host.ofAddress, Host.spelling, whole]; rfl) filled
    · rintro rfl
      exact outside '/' (by decide) (by decide) (by decide) (by decide) member
    · rintro rfl
      exact outside '?' (by decide) (by decide) (by decide) (by decide) member
    · rintro rfl
      exact outside '#' (by decide) (by decide) (by decide) (by decide) member

theorem ofUrl_localhost (known : scheme = http ∨ scheme = https)
    (follows : Follows tail) :
    ofUrl (scheme ++ colonSlashes ++ (localhost ++ tail)) = .machine := by
  rw [@ofUrl_of_authority _ localhost _ localhost known follows (of_all (by decide)) (by decide)
    (by decide) (by decide)]
  decide

end Url

/-- The address maps a dotted one that is inside. -/
def mapsInside : IpAddr → Bool
  | .v4 _ => false
  | .v6 addr => addr.toIpv4Mapped.any Ipv4.isInside

theorem ofAddress_eq_public (addr : Ipv4) :
    Locality.ofAddress (.v4 addr) = .publicNetwork ↔ addr.isInside = false := by
  have located : Locality.ofAddress (.v4 addr) = if addr.isLoopback then .machine
      else if addr.isPrivate || addr.isLinkLocal then .privateNetwork else .publicNetwork := rfl
  rw [located, Ipv4.isInside, Bool.or_assoc]
  cases addr.isLoopback <;> cases addr.isPrivate || addr.isLinkLocal <;> simp

theorem ofAddress_canonical (addr : IpAddr) :
    Locality.ofAddress addr = Locality.ofAddress addr.toCanonical ↔ mapsInside addr = false := by
  cases addr with
  | v4 addr => simp [IpAddr.toCanonical, mapsInside]
  | v6 addr =>
    rw [IpAddr.toCanonical, mapsInside]
    cases mapped : addr.toIpv4Mapped with
    | none => simp
    | some dotted =>
      have outside : Locality.ofAddress (.v6 addr) = .publicNetwork := by
        obtain ⟨groups, sized⟩ := addr
        unfold toIpv4Mapped at mapped
        simp only at mapped
        split at mapped
        · simp [Locality.ofAddress, IpAddr.isLoopback, Ipv6.isLoopback, isUniqueLocal,
            isUnicastLinkLocal, Ipv6.leading]
        · cases mapped
      rw [outside, any_some, ← ofAddress_eq_public dotted, eq_comm]

/-! ### Names -/

theorem targetOf_of_bare {first second : List Char} (same : bare first = bare second) :
    targetOf first = targetOf second := by
  rw [targetOf, same, targetOf]

theorem plain_domain (domain : Domain) (member : c ∈ domain.name) :
    33 ≤ c.toNat ∧ c.toNat ≤ 126 ∧ c ≠ '[' ∧ c ≠ ']' ∧ c ≠ ':' ∧ ¬(65 ≤ c.toNat ∧ c.toNat ≤ 90) := by
  have plain := domain.plain c member
  have ascii := domain.ascii c member
  simp only [forbiddenInName, Bool.or_eq_false_iff, decide_eq_false_iff_not, beq_eq_false_iff_ne,
    mem_cons, not_or] at plain
  obtain ⟨⟨low, delete⟩, -, -, colon, -, -, -, -, opened, -, closed, -⟩ := plain
  exact ⟨by omega, by omega, opened, closed, colon, domain.lower c member⟩

def core (name : List Char) : List Char := name.rdropWhile (· = '.')

theorem mem_of_mem_core {name : List Char} (member : c ∈ core name) : c ∈ name :=
  (List.rdropWhile_prefix _ _).subset member

theorem core_undotted (name : List Char) : ∀ c, (core name).getLast? = some c → c ≠ '.' := by
  intro c last
  have some_char : core name ≠ [] := by
    intro empty
    rw [empty] at last
    cases last
  have kept := rdropWhile_last_not (· = '.') name some_char
  rw [getLast?_eq_some_getLast some_char] at last
  cases last
  exact fun same => kept (decide_eq_true same)

theorem bare_domain (domain : Domain) : bare domain.name = core domain.name := by
  have trimmed := (@bare_of_plain (core domain.name) (fun c member => by
    obtain ⟨low, high, opened, closed, -, lower⟩ := plain_domain domain (mem_of_mem_core member)
    exact ⟨low, high, opened, closed, lower⟩) (core_undotted _)).bare_eq
  have whole : trim domain.name = domain.name := by
    refine trim_of_trimmed (trimmed_of_plain fun c member => ?_)
    obtain ⟨low, high, -⟩ := plain_domain domain member
    simp only [Text.isWhitespace, Bool.or_eq_false_iff, Bool.and_eq_false_iff, beq_eq_false_iff_ne,
      decide_eq_false_iff_not]
    omega
  have again : trim (core domain.name) = core domain.name := by
    refine trim_of_trimmed (trimmed_of_plain fun c member => ?_)
    obtain ⟨low, high, -⟩ := plain_domain domain (mem_of_mem_core member)
    simp only [Text.isWhitespace, Bool.or_eq_false_iff, Bool.and_eq_false_iff, beq_eq_false_iff_ne,
      decide_eq_false_iff_not]
    omega
  rw [bare, again, rdropWhile_of_getLast? (core_undotted _)] at trimmed
  rw [bare, whole]
  exact trimmed

theorem side_targetOf_domain (domain : Domain) :
    (targetOf domain.name).side ≠ .publicNetwork ↔
      core domain.name = localhost ∨ (ipv4Octets (core domain.name)).any Ipv4.isInside = true := by
  have colonless : ':' ∉ core domain.name := fun member =>
    (plain_domain domain (mem_of_mem_core member)).2.2.2.2.1 rfl
  have unlike : core domain.name ≠ [':', ':', '1'] := by
    intro same
    rw [same] at colonless
    exact colonless (by decide)
  rw [targetOf]
  simp only [bare_domain, unlike, or_false, ipv6Leading, if_neg colonless, any_none,
    Bool.false_eq_true, if_false]
  by_cases named : core domain.name = localhost
  · simp [named, EgressTarget.side]
  · simp only [named, if_false, false_or]
    cases ipv4Octets (core domain.name) with
    | none => simp [EgressTarget.side]
    | some addr =>
      have loopback : (addr.first == 127) = addr.isLoopback := rfl
      simp only [any_some, octets_inside, loopback]
      rw [Ipv4.isInside, Bool.or_assoc]
      cases addr.isLoopback <;> cases addr.isPrivate || addr.isLinkLocal <;> simp [EgressTarget.side]

/-- A name that is no address, and that the kernel reads as the machine or an address inside: it ends in
two dots or more, or its last label opens with a plus sign. -/
def Misread (name : List Char) : Prop :=
  (['.', '.'] <:+ name ∨ (((core name).splitOn '.').getLast?).any (·.head? = some '+') = true) ∧
    (core name = localhost ∨ (ipv4Octets (core name)).any Ipv4.isInside = true)

theorem lastLabel_eq {last : List Char} (ends : (text.splitOn '.').getLast? = some last)
    (filled : last ≠ []) : lastLabel text = last ∧ lastLabel (text ++ ['.']) = last := by
  have whole : ∃ others, (text.splitOn '.').reverse = last :: others := by
    rw [← head?_reverse] at ends
    cases back : (text.splitOn '.').reverse with
    | nil => simp [back] at ends
    | cons first others =>
      rw [back, head?_cons, Option.some.injEq] at ends
      exact ⟨others, by rw [ends]⟩
  obtain ⟨others, back⟩ := whole
  have dotted : ((text ++ ['.']).splitOn '.').reverse = [] :: last :: others := by
    rw [splitOn_append_cons_self, splitOn_nil, reverse_append, back]
    rfl
  constructor
  · rw [lastLabel, back]
    cases others with
    | nil => rfl
    | cons next rest =>
      cases last with
      | nil => exact absurd rfl filled
      | cons c label => rfl
  · rw [lastLabel, dotted]

theorem parsed_of_mapM {α β : Type} {f : α → Option β} {items : List α} {results : List β}
    (done : items.mapM f = some results) : ∀ item ∈ items, ∃ result, f item = some result := by
  induction items generalizing results with
  | nil => exact fun item member => absurd member not_mem_nil
  | cons first rest ih =>
    rw [mapM_cons] at done
    obtain ⟨result, found, done⟩ := bind_eq_some_iff.mp done
    obtain ⟨others, later, -⟩ := bind_eq_some_iff.mp done
    intro item member
    rcases mem_cons.mp member with rfl | member
    · exact ⟨result, found⟩
    · exact ih later item member

theorem last_of_octets (octets : ipv4Octets text = some addr) :
    ∃ last, (text.splitOn '.').getLast? = some last ∧
      (last.head? = some '+' ∨ last ≠ [] ∧ last.all Char.isDigit = true) := by
  unfold ipv4Octets at octets
  split at octets
  · next first second third fourth parsed =>
      cases ends : (text.splitOn '.').getLast? with
      | none => exact absurd (getLast?_eq_none_iff.mp ends) (splitOn_ne_nil _ _)
      | some last =>
        obtain ⟨value, read⟩ := parsed_of_mapM parsed last (mem_of_getLast? ends)
        exact ⟨last, rfl, head_or_digits_of_parseUnsigned read⟩
  · cases octets

/-- The kernel takes a name for what it is not exactly when it misreads it. -/
theorem misread_iff (domain : Domain) :
    Misread domain.name ↔ (targetOf domain.name).side ≠ .publicNetwork ∧
      ¬(domain.name = localhost ∨ domain.name = localhost ++ ['.']) := by
  rw [side_targetOf_domain, Misread]
  constructor
  · rintro ⟨odd, read⟩
    refine ⟨read, ?_⟩
    rintro (same | same) <;>
    · rw [same] at odd
      revert odd
      decide
  · rintro ⟨read, other⟩
    refine ⟨?_, read⟩
    have whole : core domain.name ++ domain.name.rtakeWhile (· = '.') = domain.name :=
      rdropWhile_append_rtakeWhile
    have dots : ∀ c ∈ domain.name.rtakeWhile (· = '.'), c = '.' :=
      fun c member => by simpa using mem_rtakeWhile_imp member
    generalize domain.name.rtakeWhile (· = '.') = tail at whole dots
    by_cases many : 2 ≤ tail.length
    · left
      have same := eq_replicate_iff.mpr ⟨rfl, dots⟩
      refine ⟨core domain.name ++ List.replicate (tail.length - 2) '.', ?_⟩
      have cut : List.replicate (tail.length - 2) '.' ++ ['.', '.'] = tail := by
        rw [show ['.', '.'] = List.replicate 2 '.' from rfl, replicate_append_replicate,
          Nat.sub_add_cancel many, ← same]
      rw [append_assoc, cut, whole]
    · right
      have few : domain.name = core domain.name ∨ domain.name = core domain.name ++ ['.'] := by
        cases tail with
        | nil => exact .inl (by rw [append_nil] at whole; exact whole.symm)
        | cons c rest =>
          have none_left : rest = [] := by
            refine length_eq_zero_iff.mp ?_
            rw [length_cons] at many
            omega
          have dot := dots c mem_cons_self
          subst none_left
          subst dot
          exact .inr whole.symm
      rcases read with named | inside
      · rw [named] at few
        exact absurd few other
      · cases octets : ipv4Octets (core domain.name) with
        | none =>
          rw [octets] at inside
          cases inside
        | some addr =>
          obtain ⟨last, ends, shape⟩ := last_of_octets octets
          rw [ends]
          rcases shape with plus | ⟨filled, digits⟩
          · simpa using plus
          · have unnumbered := domain.unnumbered
            obtain ⟨first, second⟩ := lastLabel_eq ends filled
            have label : lastLabel domain.name = last := by
              rcases few with same | same
              · rw [same]
                exact first
              · rw [same]
                exact second
            rw [endsInNumber, label] at unnumbered
            simp [filled, digits] at unnumbered

/-! ### The host of a URL -/

theorem strip_plain (plain : ∀ c ∈ text, c ≠ '[' ∧ c ≠ ']' ∧ ¬(65 ≤ c.toNat ∧ c.toNat ≤ 90)) :
    ((text.dropWhile (· = '[')).rdropWhile (· = ']')).map Char.toLower = text := by
  rw [dropWhile_of_head? fun c first => (plain c (mem_of_head? first)).1,
    rdropWhile_of_getLast? fun c last => (plain c (mem_of_getLast? last)).2.1,
    map_toLower_of_lower fun c member => (plain c member).2.2]

theorem strip_bracketed (plain : ∀ c ∈ text, c ≠ '[' ∧ c ≠ ']' ∧ ¬(65 ≤ c.toNat ∧ c.toNat ≤ 90)) :
    ((('[' :: (text ++ [']'])).dropWhile (· = '[')).rdropWhile (· = ']')).map Char.toLower = text := by
  have opened : (text ++ [']']).dropWhile (· = '[') = text ++ [']'] := by
    refine dropWhile_of_head? fun c first => ?_
    rcases mem_append.mp (mem_of_head? first) with member | member
    · exact (plain c member).1
    · rw [mem_singleton.mp member]
      decide
  rw [dropWhile_cons_of_pos (by decide), opened, rdropWhile_concat_pos _ _ _ (by decide),
    rdropWhile_of_getLast? fun c last => (plain c (mem_of_getLast? last)).2.1,
    map_toLower_of_lower fun c member => (plain c member).2.2]

theorem hostOf_eq {parse : List Char → Except UrlError (Option Host)} {url : List Char} {host : Host}
    (parsed : parse (trim url) = .ok (some host)) (filled : host.spelling ≠ []) :
    hostOf parse url = .ok (some (((host.spelling.dropWhile (· = '[')).rdropWhile (· = ']')).map
      Char.toLower)) := by
  rw [hostOf, parsed]
  simp [filled]

/-- What the kernel puts inside is inside, as far as a browser connects to it. -/
def Judged (parse : List Char → Except UrlError (Option Host)) (url : List Char) : Prop :=
  ∀ text host, hostOf parse url = .ok (some text) → parse (trim url) = .ok (some host) →
    host.connects = true → (targetOf text).side ≠ .publicNetwork → host.isInside = true

theorem ofAddress_ipv6_eq_public (addr : Ipv6) :
    Locality.ofAddress (.v6 addr) = .publicNetwork ↔ addr.isInside = false := by
  have located : Locality.ofAddress (.v6 addr) = if addr.isLoopback then .machine
      else if addr.isUniqueLocal || addr.isUnicastLinkLocal then .privateNetwork
      else .publicNetwork := rfl
  rw [located, Ipv6.isInside, Bool.or_assoc]
  cases addr.isLoopback <;> cases addr.isUniqueLocal || addr.isUnicastLinkLocal <;> simp

theorem judged_iff (parse : List Char → Except UrlError (Option Host)) (url : List Char) :
    Judged parse url ↔
      ∀ domain, parse (trim url) = .ok (some (.domain domain)) → ¬Misread domain.name := by
  have plain_name : ∀ domain : Domain, ∀ c ∈ domain.name,
      c ≠ '[' ∧ c ≠ ']' ∧ ¬(65 ≤ c.toNat ∧ c.toNat ≤ 90) := by
    intro domain c member
    obtain ⟨-, -, opened, closed, -, lower⟩ := plain_domain domain member
    exact ⟨opened, closed, lower⟩
  have named : ∀ domain : Domain, parse (trim url) = .ok (some (.domain domain)) →
      hostOf parse url = .ok (some domain.name) := by
    intro domain parsed
    rw [hostOf_eq parsed domain.some_name, Host.spelling, strip_plain (plain_name domain)]
  constructor
  · intro judged domain parsed misread
    obtain ⟨inside, other⟩ := (misread_iff domain).mp misread
    have told := judged _ _ (named domain parsed) parsed rfl inside
    simp only [Host.isInside, Bool.or_eq_true, decide_eq_true_eq] at told
    exact other told
  · intro unread text host found parsed connects inside
    cases host with
    | domain domain =>
      rw [named domain parsed] at found
      cases found
      simp only [Host.isInside, Bool.or_eq_true, decide_eq_true_eq]
      by_contra other
      exact unread domain parsed ((misread_iff domain).mpr ⟨inside, other⟩)
    | ipv4 addr =>
      have filled : (Host.ipv4 addr).spelling ≠ [] := by simp [Host.spelling, Ipv4.spelling]
      have plain := fun c (member : c ∈ addr.spelling) => (plain_ipv4 member).2.2
      rw [hostOf_eq parsed filled, Host.spelling, strip_plain plain] at found
      cases found
      rw [side_targetOf_ipv4, ne_eq, ofAddress_eq_public, Bool.not_eq_false] at inside
      exact inside
    | ipv6 addr =>
      have filled : (Host.ipv6 addr).spelling ≠ [] := cons_ne_nil _ _
      have plain := fun c (member : c ∈ addr.spelling) => (plain_ipv6 member).2.2
      rw [hostOf_eq parsed filled, Host.spelling, strip_bracketed plain] at found
      cases found
      have same := targetOf_of_bare ((Bare.ipv6 addr).bare_eq.trans (bare_ipv6 addr).symm)
      rw [same, side_targetOf_ipv6, ne_eq, ofAddress_ipv6_eq_public, Bool.not_eq_false] at inside
      exact inside
    | verbatim text => cases connects
    | empty => cases connects

/-! ### The list of domains -/

/-- A host as a list compares it: without the dots at its end, in lower case. -/
def asCompared (host : List Char) : List Char := (core host).map Char.toLower

variable {entries : List (List Char)}

theorem mem_new {allowed : List Char}
    (listed : allowed ∈ (EgressAllowlist.new entries).suffixes) :
    ∃ entry ∈ entries, rule entry = allowed ∧ allowed ≠ [] := by
  have sorted := (destutter_sublist _ _).subset listed
  have kept := mem_mergeSort.mp sorted
  obtain ⟨ruled, filled⟩ := mem_filter.mp kept
  obtain ⟨entry, member, rfl⟩ := mem_map.mp ruled
  exact ⟨entry, member, rfl, by simpa using filled⟩

theorem admits_under {host : List Char}
    (admitted : (EgressAllowlist.new entries).admits host = true) :
    ∃ entry ∈ entries, rule entry ≠ [] ∧
      (asCompared host = rule entry ∨
        '.' :: rule entry <:+ asCompared host) := by
  obtain ⟨allowed, listed, matched⟩ := any_eq_true.mp admitted
  obtain ⟨entry, member, rfl, filled⟩ := mem_new listed
  refine ⟨entry, member, filled, ?_⟩
  simp only [Bool.or_eq_true, Bool.and_eq_true, decide_eq_true_eq, isSuffixOf_iff_suffix] at matched
  rcases matched with same | ⟨⟨front, whole⟩, dot⟩
  · exact .inl same
  · right
    have size : (asCompared host).length - (rule entry).length = front.length := by
      rw [asCompared, core, ← whole, length_append]
      omega
    rw [asCompared, core] at size
    rw [size, ← whole, take_left, getLast?_eq_some_iff] at dot
    obtain ⟨earlier, rfl⟩ := dot
    exact ⟨earlier, by rw [asCompared, core, ← whole]; simp⟩

/-- Where the judges agree, when the kernel takes a public host for one inside, and what a list admits. -/
theorem judges_agree (addr : IpAddr) (parse : List Char → Except UrlError (Option Host))
    (url : List Char) (entries : List (List Char)) (host : List Char) :
    (∀ scheme tail, scheme = Reach.http ∨ scheme = Reach.https → Follows tail →
      ((targetOf (Host.ofAddress addr).spelling).side =
          ofUrl (scheme ++ Reach.colonSlashes ++ ((Host.ofAddress addr).spelling ++ tail)) ↔
        mapsInside addr = false)) ∧
    (∀ scheme tail, scheme = Reach.http ∨ scheme = Reach.https → Follows tail →
      (targetOf localhost).side =
        ofUrl (scheme ++ Reach.colonSlashes ++ (localhost ++ tail))) ∧
    (Judged parse url ↔
      ∀ domain, parse (trim url) = .ok (some (.domain domain)) → ¬Misread domain.name) ∧
    ((EgressAllowlist.new entries).admits host = true →
      ∃ entry ∈ entries, rule entry ≠ [] ∧
        (asCompared host = rule entry ∨
          '.' :: rule entry <:+ asCompared host)) := by
  refine ⟨?_, ?_, judged_iff parse url, admits_under⟩
  · intro scheme tail known follows
    rw [ofUrl_address addr known follows, ← ofAddress_canonical]
    cases addr with
    | v4 addr => rw [Host.ofAddress, Host.spelling, side_targetOf_ipv4]
    | v6 addr => rw [Host.ofAddress, Host.spelling, side_targetOf_ipv6]
  · intro scheme tail known follows
    rw [ofUrl_localhost known follows]
    rfl

def homeUrl : List Char := Reach.http ++ Reach.colonSlashes ++ ((Ipv4.mk 127 0 0 1).spelling ++ ['/'])

/-- A parser as far as it reads one URL, and text without a scheme. -/
def homeParse (url : List Char) : Except UrlError (Option Host) :=
  if url = homeUrl then .ok (some (.ipv4 ⟨127, 0, 0, 1⟩)) else .error .relativeUrlWithoutBase

theorem judges_agree_loopback :
    (targetOf (Ipv4.mk 127 0 0 1).spelling).side = ofUrl homeUrl ∧
      (targetOf localhost).side =
        ofUrl (Reach.http ++ Reach.colonSlashes ++ (localhost ++ ['/'])) ∧
      Judged homeParse homeUrl ∧
      ∃ entry ∈ [['a', '.', 'b']],
        '.' :: rule entry <:+ asCompared ['c', '.', 'a', '.', 'b'] := by
  have follows : Follows ['/'] := fun c first => by
    cases first
    rfl
  have agree := judges_agree (.v4 ⟨127, 0, 0, 1⟩) homeParse homeUrl [['a', '.', 'b']]
    ['c', '.', 'a', '.', 'b']
  refine ⟨(agree.1 Reach.http ['/'] (.inl rfl) follows).mpr rfl,
    agree.2.1 Reach.http ['/'] (.inl rfl) follows, agree.2.2.1.mpr fun domain parsed => ?_, ?_⟩
  · have read : homeParse (trim homeUrl) = .ok (some (.ipv4 ⟨127, 0, 0, 1⟩)) := if_pos (by decide)
    rw [read] at parsed
    cases parsed
  · obtain ⟨entry, listed, -, same | under⟩ := agree.2.2.2 (by decide +kernel)
    · rw [mem_singleton.mp listed] at same
      revert same
      decide
    · exact ⟨entry, listed, under⟩

def mappedLoopback : Ipv6 := ⟨[0, 0, 0, 0, 0, 0xffff, 0x7f00, 1], rfl⟩

/-- A name whose last label opens with a plus sign is no address. -/
def plusName : Domain where
  name := ['1', '0', '.', '0', '.', '0', '.', '+', '1']
  some_name := by decide
  ascii := of_all (by decide)
  lower := of_all (by decide)
  plain := of_all (by decide)
  unnumbered := by decide

def plusUrl : List Char := Reach.http ++ Reach.colonSlashes ++ plusName.name

/-- A parser as far as it reads one URL. -/
def plusParse (url : List Char) : Except UrlError (Option Host) :=
  if url = plusUrl then .ok (some (.domain plusName)) else .error .other

theorem not_judges_agree :
    (targetOf (Host.ipv6 mappedLoopback).spelling).side ≠
        ofUrl (Reach.http ++ Reach.colonSlashes ++ (Host.ipv6 mappedLoopback).spelling) ∧
      ¬Judged plusParse plusUrl := by
  refine ⟨by decide +kernel, fun judged => ?_⟩
  have parsed : plusParse (trim plusUrl) = .ok (some (.domain plusName)) := if_pos (by decide)
  have misread : Misread plusName.name := ⟨.inr (by decide), .inr (by decide +kernel)⟩
  exact (judged_iff plusParse plusUrl).mp judged plusName parsed misread

end Egress

end Sprawling
