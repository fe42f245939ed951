import Sprawling.Base.Inet
import Mathlib.Data.Nat.Digits.Defs

/-! How a host is spelled when it is an address: four octets between dots; eight groups between colons
inside brackets, the first longest run of two zeros or more left out. What is spelled so is read back. -/

namespace Inet

open List Option

theorem digit_digitChar_ten : ∀ value < 10, digit 10 (Nat.digitChar value) = some value := by decide

theorem digit_digitChar_sixteen : ∀ value < 16, digit 16 (Nat.digitChar value) = some value := by
  decide

section Digits

variable {radix : Nat}

theorem number_concat (run : List Char) (c : Char) :
    number radix (run ++ [c]) = number radix run * radix + (digit radix c).getD 0 := by
  rw [number, foldl_append]
  rfl

theorem number_toDigits (more : 1 < radix)
    (digits : ∀ value < radix, digit radix (Nat.digitChar value) = some value) (value : Nat) :
    number radix (Nat.toDigits radix value) = value := by
  induction value using Nat.strongRecOn with
  | ind value ih =>
    by_cases small : value < radix
    · rw [Nat.toDigits_of_lt_base small]
      show 0 * radix + (digit radix (Nat.digitChar value)).getD 0 = value
      rw [digits value small, getD_some, Nat.zero_mul, Nat.zero_add]
    · have lower : value / radix < value := Nat.div_lt_self (by omega) more
      rw [Nat.toDigits_of_base_le more (by omega), number_concat, ih _ lower,
        digits _ (Nat.mod_lt _ (by omega)), getD_some, Nat.mul_comm]
      exact Nat.div_add_mod value radix

theorem mem_toDigits (more : 1 < radix) {value : Nat} {c : Char}
    (member : c ∈ Nat.toDigits radix value) : ∃ digit < radix, c = Nat.digitChar digit := by
  induction value using Nat.strongRecOn with
  | ind value ih =>
    by_cases small : value < radix
    · rw [Nat.toDigits_of_lt_base small] at member
      exact ⟨value, small, mem_singleton.mp member⟩
    · have lower : value / radix < value := Nat.div_lt_self (by omega) more
      rw [Nat.toDigits_of_base_le more (by omega)] at member
      rcases mem_append.mp member with member | member
      · exact ih _ lower member
      · exact ⟨value % radix, Nat.mod_lt _ (by omega), mem_singleton.mp member⟩

theorem isDigit_of_mem_toDigits (more : 1 < radix)
    (digits : ∀ value < radix, digit radix (Nat.digitChar value) = some value) (value : Nat) :
    ∀ c ∈ Nat.toDigits radix value, isDigit radix c = true := by
  intro c member
  obtain ⟨value, small, rfl⟩ := mem_toDigits more member
  rw [isDigit, digits value small]
  rfl

theorem readNumber_toDigits (more : 1 < radix)
    (digits : ∀ value < radix, digit radix (Nat.digitChar value) = some value)
    {maxDigits : Nat} {zeroPrefix : Bool} {bound value : Nat} (fits : value < bound)
    (short : (Nat.toDigits radix value).length ≤ maxDigits)
    (plain : zeroPrefix = false → (Nat.toDigits radix value).head? = some '0' →
      (Nat.toDigits radix value).length ≤ 1)
    {rest : List Char} (stops : ∀ c, rest.head? = some c → isDigit radix c = false) :
    readNumber radix maxDigits zeroPrefix bound (Nat.toDigits radix value ++ rest) =
      some (value, rest) := by
  have run : (Nat.toDigits radix value ++ rest).takeWhile (isDigit radix) =
      Nat.toDigits radix value := by
    rw [takeWhile_append_of_pos (isDigit_of_mem_toDigits more digits value)]
    cases rest with
    | nil => simp
    | cons c rest => simp [stops c rfl]
  have some_digit : Nat.toDigits radix value ≠ [] := Nat.toDigits_ne_nil
  have unpadded : ¬(((!zeroPrefix) = true) ∧ (Nat.toDigits radix value).head? = some '0' ∧
      (Nat.toDigits radix value).length > 1) := by
    rintro ⟨unprefixed, zero, long⟩
    have := plain (by simpa using unprefixed) zero
    omega
  rw [readNumber, run]
  simp only [number_toDigits more digits]
  rw [if_neg (by omega), if_neg some_digit, if_neg unpadded, if_pos fits, drop_left]

end Digits

/-! ### Dotted -/

namespace Ipv4

/-- The four octets between dots. -/
def spelling (addr : Ipv4) : List Char :=
  Text.decimal addr.first.toNat ++ '.' :: (Text.decimal addr.second.toNat ++
    '.' :: (Text.decimal addr.third.toNat ++ '.' :: Text.decimal addr.fourth.toNat))

end Ipv4

theorem decimal_octet : ∀ value < 256, (Nat.toDigits 10 value).length ≤ 3 ∧
    ((Nat.toDigits 10 value).head? = some '0' → (Nat.toDigits 10 value).length ≤ 1) := by
  decide +kernel

variable {rest : List Char}

theorem readOctet_decimal (octet : UInt8)
    (stops : ∀ c, rest.head? = some c → isDigit 10 c = false) :
    readOctet (Text.decimal octet.toNat ++ rest) = some (octet, rest) := by
  have fits : octet.toNat < 256 := octet.toNat_lt
  obtain ⟨short, plain⟩ := decimal_octet _ fits
  rw [readOctet, Text.decimal, readNumber_toDigits (by decide) digit_digitChar_ten fits short
    (fun _ => plain) stops, map_some, UInt8.ofNat_toNat]

theorem readIpv4_spelling (addr : Ipv4) {rest : List Char}
    (stops : ∀ c, rest.head? = some c → isDigit 10 c = false) :
    readIpv4 (addr.spelling ++ rest) = some (addr, rest) := by
  have dot : ∀ text : List Char, ∀ c, ('.' :: text).head? = some c → isDigit 10 c = false := by
    rintro text c found
    cases found
    decide
  simp only [readIpv4, Ipv4.spelling, append_assoc, cons_append, readOctet_decimal _ (dot _),
    readOctet_decimal _ stops, bind_eq_bind, bind_some, readGiven, if_true, Option.pure_def]

theorem Ipv4.parse_spelling (addr : Ipv4) : IpAddr.parse addr.spelling = some (.v4 addr) := by
  have read := @readIpv4_spelling addr [] (by simp)
  rw [append_nil] at read
  rw [IpAddr.parse, readIpAddr, read]

/-! ### Colon-separated -/

def hex (group : UInt16) : List Char := Nat.toDigits 16 group.toNat

def behind (groups : List UInt16) : List Char := groups.flatMap fun group => ':' :: hex group

/-- Groups between colons. -/
def colons : List UInt16 → List Char
  | [] => []
  | group :: groups => hex group ++ behind groups

def zeros (groups : List UInt16) : Nat := (groups.takeWhile (· == 0)).length

namespace Ipv6

/-- Where the first longest run of zeros begins, when it is longer than one. -/
def compressed (addr : Ipv6) : Option Nat :=
  let runs := addr.groups.tails.map zeros
  let longest := runs.foldl max 0
  if 1 < longest then runs.findIdx? (· == longest) else none

/-- The groups, the compressed run left out behind two colons. -/
def spelling (addr : Ipv6) : List Char :=
  match addr.compressed with
  | none => colons addr.groups
  | some start =>
    colons (addr.groups.take start) ++
      ':' :: ':' :: colons ((addr.groups.drop start).dropWhile (· == 0))

end Ipv6

theorem readGroup_hex (group : UInt16) (stops : ∀ c, rest.head? = some c → isDigit 16 c = false) :
    readGroup (hex group ++ rest) = some (group, rest) := by
  have fits : group.toNat < 65536 := group.toNat_lt
  have short : (Nat.toDigits 16 group.toNat).length ≤ 4 :=
    (Nat.length_toDigits_le_iff (by decide) (by decide)).mpr fits
  rw [readGroup, hex, readNumber_toDigits (by decide) digit_digitChar_sixteen fits short
    (fun prefixed => by cases prefixed) stops, map_some, UInt16.ofNat_toNat]

theorem hex_bounds {group : UInt16} {c : Char} (member : c ∈ hex group) :
    isDigit 16 c = true ∧ (48 ≤ c.toNat ∧ c.toNat ≤ 57 ∨ 97 ≤ c.toNat ∧ c.toNat ≤ 102) := by
  have every : ∀ value < 16, 48 ≤ (Nat.digitChar value).toNat ∧ (Nat.digitChar value).toNat ≤ 57 ∨
      97 ≤ (Nat.digitChar value).toNat ∧ (Nat.digitChar value).toNat ≤ 102 := by decide
  refine ⟨isDigit_of_mem_toDigits (by decide) digit_digitChar_sixteen group.toNat c member, ?_⟩
  obtain ⟨value, small, rfl⟩ := mem_toDigits (by decide) member
  exact every value small

variable {c : Char} {groups : List UInt16}

theorem mem_behind (member : c ∈ behind groups) : c = ':' ∨ ∃ group, c ∈ hex group := by
  obtain ⟨group, -, inside⟩ := mem_flatMap.mp member
  exact (mem_cons.mp inside).imp_right fun inside => ⟨group, inside⟩

theorem mem_colons (member : c ∈ colons groups) : c = ':' ∨ ∃ group, c ∈ hex group := by
  cases groups with
  | nil => cases member
  | cons group groups =>
    rcases mem_append.mp member with inside | later
    · exact .inr ⟨group, inside⟩
    · exact mem_behind later

variable {addr : Ipv6}

theorem Ipv6.mem_spelling (member : c ∈ addr.spelling) :
    c = ':' ∨ ∃ group, c ∈ hex group := by
  unfold spelling at member
  split at member
  · exact mem_colons member
  · simp only [mem_append, mem_cons] at member
    rcases member with front | same | same | back
    · exact mem_colons front
    · exact .inl same
    · exact .inl same
    · exact mem_colons back

theorem not_colon_or_hex (other : isDigit 16 c = false) (apart : c ≠ ':') :
    ¬(c = ':' ∨ ∃ group, c ∈ hex group) := by
  rintro (same | ⟨group, inside⟩)
  · exact apart same
  · rw [(hex_bounds inside).1] at other
    cases other

theorem dot_not_colon_or_hex : ¬('.' = ':' ∨ ∃ group, '.' ∈ hex group) :=
  not_colon_or_hex (by decide) (by decide)

variable {text : List Char}

theorem readNumber_rest {radix maxDigits bound value : Nat} {zeroPrefix : Bool}
    (read : readNumber radix maxDigits zeroPrefix bound text = some (value, rest)) :
    rest <:+ text := by
  unfold readNumber at read
  simp only at read
  split_ifs at read
  cases read
  exact drop_suffix _ _

theorem readIpv4_of_no_dot (absent : '.' ∉ text) : readIpv4 text = none := by
  rw [readIpv4]
  cases read : readOctet text with
  | none => rfl
  | some found =>
    obtain ⟨octet, rest⟩ := found
    obtain ⟨⟨value, left⟩, number, made⟩ := map_eq_some_iff.mp read
    obtain ⟨-, rfl⟩ := Prod.mk.inj made
    have inside : '.' ∉ left := fun member => absent ((readNumber_rest number).subset member)
    have stopped : readGiven '.' left = none := by
      cases left with
      | nil => rfl
      | cons c left =>
        have apart : c ≠ '.' := fun same => inside (by simp [same])
        rw [readGiven, if_neg apart]
    simp only [bind_eq_bind, bind_some, stopped, bind_none]

/-- What ends a list of groups: the end of the text, or two colons. -/
def Ends (rest : List Char) : Prop := rest = [] ∨ ∃ more, rest = ':' :: ':' :: more

theorem isDigit_colon : isDigit 16 ':' = false := by decide

theorem readGroup_of_colon (text : List Char) : readGroup (':' :: text) = none := by
  rw [readGroup, readNumber, takeWhile_cons_of_neg (by simp [isDigit_colon])]
  rfl

theorem Ends.readGroup_eq_none (ends : Ends rest) : readGroup rest = none := by
  rcases ends with rfl | ⟨more, rfl⟩
  · rfl
  · exact readGroup_of_colon _

theorem Ends.bind_readGroup (ends : Ends rest) : (readGiven ':' rest).bind readGroup = none := by
  rcases ends with rfl | ⟨more, rfl⟩
  · rfl
  · exact readGroup_of_colon _

theorem Ends.stops (ends : Ends rest) (groups : List UInt16) :
    ∀ c, (behind groups ++ rest).head? = some c → isDigit 16 c = false := by
  intro c found
  cases groups with
  | cons group groups =>
    cases found
    exact isDigit_colon
  | nil =>
    rcases ends with rfl | ⟨more, rfl⟩
    · cases found
    · cases found
      exact isDigit_colon

theorem readGroups_behind {left : Nat} (room : groups.length ≤ left) (ends : Ends rest)
    (plain : '.' ∉ rest) :
    readGroups left false (behind groups ++ rest) = (groups, false, rest) := by
  have undotted : ∀ groups, '.' ∉ behind groups ++ rest := by
    intro groups member
    rcases mem_append.mp member with member | member
    · exact dot_not_colon_or_hex (mem_behind member)
    · exact plain member
  have unread : ∀ groups, (readGiven ':' (behind groups ++ rest)).bind readIpv4 = none := by
    intro groups
    cases given : readGiven ':' (behind groups ++ rest) with
    | none => rfl
    | some text =>
      refine readIpv4_of_no_dot fun member => undotted groups ?_
      cases whole : behind groups ++ rest with
      | nil => simp [whole, readGiven] at given
      | cons c others =>
        rw [whole, readGiven] at given
        split at given
        · cases given
          exact mem_cons_of_mem _ member
        · cases given
  induction groups generalizing left with
  | nil =>
    cases left with
    | zero => rfl
    | succ left =>
      have none_here := unread []
      have done := ends.bind_readGroup
      simp only [behind, flatMap_nil, nil_append] at none_here ⊢
      simp only [readGroups, readSeparator, Bool.false_eq_true, if_false, none_here, ite_self, done]
  | cons group groups ih =>
    cases left with
    | zero => simp at room
    | succ left =>
      have none_here := unread (group :: groups)
      have text : behind (group :: groups) ++ rest =
          ':' :: (hex group ++ (behind groups ++ rest)) := by simp [behind]
      rw [text] at none_here ⊢
      simp only [readGroups, readSeparator, Bool.false_eq_true, if_false, none_here, ite_self]
      simp only [readGiven, if_true, bind_some, readGroup_hex group (ends.stops groups)]
      rw [ih (by simpa using room)]

theorem readGroups_colons {groups : List UInt16} {left : Nat} (room : groups.length ≤ left)
    {rest : List Char} (ends : Ends rest) (plain : '.' ∉ rest) :
    readGroups left true (colons groups ++ rest) = (groups, false, rest) := by
  have undotted : '.' ∉ colons groups ++ rest := by
    simp only [mem_append, not_or]
    exact ⟨fun member => dot_not_colon_or_hex (mem_colons member), plain⟩
  cases left with
  | zero =>
    rw [length_eq_zero_iff.mp (Nat.le_zero.mp room)]
    rfl
  | succ left =>
    simp only [readGroups, readSeparator, if_true, bind_some, readIpv4_of_no_dot undotted, ite_self]
    cases groups with
    | nil =>
      rw [colons, nil_append, ends.readGroup_eq_none]
    | cons group groups =>
      rw [colons, append_assoc, readGroup_hex group (ends.stops groups)]
      simp only [readGroups_behind (by simpa using room) ends plain]

theorem colons_ends_plain (groups : List UInt16) : '.' ∉ ':' :: ':' :: colons groups := by
  simp only [mem_cons, not_or]
  exact ⟨by decide, by decide, fun member => dot_not_colon_or_hex (mem_colons member)⟩

theorem Ipv6.compressed_spec {start : Nat} (found : addr.compressed = some start) :
    2 ≤ zeros (addr.groups.drop start) := by
  unfold compressed at found
  simp only at found
  split_ifs at found with longer
  obtain ⟨inside, same, -⟩ := findIdx?_eq_some_iff_getElem.mp found
  rw [beq_iff_eq] at same
  rw [← same, getElem_map, getElem_tails] at longer
  exact longer

theorem eq_replicate_zeros (groups : List UInt16) :
    groups = List.replicate (zeros groups) 0 ++ groups.dropWhile (· == 0) := by
  have run : groups.takeWhile (· == 0) = List.replicate (zeros groups) 0 :=
    eq_replicate_iff.mpr ⟨rfl, fun group member => by
      simpa using mem_takeWhile_imp member⟩
  rw [← run, takeWhile_append_dropWhile]

theorem ofGroups_groups (addr : Ipv6) : ofGroups addr.groups = some addr := by
  rw [ofGroups, dif_pos addr.sized]

theorem Ipv6.readIpv6_spelling (addr : Ipv6) : readIpv6 addr.spelling = some (addr, []) := by
  unfold spelling
  cases cut : addr.compressed with
  | none =>
    have read := @readGroups_colons addr.groups 8 (by rw [addr.sized]) [] (.inl rfl) (by simp)
    rw [append_nil] at read
    simp only [readIpv6, read, addr.sized, if_true, ofGroups_groups, bind_eq_bind,
      bind_some, Option.pure_def]
  | some start =>
    show readIpv6 (colons (addr.groups.take start) ++
      ':' :: ':' :: colons ((addr.groups.drop start).dropWhile (· == 0))) = _
    have two := compressed_spec cut
    have whole := eq_replicate_zeros (addr.groups.drop start)
    have split := take_append_drop start addr.groups
    have sized := addr.sized
    generalize zeros (addr.groups.drop start) = run at two whole
    generalize addr.groups.take start = head at split ⊢
    generalize (addr.groups.drop start).dropWhile (· == 0) = tail at whole ⊢
    rw [whole] at split
    have count : head.length + (run + tail.length) = 8 := by
      rw [← sized, ← split]
      simp
    have first := @readGroups_colons head 8 (by omega) _ (.inr ⟨colons tail, rfl⟩)
      (colons_ends_plain tail)
    have second := @readGroups_colons tail (7 - head.length) (by omega) [] (.inl rfl) (by simp)
    rw [append_nil] at second
    have short : head.length ≠ 8 := by omega
    have gap : 8 - tail.length - head.length = run := by omega
    simp only [readIpv6, first, if_neg short, Bool.false_eq_true, if_false, readGiven, if_true,
      bind_eq_bind, bind_some, second, gap]
    rw [append_assoc, split, ofGroups_groups]
    rfl

theorem Ipv6.parse_spelling (addr : Ipv6) : IpAddr.parse addr.spelling = some (.v6 addr) := by
  have undotted : readIpv4 addr.spelling = none :=
    readIpv4_of_no_dot fun member => dot_not_colon_or_hex (mem_spelling member)
  rw [IpAddr.parse, readIpAddr, undotted, addr.readIpv6_spelling, map_some]

/-- A spelling opens with the first group, or with the colons of a run that begins there. -/
theorem Ipv6.spelling_leading (addr : Ipv6) :
    (∃ rest, addr.spelling = hex addr.leading ++ ':' :: rest) ∨
      addr.leading = 0 ∧ ∃ rest, addr.spelling = ':' :: rest := by
  obtain ⟨groups, sized⟩ := addr
  obtain ⟨first, second, others, rfl⟩ : ∃ first second others, groups = first :: second :: others := by
    match groups, sized with
    | first :: second :: others, _ => exact ⟨first, second, others, rfl⟩
  unfold spelling
  cases cut : compressed ⟨first :: second :: others, sized⟩ with
  | none => exact .inl ⟨hex second ++ behind others, by simp [colons, behind, leading]⟩
  | some start =>
    cases start with
    | zero =>
      refine .inr ⟨?_, ':' :: colons _, rfl⟩
      have two := compressed_spec cut
      by_contra filled
      have none_zero : zeros (first :: second :: others) = 0 := by
        have other : (first == 0) = false := by simpa [leading] using filled
        simp [zeros, other]
      rw [drop_zero, none_zero] at two
      omega
    | succ start =>
      left
      cases start with
      | zero =>
        refine ⟨':' :: colons ((second :: others).dropWhile (· == 0)), ?_⟩
        simp [colons, behind, leading]
      | succ start =>
        refine ⟨hex second ++ (behind (others.take start) ++
          ':' :: ':' :: colons ((others.drop start).dropWhile (· == 0))), ?_⟩
        simp [colons, behind, leading]

end Inet
