import Mathlib.Algebra.GroupWithZero.Nat
import Mathlib.Data.List.DropRight
import Mathlib.Data.List.Infix

/-! Text as a list of characters: the string operations a line grammar is written in. -/

namespace Text

open List

instance lawfulBEq : LawfulBEq (List Char) := inferInstance

/-- The `White_Space` characters of Unicode. -/
def isWhitespace (c : Char) : Bool :=
  (9 ≤ c.toNat && c.toNat ≤ 13) || c.toNat == 0x20 || c.toNat == 0x85 || c.toNat == 0xA0
    || c.toNat == 0x1680 || (0x2000 ≤ c.toNat && c.toNat ≤ 0x200A) || c.toNat == 0x2028
    || c.toNat == 0x2029 || c.toNat == 0x202F || c.toNat == 0x205F || c.toNat == 0x3000

/-- The text without the whitespace at its two ends. -/
def trim (text : List Char) : List Char :=
  (text.dropWhile isWhitespace).rdropWhile isWhitespace

/-- The two sides of the first `mark`, when the text has one. -/
def splitOnce (mark : Char) : List Char → Option (List Char × List Char)
  | [] => none
  | c :: rest =>
    if c = mark then some ([], rest)
    else (splitOnce mark rest).map fun sides => (c :: sides.1, sides.2)

/-- The two sides of the last `mark`, when the text has one. -/
def rsplitOnce (mark : Char) (text : List Char) : Option (List Char × List Char) :=
  (splitOnce mark text.reverse).map fun sides => (sides.2.reverse, sides.1.reverse)

/-- The two sides of the first `mark`, when the text has one. -/
def splitOnceText (mark : List Char) : List Char → Option (List Char × List Char)
  | [] => if mark = [] then some ([], []) else none
  | c :: rest =>
    if mark <+: c :: rest then some ([], (c :: rest).drop mark.length)
    else (splitOnceText mark rest).map fun sides => (c :: sides.1, sides.2)

/-- The value of a nonempty run of decimal digits below `bound`. -/
def parseDigits (bound : Nat) (text : List Char) : Option Nat :=
  if text.isEmpty || !text.all Char.isDigit then none
  else
    let value := Nat.ofDigitChars 10 text 0
    if value < bound then some value else none

/-- An unsigned number as integer parsing reads it: one leading `+` is allowed. -/
def parseUnsigned (bound : Nat) : List Char → Option Nat
  | '+' :: digits => parseDigits bound digits
  | text => parseDigits bound text

def decimal (value : Nat) : List Char := Nat.toDigits 10 value

variable {text before : List Char} {mark : Char} {after : List Char}

theorem splitOnce_eq_some :
    splitOnce mark text = some (before, after) ↔
      text = before ++ mark :: after ∧ mark ∉ before := by
  induction text generalizing before with
  | nil => simp [splitOnce]
  | cons c rest ih =>
    by_cases same : c = mark
    · subst same
      constructor
      · intro found
        simp only [splitOnce, if_pos, Option.some.injEq, Prod.mk.injEq] at found
        obtain ⟨rfl, rfl⟩ := found
        simp
      · rintro ⟨shape, absent⟩
        cases before with
        | nil => simpa [splitOnce] using shape
        | cons d before => simp_all
    · constructor
      · intro found
        simp only [splitOnce, if_neg same, Option.map_eq_some_iff] at found
        obtain ⟨⟨front, back⟩, inner, made⟩ := found
        simp only [Prod.mk.injEq] at made
        obtain ⟨rfl, rfl⟩ := made
        obtain ⟨rfl, absent⟩ := ih.mp inner
        exact ⟨rfl, by simp [absent, Ne.symm same]⟩
      · rintro ⟨shape, absent⟩
        cases before with
        | nil => simp_all
        | cons d before =>
          simp only [cons_append, List.cons.injEq] at shape
          obtain ⟨rfl, shape⟩ := shape
          have inner := ih.mpr ⟨shape, fun member => absent (mem_cons_of_mem _ member)⟩
          simp [splitOnce, if_neg same, inner]

theorem splitOnce_eq_none : splitOnce mark text = none ↔ mark ∉ text := by
  induction text with
  | nil => simp [splitOnce]
  | cons c rest ih =>
    by_cases same : c = mark
    · simp [splitOnce, same]
    · simp [splitOnce, if_neg same, ih, Ne.symm same]

theorem rsplitOnce_eq_some :
    rsplitOnce mark text = some (before, after) ↔
      text = before ++ mark :: after ∧ mark ∉ after := by
  simp only [rsplitOnce, Option.map_eq_some_iff, Prod.exists, Prod.mk.injEq]
  constructor
  · rintro ⟨front, back, found, rfl, rfl⟩
    obtain ⟨shape, absent⟩ := splitOnce_eq_some.mp found
    refine ⟨?_, by simpa using absent⟩
    have := congrArg List.reverse shape
    simpa using this
  · rintro ⟨rfl, absent⟩
    refine ⟨after.reverse, before.reverse, splitOnce_eq_some.mpr ⟨by simp, by simpa using absent⟩,
      by simp, by simp⟩

theorem rsplitOnce_eq_none : rsplitOnce mark text = none ↔ mark ∉ text := by
  simp [rsplitOnce, splitOnce_eq_none]

/-- Neither end of the text is whitespace. -/
def Trimmed (text : List Char) : Prop :=
  (∀ c, text.head? = some c → isWhitespace c = false) ∧
    ∀ c, text.getLast? = some c → isWhitespace c = false

theorem trim_of_trimmed (clean : Trimmed text) : trim text = text := by
  have front : text.dropWhile isWhitespace = text := by
    cases text with
    | nil => rfl
    | cons c rest => rw [dropWhile_cons_of_neg (by simp [clean.1 c rfl])]
  rw [trim, front, rdropWhile_eq_self_iff]
  intro some_char
  simp [clean.2 _ (getLast?_eq_getLast_of_ne_nil some_char)]

theorem trimmed_trim (text : List Char) : Trimmed (trim text) := by
  constructor
  · intro c first
    obtain ⟨blanks, shape⟩ : trim text <+: text.dropWhile isWhitespace :=
      rdropWhile_prefix _ _
    have same : (text.dropWhile isWhitespace).head? = some c := by
      rw [← shape, head?_append, first]
      rfl
    have kept := head?_dropWhile_not isWhitespace text
    simpa [same] using kept
  · intro c last
    have nonempty : trim text ≠ [] := by
      intro empty
      rw [empty] at last
      cases last
    have same : (trim text).getLast nonempty = c := by
      rw [getLast?_eq_getLast_of_ne_nil nonempty] at last
      exact Option.some.inj last
    have kept := rdropWhile_last_not isWhitespace (text.dropWhile isWhitespace) nonempty
    change ¬ isWhitespace ((trim text).getLast nonempty) = true at kept
    rw [same] at kept
    simpa using kept

variable {blank : Char}

theorem trim_concat (white : isWhitespace blank = true) (text : List Char) :
    trim (text ++ [blank]) = trim text := by
  rw [trim, trim]
  by_cases allBlank : ∀ c ∈ text, isWhitespace c = true
  · have inner : ∀ c ∈ text ++ [blank], isWhitespace c = true := by
      intro c member
      rcases mem_append.mp member with member | member
      · exact allBlank c member
      · rw [mem_singleton.mp member, white]
    rw [dropWhile_eq_nil_iff.mpr inner, dropWhile_eq_nil_iff.mpr allBlank]
  · rw [dropWhile_append, if_neg (by simpa using allBlank),
      rdropWhile_concat_pos _ _ _ white]

theorem trim_blank (text : List Char) : trim (' ' :: (text ++ [' '])) = trim text := by
  have blank : isWhitespace ' ' = true := by decide
  have front : trim (' ' :: (text ++ [' '])) = trim (text ++ [' ']) := by
    rw [trim, trim, dropWhile_cons_of_pos blank]
  rw [front, trim_concat blank]

variable {c : Char}

theorem mem_of_mem_trim (member : c ∈ trim text) : c ∈ text :=
  (dropWhile_suffix _).subset ((List.rdropWhile_prefix _ _).subset member)

theorem digit_bounds (digit : c.isDigit = true) : 48 ≤ c.toNat ∧ c.toNat ≤ 57 := by
  simp only [Char.isDigit, Bool.and_eq_true, decide_eq_true_eq] at digit
  exact digit

theorem isWhitespace_of_isDigit (digit : c.isDigit = true) : isWhitespace c = false := by
  have bounds := digit_bounds digit
  simp only [isWhitespace, Bool.or_eq_false_iff, Bool.and_eq_false_iff, decide_eq_false_iff_not,
    beq_eq_false_iff_ne]
  omega

theorem trimmed_of_digits (digits : ∀ c ∈ text, c.isDigit = true) : Trimmed text :=
  ⟨fun c first => isWhitespace_of_isDigit (digits c (mem_of_head? first)),
    fun c last => isWhitespace_of_isDigit (digits c (mem_of_getLast? last))⟩

theorem decimal_digits (value : Nat) : ∀ c ∈ decimal value, c.isDigit = true :=
  fun _ member => Nat.isDigit_of_mem_toDigits (by decide) (by decide) member

theorem decimal_ne_nil (value : Nat) : decimal value ≠ [] := Nat.toDigits_ne_nil

variable {bound : Nat}

theorem parseUnsigned_of_digits (digits : ∀ c ∈ text, c.isDigit = true) :
    parseUnsigned bound text = parseDigits bound text := by
  unfold parseUnsigned
  split
  · rename_i rest
    have plus : '+'.isDigit = true := digits '+' mem_cons_self
    exact absurd plus (by decide)
  · rfl

variable {value : Nat}

theorem parseUnsigned_decimal (bounded : value < bound) :
    parseUnsigned bound (decimal value) = some value := by
  have digits := decimal_digits value
  rw [parseUnsigned_of_digits digits, parseDigits, if_neg]
  · simp [decimal, bounded]
  · simp only [Bool.or_eq_true, List.isEmpty_iff, Bool.not_eq_true', not_or]
    refine ⟨decimal_ne_nil value, ?_⟩
    simpa using digits

theorem not_mem_decimal (other : c.isDigit = false) (value : Nat) : c ∉ decimal value := by
  intro member
  rw [decimal_digits value c member] at other
  cases other

theorem decimal_injective {first second : Nat} (same : decimal first = decimal second) :
    first = second := by
  have left := parseUnsigned_decimal (show first < first + second + 1 by omega)
  have right := parseUnsigned_decimal (show second < first + second + 1 by omega)
  rw [same, right] at left
  exact (Option.some.inj left).symm

variable {parts : List (List Char)}

theorem splitOn_intercalate_flatMap (mark : Char) (some_part : parts ≠ []) :
    ([mark].intercalate parts).splitOn mark = parts.flatMap (List.splitOn mark) := by
  induction parts with
  | nil => exact absurd rfl some_part
  | cons part rest ih =>
    cases rest with
    | nil => simp
    | cons next rest =>
      rw [intercalate_cons_cons, append_assoc, singleton_append,
        splitOn_append_cons_self, ih (by simp)]
      rfl

theorem flatMap_splitOn_of_clean (clean : ∀ part ∈ parts, mark ∉ part) :
    parts.flatMap (List.splitOn mark) = parts := by
  induction parts with
  | nil => rfl
  | cons part rest ih =>
    rw [flatMap_cons, splitOn_eq_singleton (clean part mem_cons_self),
      ih fun other member => clean other (mem_cons_of_mem _ member)]
    rfl

variable {part : List Char}

theorem not_mem_of_mem_splitOn (member : part ∈ text.splitOn mark) : mark ∉ part := by
  induction text generalizing part with
  | nil =>
    simp only [splitOn_nil, mem_singleton] at member
    simp [member]
  | cons c rest ih =>
    rw [splitOn_cons_eq_if_modifyHead] at member
    split at member
    · rcases mem_cons.mp member with rfl | member
      · simp
      · exact ih member
    · rename_i other
      cases cut : rest.splitOn mark with
      | nil => exact absurd cut (splitOn_ne_nil mark rest)
      | cons first parts =>
        rw [cut, modifyHead_cons, mem_cons] at member
        rcases member with rfl | member
        · have absent : mark ∉ first := ih (by simp [cut])
          have apart : mark ≠ c := fun same => other (by simp [same])
          simp [absent, apart]
        · exact ih (by simp [cut, member])

theorem mem_of_mem_splitOn (listed : part ∈ text.splitOn mark)
    (inside : c ∈ part) : c ∈ text := by
  induction text generalizing part with
  | nil =>
    simp only [splitOn_nil, mem_singleton] at listed
    rwa [listed] at inside
  | cons d rest ih =>
    rw [splitOn_cons_eq_if_modifyHead] at listed
    split at listed
    · rcases mem_cons.mp listed with rfl | listed
      · cases inside
      · exact mem_cons_of_mem _ (ih listed inside)
    · cases cut : rest.splitOn mark with
      | nil => exact absurd cut (splitOn_ne_nil mark rest)
      | cons first parts =>
        rw [cut, modifyHead_cons, mem_cons] at listed
        rcases listed with rfl | listed
        · rcases mem_cons.mp inside with rfl | inside
          · exact mem_cons_self
          · exact mem_cons_of_mem _ (ih (by simp [cut]) inside)
        · exact mem_cons_of_mem _ (ih (by simp [cut, listed]) inside)

theorem exists_part_of_mem (member : c ∈ text) (apart : c ≠ mark) :
    ∃ part ∈ text.splitOn mark, c ∈ part := by
  induction text with
  | nil => cases member
  | cons d rest ih =>
    rw [splitOn_cons_eq_if_modifyHead]
    by_cases same : d = mark
    · subst same
      have inside : c ∈ rest := by simpa [apart] using member
      obtain ⟨part, listed, found⟩ := ih inside
      exact ⟨part, by simp [listed], found⟩
    · rw [if_neg (by simpa using same)]
      cases cut : rest.splitOn mark with
      | nil => exact absurd cut (splitOn_ne_nil mark rest)
      | cons first parts =>
        rw [modifyHead_cons]
        rcases mem_cons.mp member with rfl | inside
        · exact ⟨c :: first, by simp, by simp⟩
        · obtain ⟨part, listed, found⟩ := ih inside
          rw [cut, mem_cons] at listed
          rcases listed with rfl | listed
          · exact ⟨d :: part, by simp, by simp [found]⟩
          · exact ⟨part, by simp [listed], found⟩

theorem two_le_length_splitOn (member : mark ∈ text) :
    2 ≤ (text.splitOn mark).length := by
  obtain ⟨before, after, rfl⟩ := append_of_mem member
  rw [splitOn_append_cons_self, length_append]
  have left := length_pos_of_ne_nil (splitOn_ne_nil mark before)
  have right := length_pos_of_ne_nil (splitOn_ne_nil mark after)
  omega

theorem trimmed_of_plain (plain : ∀ c ∈ text, isWhitespace c = false) : Trimmed text :=
  ⟨fun c first => plain c (mem_of_head? first), fun c last => plain c (mem_of_getLast? last)⟩

theorem trim_cons (white : isWhitespace blank = true) (text : List Char) :
    trim (blank :: text) = trim text := by
  rw [trim, trim, dropWhile_cons_of_pos white]

theorem splitOn_comma_list {first : List Char} {rest : List (List Char)}
    (clean : ∀ part ∈ first :: rest, ',' ∉ part) :
    ([',', ' '].intercalate (first :: rest)).splitOn ',' = first :: rest.map (' ' :: ·) := by
  induction rest generalizing first with
  | nil => simpa using splitOn_eq_singleton (clean first mem_cons_self)
  | cons next rest ih =>
    have more := ih fun part member => clean part (mem_cons_of_mem _ member)
    have blank : (' ' == ',') = false := by decide
    rw [intercalate_cons_cons]
    simp only [append_assoc, cons_append, nil_append]
    rw [splitOn_append_cons_self, splitOn_cons_eq_if_modifyHead, blank, more,
      splitOn_eq_singleton (clean first mem_cons_self)]
    simp

theorem trimmed_intercalate {glue : List Char} (clean : ∀ part ∈ parts, part ≠ [] ∧ Trimmed part) :
    Trimmed (glue.intercalate parts) := by
  induction parts with
  | nil => exact ⟨by simp, by simp⟩
  | cons first rest ih =>
    have later := ih fun part member => clean part (mem_cons_of_mem _ member)
    obtain ⟨nonempty, front, back⟩ := clean first mem_cons_self
    cases rest with
    | nil => simpa using ⟨front, back⟩
    | cons next rest =>
      have tail : glue.intercalate (next :: rest) ≠ [] := by
        have filled := (clean next (by simp)).1
        cases rest <;> simp [intercalate_cons_cons, filled]
      rw [intercalate_cons_cons]
      refine ⟨fun c head => front c ?_, fun c last => later.2 c ?_⟩
      · rwa [append_assoc, head?_append_of_ne_nil _ nonempty] at head
      · rwa [getLast?_append_of_ne_nil _ tail] at last

theorem toLower_of_not_upper (other : ¬(65 ≤ c.toNat ∧ c.toNat ≤ 90)) : c.toLower = c := by
  unfold Char.toLower
  exact dif_neg fun upper => other ⟨upper.1, upper.2⟩

theorem toNat_toLower (c : Char) :
    c.toLower.toNat = if 65 ≤ c.toNat ∧ c.toNat ≤ 90 then c.toNat + 32 else c.toNat := by
  by_cases upper : 65 ≤ c.toNat ∧ c.toNat ≤ 90
  · have bounds : c.val ≥ 'A'.val ∧ c.val ≤ 'Z'.val := ⟨upper.1, upper.2⟩
    rw [if_pos upper]
    unfold Char.toLower
    rw [dif_pos bounds]
    show (c.val + ('a'.val - 'A'.val)).toNat = c.toNat + 32
    have gap : ('a'.val - 'A'.val).toNat = 32 := rfl
    have value : c.val.toNat = c.toNat := rfl
    rw [UInt32.toNat_add, gap, value]
    omega
  · rw [if_neg upper, toLower_of_not_upper upper]

def Mark (c : Char) : Prop := c.toNat < 65 ∨ 122 < c.toNat ∨ 90 < c.toNat ∧ c.toNat < 97

instance : DecidablePred Mark := fun c =>
  inferInstanceAs (Decidable (c.toNat < 65 ∨ 122 < c.toNat ∨ 90 < c.toNat ∧ c.toNat < 97))

theorem toLower_eq_mark (plain : Mark mark) : c.toLower = mark ↔ c = mark := by
  unfold Mark at plain
  by_cases upper : 65 ≤ c.toNat ∧ c.toNat ≤ 90
  · have turned : c.toLower.toNat = c.toNat + 32 := by rw [toNat_toLower, if_pos upper]
    constructor
    · rintro rfl
      omega
    · rintro rfl
      omega
  · rw [toLower_of_not_upper upper]

theorem toLower_toLower (c : Char) : c.toLower.toLower = c.toLower := by
  by_cases upper : 65 ≤ c.toNat ∧ c.toNat ≤ 90
  · have turned : c.toLower.toNat = c.toNat + 32 := by rw [toNat_toLower, if_pos upper]
    exact toLower_of_not_upper (by omega)
  · rw [toLower_of_not_upper upper, toLower_of_not_upper upper]

theorem mem_map_toLower (plain : Mark mark) :
    mark ∈ text.map Char.toLower ↔ mark ∈ text := by
  simp only [mem_map, toLower_eq_mark plain, exists_eq_right]

section Lower

variable {mark : Char} (plain : Mark mark)
include plain

theorem splitOnce_toLower (text : List Char) : splitOnce mark (text.map Char.toLower) =
    (splitOnce mark text).map fun sides => (sides.1.map Char.toLower, sides.2.map Char.toLower) := by
  induction text with
  | nil => rfl
  | cons c rest ih =>
    simp only [map_cons, splitOnce, toLower_eq_mark plain, ih]
    split_ifs
    · rfl
    · cases splitOnce mark rest <;> rfl

theorem rsplitOnce_toLower (text : List Char) : rsplitOnce mark (text.map Char.toLower) =
    (rsplitOnce mark text).map fun sides => (sides.1.map Char.toLower, sides.2.map Char.toLower) := by
  rw [rsplitOnce, ← map_reverse, splitOnce_toLower plain, rsplitOnce]
  cases splitOnce mark text.reverse with
  | none => rfl
  | some sides => simp

end Lower

theorem isDigit_toLower (c : Char) : c.toLower.isDigit = c.isDigit := by
  by_cases upper : 65 ≤ c.toNat ∧ c.toNat ≤ 90
  · have turned : c.toLower.toNat = c.toNat + 32 := by rw [toNat_toLower, if_pos upper]
    have first : c.toLower.isDigit ≠ true := fun digit => by
      have := digit_bounds digit
      omega
    have second : c.isDigit ≠ true := fun digit => by
      have := digit_bounds digit
      omega
    rw [Bool.eq_false_iff.mpr first, Bool.eq_false_iff.mpr second]
  · rw [toLower_of_not_upper upper]

theorem parseDigits_toLower (bound : Nat) (text : List Char) :
    parseDigits bound (text.map Char.toLower) = parseDigits bound text := by
  have digits : (text.map Char.toLower).all Char.isDigit = text.all Char.isDigit := by
    rw [all_map]
    exact congrArg text.all (funext isDigit_toLower)
  by_cases every : text.all Char.isDigit = true
  · have same : text.map Char.toLower = text := by
      refine (map_congr_left fun c member => ?_).trans (map_id text)
      have bounds := digit_bounds (all_eq_true.mp every c member)
      exact toLower_of_not_upper (by omega)
    rw [same]
  · simp only [parseDigits, digits, every, Bool.not_false, Bool.or_true, if_true]

theorem parseUnsigned_toLower (bound : Nat) (text : List Char) :
    parseUnsigned bound (text.map Char.toLower) = parseUnsigned bound text := by
  have plus : ∀ c : Char, c.toLower = '+' ↔ c = '+' := fun c =>
    toLower_eq_mark (by decide)
  cases text with
  | nil => rfl
  | cons c rest =>
    by_cases signed : c = '+'
    · subst signed
      exact parseDigits_toLower bound rest
    · have lower : parseUnsigned bound (c.toLower :: rest.map Char.toLower) =
          parseDigits bound ((c :: rest).map Char.toLower) := by
        unfold parseUnsigned
        split
        · next same => exact absurd ((plus c).mp (List.cons.inj same).1) signed
        · rfl
      have whole : parseUnsigned bound (c :: rest) = parseDigits bound (c :: rest) := by
        unfold parseUnsigned
        split
        · next same => exact absurd (List.cons.inj same).1 signed
        · rfl
      rw [map_cons, lower, whole, parseDigits_toLower]

theorem head_or_digits_of_parseUnsigned (read : parseUnsigned bound text = some value) :
    text.head? = some '+' ∨ text ≠ [] ∧ text.all Char.isDigit = true := by
  unfold parseUnsigned at read
  split at read
  · exact .inl rfl
  · right
    unfold parseDigits at read
    split_ifs at read with unread
    simp only [Bool.or_eq_true, List.isEmpty_iff, Bool.not_eq_true', not_or, Bool.not_eq_false] at unread
    exact unread

/-- The sides and the mark between them are the text. -/
theorem append_of_splitOnceText {mark text before after : List Char}
    (found : splitOnceText mark text = some (before, after)) : text = before ++ (mark ++ after) := by
  induction text generalizing before with
  | nil =>
    rw [splitOnceText] at found
    split at found
    next empty =>
      cases found
      rw [empty]
      rfl
    next => cases found
  | cons c rest ih =>
    rw [splitOnceText] at found
    split at found
    next here =>
      cases found
      exact (prefix_append_drop here)
    next =>
      obtain ⟨⟨front, back⟩, inner, made⟩ := Option.map_eq_some_iff.mp found
      cases made
      rw [ih inner, cons_append]

variable {mark : List Char}

theorem splitOnceText_append (clean : c ∉ before) (after : List Char) :
    splitOnceText (c :: mark) (before ++ (c :: mark ++ after)) = some (before, after) := by
  induction before with
  | nil =>
    have here : c :: mark <+: c :: mark ++ after := prefix_append _ _
    have behind : (c :: mark ++ after).drop (c :: mark).length = after := drop_left
    rw [nil_append, cons_append, splitOnceText, ← cons_append, if_pos here, behind]
  | cons d before ih =>
    have other : ¬c :: mark <+: d :: (before ++ (c :: mark ++ after)) := by
      rw [cons_prefix_cons]
      exact fun both => clean (both.1 ▸ mem_cons_self)
    rw [cons_append, splitOnceText, if_neg other, ih fun member => clean (mem_cons_of_mem _ member)]
    rfl

theorem splitOnceText_eq_none (marked : c ∈ mark) (clean : c ∉ text) :
    splitOnceText mark text = none := by
  cases found : splitOnceText mark text with
  | none => rfl
  | some sides =>
    rw [@append_of_splitOnceText _ _ sides.1 sides.2 found] at clean
    simp [marked] at clean

end Text
