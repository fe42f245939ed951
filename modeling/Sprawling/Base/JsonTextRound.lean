import Sprawling.Base.JsonText
import Sprawling.Base.Numeral

/-! What the compact writer writes is read back: for a value without floats, under a limit its nesting
does not pass. -/

namespace Sprawling

open List Text
open Option (bind_eq_bind bind_some map_some)

namespace JsonText

section Measures

variable {count : Nat} {items : List Value}

theorem depthItems_le : depthItems items ≤ count ↔ ∀ item ∈ items, item.depth ≤ count := by
  induction items with
  | nil => simp [depthItems]
  | cons item rest ih => simp only [depthItems, Nat.max_le, ih, forall_mem_cons]

variable {entries : List (List Char × Value)}

theorem depthEntries_le :
    depthEntries entries ≤ count ↔ ∀ entry ∈ entries, entry.2.depth ≤ count := by
  induction entries with
  | nil => simp [depthEntries]
  | cons entry rest ih => simp only [depthEntries, Nat.max_le, ih, forall_mem_cons]

theorem wholeItems_iff : wholeItems items = true ↔ ∀ item ∈ items, item.whole = true := by
  induction items with
  | nil => simp [wholeItems]
  | cons item rest ih => simp [wholeItems, ih]

theorem wholeEntries_iff :
    wholeEntries entries = true ↔ ∀ entry ∈ entries, entry.2.whole = true := by
  induction entries with
  | nil => simp [wholeEntries]
  | cons entry rest ih => simp only [wholeEntries, Bool.and_eq_true, ih, forall_mem_cons]

theorem orderedItems_iff : OrderedItems items ↔ ∀ item ∈ items, item.Ordered := by
  induction items with
  | nil => simp [OrderedItems]
  | cons item rest ih => simp [OrderedItems, ih]

theorem orderedEntries_iff : OrderedEntries entries ↔ ∀ entry ∈ entries, entry.2.Ordered := by
  induction entries with
  | nil => simp [OrderedEntries]
  | cons entry rest ih => simp only [OrderedEntries, ih, forall_mem_cons]

end Measures

section Strings

theorem hexValue_hexDigit {value : Nat} (low : value < 16) : hexValue (hexDigit value) = some value := by
  have all : ∀ value < 16, hexValue (hexDigit value) = some value := by decide
  exact all value low

theorem stringBody_escape (fuel : Nat) (c : Char) (rest : List Char) :
    stringBody (fuel + 1) (escape c ++ rest) =
      (stringBody fuel rest).map fun found => (c :: found.1, found.2) := by
  have said : ∀ {spelled : Char} {tail : List Char}, unescape (spelled :: tail) = some (c, rest) →
      stringBody (fuel + 1) ('\\' :: spelled :: tail) =
        (stringBody fuel rest).map fun found => (c :: found.1, found.2) := by
    intro spelled tail read
    rw [stringBody, if_neg (by decide), if_pos rfl, read, bind_eq_bind, bind_some]
    cases found : stringBody fuel rest <;> simp [found]
  have named : ∀ {code : Nat}, c.toNat = code → Char.ofNat code = c := by
    intro code same
    rw [← same, Char.ofNat_toNat]
  unfold escape
  by_cases quote : c = '"'
  · rw [if_pos quote]
    exact said (by rw [quote]; rfl)
  rw [if_neg quote]
  by_cases slash : c = '\\'
  · rw [if_pos slash]
    exact said (by rw [slash]; rfl)
  rw [if_neg slash]
  by_cases back : c.toNat = 8
  · rw [if_pos back]
    exact said (by rw [← named back]; rfl)
  rw [if_neg back]
  by_cases feed : c.toNat = 12
  · rw [if_pos feed]
    exact said (by rw [← named feed]; rfl)
  rw [if_neg feed]
  by_cases line : c = '\n'
  · rw [if_pos line]
    exact said (by rw [line]; rfl)
  rw [if_neg line]
  by_cases carriage : c = '\r'
  · rw [if_pos carriage]
    exact said (by rw [carriage]; rfl)
  rw [if_neg carriage]
  by_cases tab : c = '\t'
  · rw [if_pos tab]
    exact said (by rw [tab]; rfl)
  rw [if_neg tab]
  by_cases control : c.toNat < 32
  · rw [if_pos control]
    have high := hexValue_hexDigit (show c.toNat / 16 < 16 by omega)
    have low := hexValue_hexDigit (show c.toNat % 16 < 16 by omega)
    have zero : hexValue '0' = some 0 := rfl
    have code : ((0 * 16 + 0) * 16 + c.toNat / 16) * 16 + c.toNat % 16 = c.toNat := by omega
    have unit : hex4 ('0' :: '0' :: hexDigit (c.toNat / 16) :: hexDigit (c.toNat % 16) :: rest) =
        some (c.toNat, rest) := by
      simp only [hex4, zero, high, low, bind_eq_bind, bind_some, Option.pure_def, code]
    have read : unescape ('u' :: '0' :: '0' :: hexDigit (c.toNat / 16) :: hexDigit (c.toNat % 16) ::
        rest) = some (c, rest) := by
      rw [unescape, unit, bind_eq_bind, bind_some]
      simp only
      rw [if_neg (by omega), if_neg (by omega), Char.ofNat_toNat]
    exact said read
  · rw [if_neg control, singleton_append, stringBody, if_neg quote, if_neg slash, if_neg control]
    cases stringBody fuel rest <;> rfl

theorem stringBody_text (text rest : List Char) (fuel : Nat) :
    stringBody (text.length + fuel + 1) (text.flatMap escape ++ '"' :: rest) = some (text, rest) := by
  induction text with
  | nil => rw [flatMap_nil, nil_append, stringBody, if_pos rfl]
  | cons c text ih =>
    have more : (c :: text).length + fuel + 1 = text.length + fuel + 1 + 1 := by
      rw [length_cons]
      omega
    rw [flatMap_cons, append_assoc, more, stringBody_escape, ih]
    rfl

theorem escape_ne_nil (c : Char) : escape c ≠ [] := by
  unfold escape
  repeat' split
  all_goals exact cons_ne_nil _ _

theorem length_le_escaped (text : List Char) : text.length ≤ (text.flatMap escape).length := by
  induction text with
  | nil => exact Nat.le_refl _
  | cons c text ih =>
    have some_ := length_pos_of_ne_nil (escape_ne_nil c)
    rw [flatMap_cons, length_append, length_cons]
    omega

theorem string_write (text rest : List Char) : string (writeString text ++ rest) = some (text, rest) := by
  have long := length_le_escaped text
  have fuel : (text.flatMap escape ++ '"' :: rest).length =
      text.length + ((text.flatMap escape).length - text.length + rest.length) + 1 := by
    rw [length_append, length_cons]
    omega
  simp only [writeString, cons_append, append_assoc, nil_append, string]
  rw [fuel, stringBody_text]

end Strings

section Numbers

/-- A text no number goes on into. -/
def Stops (rest : List Char) : Prop :=
  ∀ c ∈ rest.head?, c.isDigit = false ∧ c ≠ '.' ∧ c ≠ 'e' ∧ c ≠ 'E'

variable {rest : List Char} (stops : Stops rest)

include stops

theorem takeWhile_of_stops : rest.takeWhile Char.isDigit = [] := by
  cases rest with
  | nil => rfl
  | cons c rest =>
    rw [takeWhile_cons_of_neg]
    rw [(stops c rfl).1]
    exact Bool.false_ne_true

theorem dropWhile_of_stops : rest.dropWhile Char.isDigit = rest := by
  cases rest with
  | nil => rfl
  | cons c rest =>
    rw [dropWhile_cons_of_neg]
    rw [(stops c rfl).1]
    exact Bool.false_ne_true

theorem digits_decimal (value : Nat) :
    digits (decimal value ++ rest) = some (decimal value, rest) := by
  have all := decimal_digits value
  rw [digits, takeWhile_append_of_pos all, takeWhile_of_stops stops, append_nil,
    dropWhile_append_of_pos all, dropWhile_of_stops stops, if_neg]
  simpa using decimal_ne_nil value

theorem fraction_of_stops : fraction rest = some ([], rest) := by
  unfold fraction
  split
  · next rest => exact absurd rfl (stops '.' rfl).2.1
  · rfl

theorem exponent_of_stops : exponent rest = some ([], rest) := by
  cases rest with
  | nil => rfl
  | cons c rest =>
    have other := (stops c rfl).2.2
    rw [exponent.eq_def]
    exact if_neg fun same => same.elim other.1 other.2

omit stops

theorem ofDigitChars_decimal (value : Nat) : Nat.ofDigitChars 10 (decimal value) 0 = value := by
  simp [decimal]

theorem number_decimal (stops : Stops rest) (negative : Bool) (value : Nat) :
    number negative (decimal value ++ rest) = some
      (if negative then
        if fits : 0 < value ∧ value ≤ 2 ^ 63 then .negInt value fits
        else .float ('-' :: decimal value)
      else if fits : value < 2 ^ 64 then .posInt value fits else .float (decimal value), rest) := by
  have plain : ¬((decimal value).head? = some '0' ∧ 1 < (decimal value).length) := by
    rintro ⟨zero, long⟩
    rw [Numeral.decimal_leads zero] at long
    exact absurd long (by decide)
  unfold number
  simp only [digits_decimal stops, fraction_of_stops stops, exponent_of_stops stops,
    bind_eq_bind, bind_some, Option.pure_def, ofDigitChars_decimal, and_self, if_true,
    append_nil]
  rw [if_neg plain]
  cases negative <;> rfl

end Numbers

section Values

/-- The characters a value's text can start with are no blank and no mark of a container's inside. -/
def Opens (text : List Char) : Prop :=
  ∃ c tail, text = c :: tail ∧ c ≠ ' ' ∧ c ≠ '\n' ∧ c ≠ '\t' ∧ c ≠ '\r' ∧ c ≠ ']' ∧ c ≠ '}'

variable {text : List Char}

theorem Opens.append (opens : Opens text) (rest : List Char) : Opens (text ++ rest) := by
  obtain ⟨c, tail, rfl, other⟩ := opens
  exact ⟨c, tail ++ rest, rfl, other⟩

theorem Opens.skip (opens : Opens text) : skip text = text := by
  obtain ⟨c, tail, rfl, space, line, tab, carriage, -⟩ := opens
  rw [JsonText.skip, dropWhile_cons_of_neg]
  simp [space, line, tab, carriage]

variable {c : Char} {tail : List Char}

theorem opens_of_digit (digit : c.isDigit = true) : Opens (c :: tail) := by
  refine ⟨c, tail, rfl, ?_, ?_, ?_, ?_, ?_, ?_⟩
  all_goals
    intro same
    rw [same] at digit
    revert digit
    decide

theorem opens_writeString (text : List Char) : Opens (writeString text) :=
  ⟨'"', _, rfl, by decide, by decide, by decide, by decide, by decide, by decide⟩

theorem opens_write {value : Value} (whole : value.whole = true) : Opens value.write := by
  cases value with
  | null => exact ⟨'n', _, rfl, by decide⟩
  | bool value =>
    cases value with
    | true => exact ⟨'t', _, rfl, by decide⟩
    | false => exact ⟨'f', _, rfl, by decide⟩
  | number value =>
    cases value with
    | posInt value fits =>
      obtain ⟨c, tail, spelled⟩ := exists_cons_of_ne_nil (decimal_ne_nil value)
      have digit := decimal_digits value c (spelled ▸ mem_cons_self)
      rw [Value.write, Number.write, spelled]
      exact opens_of_digit digit
    | negInt magnitude fits => exact ⟨'-', _, rfl, by decide⟩
    | float literal => cases whole
  | string text => exact opens_writeString text
  | array items =>
    cases items with
    | nil => exact ⟨'[', _, rfl, by decide⟩
    | cons item rest => exact ⟨'[', _, rfl, by decide⟩
  | object entries =>
    cases entries with
    | nil => exact ⟨'{', _, rfl, by decide⟩
    | cons entry rest => exact ⟨'{', _, rfl, by decide⟩

/-- A reader that takes back what is written of a value. -/
def Takes (inner : Reader Value) (value : Value) : Prop :=
  ∀ rest, Stops rest → inner (value.write ++ rest) = some (value, rest)

theorem skip_mark (mark : c = ']' ∨ c = '}' ∨ c = ',' ∨ c = ':') (rest : List Char) :
    skip (c :: rest) = c :: rest := by
  rcases mark with rfl | rfl | rfl | rfl <;> rfl

theorem stops_mark (mark : c = ']' ∨ c = '}' ∨ c = ',') (rest : List Char) :
    Stops (c :: rest) := by
  intro first member
  cases member
  rcases mark with rfl | rfl | rfl <;> decide

theorem stops_writeItems (items : List Value) (rest : List Char) : Stops (writeItems items ++ rest) := by
  cases items with
  | nil => exact stops_mark (.inl rfl) _
  | cons item others => exact stops_mark (.inr (.inr rfl)) _

theorem stops_writeEntries (entries : List (List Char × Value)) (rest : List Char) :
    Stops (writeEntries entries ++ rest) := by
  cases entries with
  | nil => exact stops_mark (.inr (.inl rfl)) _
  | cons entry others => exact stops_mark (.inr (.inr rfl)) _

theorem length_writeItems (items : List Value) : items.length < (writeItems items).length := by
  induction items with
  | nil => exact Nat.one_pos
  | cons item others ih =>
    rw [writeItems, length_append, length_cons, length_cons]
    omega

theorem length_writeEntries (entries : List (List Char × Value)) :
    entries.length < (writeEntries entries).length := by
  induction entries with
  | nil => exact Nat.one_pos
  | cons entry others ih =>
    rw [writeEntries]
    simp only [length_append, length_cons]
    omega

variable {inner : Reader Value}

theorem elements_write {item : Value} {others : List Value}
    (reads : ∀ one ∈ item :: others, Takes inner one) (fuel : Nat) (rest : List Char) :
    elements inner (others.length + fuel + 1) (item.write ++ (writeItems others ++ rest)) =
      some (item :: others, rest) := by
  induction others generalizing item with
  | nil =>
    rw [elements, reads item mem_cons_self _ (stops_writeItems [] rest), bind_eq_bind,
      bind_some]
    simp only [writeItems, singleton_append, skip_mark (.inl rfl)]
  | cons next others ih =>
    have later := @ih next fun one member => reads one (mem_cons_of_mem _ member)
    have more : (next :: others).length + fuel + 1 = others.length + fuel + 1 + 1 := by
      rw [length_cons]
      omega
    rw [more, elements, reads item mem_cons_self _ (stops_writeItems _ rest),
      bind_eq_bind, bind_some]
    simp only [writeItems, cons_append, skip_mark (.inr (.inr (.inl rfl))), append_assoc]
    rw [later]
    rfl

variable {items : List Value}

theorem items_write (reads : ∀ one ∈ items, Takes inner one)
    (opens : ∀ one ∈ items, Opens one.write) (rest : List Char) :
    ∃ body, (Value.array items).write = '[' :: body ∧
      JsonText.items inner (body ++ rest) = some (items, rest) := by
  cases items with
  | nil => exact ⟨[']'], rfl, rfl⟩
  | cons item others =>
    refine ⟨item.write ++ writeItems others, rfl, ?_⟩
    have first := (opens item mem_cons_self).append (writeItems others ++ rest)
    have skips := first.skip
    obtain ⟨c, tail, spelled, -, -, -, -, close, -⟩ := first
    have long := length_writeItems others
    have fuel : (item.write ++ (writeItems others ++ rest)).length =
        others.length + (item.write.length + (writeItems others).length - 1 - others.length
          + rest.length) + 1 := by
      simp only [length_append]
      omega
    rw [append_assoc, JsonText.items, skips]
    split
    · next rest' same =>
        rw [spelled] at same
        cases same
        exact absurd rfl close
    · rw [fuel, elements_write reads]

theorem entry_write {one : List Char × Value} (reads : Takes inner one.2) {rest : List Char}
    (stops : Stops rest) :
    entry inner (writeString one.1 ++ ':' :: (one.2.write ++ rest)) = some (one, rest) := by
  have skips := ((opens_writeString one.1).append (':' :: (one.2.write ++ rest))).skip
  rw [entry, skips, string_write, bind_eq_bind, bind_some]
  simp only [skip_mark (.inr (.inr (.inr rfl)))]
  rw [reads rest stops]
  rfl

theorem members_write {first : List Char × Value} {others : List (List Char × Value)}
    (reads : ∀ one ∈ first :: others, Takes inner one.2) (fuel : Nat) (rest : List Char) :
    members inner (others.length + fuel + 1)
        (writeString first.1 ++ ':' :: (first.2.write ++ (writeEntries others ++ rest))) =
      some (first :: others, rest) := by
  induction others generalizing first with
  | nil =>
    rw [members, entry_write (reads first mem_cons_self) (stops_writeEntries [] rest),
      bind_eq_bind, bind_some]
    simp only [writeEntries, singleton_append, skip_mark (.inr (.inl rfl))]
  | cons next others ih =>
    have later := @ih next fun one member => reads one (mem_cons_of_mem _ member)
    have more : (next :: others).length + fuel + 1 = others.length + fuel + 1 + 1 := by
      rw [length_cons]
      omega
    rw [more, members, entry_write (reads first mem_cons_self) (stops_writeEntries _ rest),
      bind_eq_bind, bind_some]
    simp only [writeEntries, cons_append, skip_mark (.inr (.inr (.inl rfl))), append_assoc]
    rw [later]
    rfl

variable {entries : List (List Char × Value)}

/-- The written entries of an object are read back as they stand. -/
theorem entries_write (reads : ∀ one ∈ entries, Takes inner one.2) (rest : List Char) :
    ∃ body, (Value.object entries).write = '{' :: body ∧
      JsonText.entries inner (body ++ rest) = some (entries, rest) := by
  cases entries with
  | nil => exact ⟨['}'], rfl, rfl⟩
  | cons first others =>
    refine ⟨writeString first.1 ++ ':' :: first.2.write ++ writeEntries others, rfl, ?_⟩
    have skips := ((opens_writeString first.1).append
      (':' :: (first.2.write ++ (writeEntries others ++ rest)))).skip
    have long := length_writeEntries others
    have fuel : (writeString first.1 ++ ':' :: (first.2.write ++ (writeEntries others ++ rest))).length =
        others.length + ((writeString first.1).length + first.2.write.length
          + (writeEntries others).length - others.length + rest.length) + 1 := by
      simp only [length_append, length_cons]
      omega
    simp only [append_assoc, cons_append]
    rw [JsonText.entries, skips]
    split
    · next rest' same =>
        cases same
    · rw [fuel, members_write reads]

theorem value_of_scalar (opens : Opens (c :: tail)) (array : c ≠ '[')
    (object : c ≠ '{') (depth : Nat) : value depth (c :: tail) = scalar (c :: tail) := by
  cases depth with
  | zero =>
    rw [value, opens.skip]
    split
    · next same =>
        cases same
        exact absurd rfl array
    · next same =>
        cases same
        exact absurd rfl object
    · rfl
  | succ depth =>
    rw [value, opens.skip]
    split
    · next same =>
        cases same
        exact absurd rfl array
    · next same =>
        cases same
        exact absurd rfl object
    · rfl

theorem scalar_of_digit (digit : c.isDigit = true) :
    scalar (c :: tail) = (number false (c :: tail)).map fun found => (.number found.1, found.2) := by
  have other : ∀ mark : Char, mark.isDigit = false → c ≠ mark := by
    intro mark plain same
    rw [same, plain] at digit
    cases digit
  unfold scalar
  split
  · next same =>
      cases same
      exact absurd rfl (other 'n' rfl)
  · next same =>
      cases same
      exact absurd rfl (other 't' rfl)
  · next same =>
      cases same
      exact absurd rfl (other 'f' rfl)
  · next same =>
      cases same
      exact absurd rfl (other '-' rfl)
  · next same =>
      cases same
      exact absurd rfl (other '"' rfl)
  · rfl

theorem takes_number {number : Number} (whole : (Value.number number).whole = true) (depth : Nat) :
    Takes (value depth) (.number number) := by
  intro rest stops
  cases number with
  | posInt count fits =>
    obtain ⟨c, tail, spelled⟩ := exists_cons_of_ne_nil (decimal_ne_nil count)
    have digit := decimal_digits count c (spelled ▸ mem_cons_self)
    have text : (Value.number (.posInt count fits)).write ++ rest = c :: (tail ++ rest) := by
      rw [Value.write, Number.write, spelled, cons_append]
    have array : c ≠ '[' := by
      intro same
      rw [same] at digit
      cases digit
    have object : c ≠ '{' := by
      intro same
      rw [same] at digit
      cases digit
    have read := number_decimal stops false count
    rw [if_neg Bool.false_ne_true, dif_pos fits, spelled, cons_append] at read
    rw [text, value_of_scalar (opens_of_digit digit) array object, scalar_of_digit digit, read]
    rfl
  | negInt magnitude fits =>
    have opens : Opens ('-' :: (decimal magnitude ++ rest)) := ⟨'-', _, rfl, by decide⟩
    have text : (Value.number (.negInt magnitude fits)).write ++ rest =
        '-' :: (decimal magnitude ++ rest) := rfl
    have read := number_decimal stops true magnitude
    rw [if_pos rfl, dif_pos fits] at read
    rw [text, value_of_scalar opens (by decide) (by decide), scalar, read]
    rfl
  | float literal => cases whole

theorem takes_string (text : List Char) (depth : Nat) : Takes (value depth) (.string text) := by
  intro rest _
  have opens := (opens_writeString text).append rest
  have read := string_write text rest
  rw [Value.write]
  rw [writeString, cons_append, cons_append] at opens read ⊢
  rw [value_of_scalar opens (by decide) (by decide), scalar, read]
  rfl

/-- A value without floats is read back from its text, where no more containers are nested in it than
the reader opens. -/
theorem value_write (written : Value) : written.whole = true →
    ∀ depth, written.depth ≤ depth → Takes (value depth) written := by
  induction written using Value.induct with
  | null =>
    intro _ depth _ rest _
    rw [show Value.null.write ++ rest = 'n' :: 'u' :: 'l' :: 'l' :: rest from rfl,
      value_of_scalar ⟨'n', _, rfl, by decide⟩ (by decide) (by decide)]
    rfl
  | bool flag =>
    intro _ depth _ rest _
    cases flag with
    | true =>
      rw [show (Value.bool true).write ++ rest = 't' :: 'r' :: 'u' :: 'e' :: rest from rfl,
        value_of_scalar ⟨'t', _, rfl, by decide⟩ (by decide) (by decide)]
      rfl
    | false =>
      rw [show (Value.bool false).write ++ rest = 'f' :: 'a' :: 'l' :: 's' :: 'e' :: rest from rfl,
        value_of_scalar ⟨'f', _, rfl, by decide⟩ (by decide) (by decide)]
      rfl
  | number number => exact fun whole depth _ => takes_number whole depth
  | string text => exact fun _ depth _ => takes_string text depth
  | array items ih =>
    intro whole depth deep rest _
    rw [Value.whole, wholeItems_iff] at whole
    cases depth with
    | zero => cases deep
    | succ depth =>
      have shallow := depthItems_le.mp (Nat.le_of_succ_le_succ deep)
      obtain ⟨body, text, read⟩ := items_write
        (fun one member => ih one member (whole one member) depth (shallow one member)) (fun one member => opens_write (whole one member)) rest
      have opens : Opens ('[' :: (body ++ rest)) := ⟨'[', _, rfl, by decide⟩
      rw [text, cons_append, value, opens.skip]
      simp only [read, map_some]
  | object entries ih =>
    intro whole depth deep rest _
    rw [Value.whole, wholeEntries_iff] at whole
    cases depth with
    | zero => cases deep
    | succ depth =>
      have shallow := depthEntries_le.mp (Nat.le_of_succ_le_succ deep)
      obtain ⟨body, text, read⟩ := entries_write
        (fun one member => ih one member (whole one member) depth (shallow one member)) rest
      have opens : Opens ('{' :: (body ++ rest)) := ⟨'{', _, rfl, by decide⟩
      rw [text, cons_append, value, opens.skip]
      simp only [read, map_some]

def Plain (text : List Char) : Prop := ∀ c ∈ text, 32 ≤ c.toNat

theorem plain_of_all {text : List Char} (checked : text.all (fun c => 32 ≤ c.toNat) = true) :
    Plain text := fun c member => of_decide_eq_true (all_eq_true.mp checked c member)

theorem plain_nil : Plain [] := fun _ member => by cases member

theorem Plain.append {first second : List Char} (plain : Plain first) (others : Plain second) :
    Plain (first ++ second) := fun c member =>
  (mem_append.mp member).elim (plain c) (others c)

theorem Plain.cons {c : Char} {text : List Char} (high : 32 ≤ c.toNat) (others : Plain text) :
    Plain (c :: text) := fun _ member =>
  (mem_cons.mp member).elim (fun same => same ▸ high) (others _)

theorem plain_decimal (value : Nat) : Plain (decimal value) := fun c member =>
  Nat.le_trans (by decide) (digit_bounds (decimal_digits value c member)).1

theorem plain_escape (c : Char) : Plain (escape c) := by
  have digit : ∀ value < 16, 32 ≤ (hexDigit value).toNat := by decide
  unfold escape
  split
  · exact plain_of_all (by decide)
  split
  · exact plain_of_all (by decide)
  split
  · exact plain_of_all (by decide)
  split
  · exact plain_of_all (by decide)
  split
  · exact plain_of_all (by decide)
  split
  · exact plain_of_all (by decide)
  split
  · exact plain_of_all (by decide)
  split
  · next low =>
      have high := digit (c.toNat / 16) (by omega)
      have rest := digit (c.toNat % 16) (by omega)
      exact .cons (by decide) (.cons (by decide) (.cons (by decide) (.cons (by decide)
        (.cons high (.cons rest plain_nil)))))
  · next high => exact .cons (Nat.le_of_not_lt high) plain_nil

theorem plain_writeString (text : List Char) : Plain (writeString text) := by
  refine .cons (by decide) (Plain.append (fun c member => ?_) (.cons (by decide) plain_nil))
  obtain ⟨read, -, inside⟩ := mem_flatMap.mp member
  exact plain_escape read c inside

theorem plain_writeItems (plain : ∀ item ∈ items, Plain item.write) :
    Plain (writeItems items) := by
  induction items with
  | nil => exact .cons (by decide) plain_nil
  | cons item rest ih =>
    rw [forall_mem_cons] at plain
    exact .append (.cons (by decide) plain.1) (ih plain.2)

theorem plain_writeEntries
    (plain : ∀ entry ∈ entries, Plain entry.2.write) : Plain (writeEntries entries) := by
  induction entries with
  | nil => exact .cons (by decide) plain_nil
  | cons entry rest ih =>
    rw [forall_mem_cons] at plain
    exact .append (.append (.cons (by decide) (plain_writeString entry.1))
      (.cons (by decide) plain.1)) (ih plain.2)

/-- What is written of a value without floats has no control character. -/
theorem plain_write (written : Value) : written.whole = true → Plain written.write := by
  induction written using Value.induct with
  | null => exact fun _ => plain_of_all (by decide)
  | bool flag => cases flag <;> exact fun _ => plain_of_all (by decide)
  | number number =>
    intro whole
    cases number with
    | posInt value fits => exact plain_decimal value
    | negInt magnitude fits => exact .cons (by decide) (plain_decimal magnitude)
    | float literal => cases whole
  | string text => exact fun _ => plain_writeString text
  | array items ih =>
    intro whole
    rw [Value.whole, wholeItems_iff] at whole
    cases items with
    | nil => exact plain_of_all (by decide)
    | cons item rest =>
      have plain : ∀ one ∈ item :: rest, Plain one.write := fun one member =>
        ih one member (whole one member)
      rw [forall_mem_cons] at plain
      exact .append (.cons (by decide) plain.1) (plain_writeItems plain.2)
  | object entries ih =>
    intro whole
    rw [Value.whole, wholeEntries_iff] at whole
    cases entries with
    | nil => exact plain_of_all (by decide)
    | cons entry rest =>
      have plain : ∀ one ∈ entry :: rest, Plain one.2.write := fun one member =>
        ih one member (whole one member)
      rw [forall_mem_cons] at plain
      exact .append (.append (.cons (by decide) (plain_writeString entry.1))
        (.cons (by decide) plain.1)) (plain_writeEntries plain.2)

end Values

section Maps

theorem get_foldl_insert (before : OrdMap (List Char) Value) (later : List (List Char × Value))
    (apart : later.Pairwise fun first second => first.1 ≠ second.1) (key : List Char) (value : Value) :
    (later.foldl (fun held entry => held.insert entry.1 entry.2) before)[key]? = some value ↔
      (key, value) ∈ later ∨ (before[key]? = some value ∧ ∀ entry ∈ later, entry.1 ≠ key) := by
  induction later generalizing before with
  | nil => simp
  | cons entry later ih =>
    have first := pairwise_cons.mp apart
    rw [foldl_cons, ih _ first.2, OrdMap.get_insert, mem_cons, forall_mem_cons]
    by_cases same : entry.1 = key
    · subst same
      have gone : ∀ other ∈ later, other.1 ≠ entry.1 := fun other member =>
        Ne.symm (first.1 other member)
      have absent : (entry.1, value) ∉ later := fun member => gone _ member rfl
      simp only [if_true, absent, ne_eq, not_true_eq_false, false_and, and_false, or_false, false_or,
        Option.some.injEq]
      constructor
      · rintro ⟨rfl, -⟩
        exact rfl
      · intro made
        exact ⟨congrArg Prod.snd made.symm, gone⟩
    · have differ : (key, value) ≠ entry := fun made => same (congrArg Prod.fst made).symm
      rw [if_neg same]
      simp only [differ, false_or, ne_eq, same, not_false_eq_true, true_and]

variable {entries : List (List Char × Value)}

theorem collect_of_sorted (sorted : Sorted entries) :
    collect entries = entries := by
  have apart : entries.Pairwise fun first second => first.1 ≠ second.1 :=
    sorted.imp fun {first second} less same => by
      simp [same] at less
  refine OrdMap.toList_eq_of_pairwise sorted fun key value => ?_
  rw [get_foldl_insert ∅ entries apart key value]
  simp


theorem sorted_collect (entries : List (List Char × Value)) : Sorted (collect entries) :=
  Std.ExtTreeMap.ordered_keys_toList

theorem mem_of_mem_collect {entry : List Char × Value}
    (member : entry ∈ collect entries) : entry ∈ entries := by
  have held : ∀ (before : OrdMap (List Char) Value) (later : List (List Char × Value)),
      (later.foldl (fun held entry => held.insert entry.1 entry.2) before)[entry.1]? = some entry.2 →
        entry ∈ later ∨ before[entry.1]? = some entry.2 := by
    intro before later found
    induction later generalizing before with
    | nil => exact .inr found
    | cons first later ih =>
      rcases ih _ found with inside | here
      · exact .inl (mem_cons_of_mem _ inside)
      · rw [OrdMap.get_insert] at here
        split at here
        · next same =>
            have whole : entry = first := Prod.ext same.symm (Option.some.inj here).symm
            exact .inl (whole ▸ mem_cons_self)
        · exact .inr here
  rcases held ∅ entries (Std.ExtTreeMap.mem_toList_iff_getElem?_eq_some.mp member) with inside | none_
  · exact inside
  · simp at none_

theorem settleItems_eq (items : List Value) : settleItems items = items.map Value.settle := by
  induction items with
  | nil => rfl
  | cons item rest ih => rw [settleItems, ih, map_cons]

theorem settleEntries_eq (entries : List (List Char × Value)) :
    settleEntries entries = entries.map fun entry => (entry.1, entry.2.settle) := by
  induction entries with
  | nil => rfl
  | cons entry rest ih => rw [settleEntries, ih, map_cons]

/-- A settled value has its keys in order. -/
theorem ordered_settle (value : Value) : value.settle.Ordered := by
  induction value using Value.induct with
  | null => trivial
  | bool flag => trivial
  | number number => trivial
  | string text => trivial
  | array items ih =>
    rw [Value.settle, Value.Ordered, settleItems_eq, orderedItems_iff, forall_mem_map]
    exact ih
  | object entries ih =>
    rw [Value.settle, Value.Ordered, settleEntries_eq, orderedEntries_iff]
    refine ⟨sorted_collect _, fun entry member => ?_⟩
    obtain ⟨source, inside, rfl⟩ := mem_map.mp (mem_of_mem_collect member)
    exact ih source inside

/-- A value with its keys in order is settled. -/
theorem settle_of_ordered (value : Value) : value.Ordered → value.settle = value := by
  induction value using Value.induct with
  | null => exact fun _ => rfl
  | bool flag => exact fun _ => rfl
  | number number => exact fun _ => rfl
  | string text => exact fun _ => rfl
  | array items ih =>
    intro ordered
    rw [Value.Ordered, orderedItems_iff] at ordered
    have same : items.map Value.settle = items.map id :=
      map_congr_left fun item member => ih item member (ordered item member)
    rw [Value.settle, settleItems_eq, same, map_id]
  | object entries ih =>
    intro ordered
    rw [Value.Ordered, orderedEntries_iff] at ordered
    have same : entries.map (fun entry => (entry.1, entry.2.settle)) = entries.map id :=
      map_congr_left fun entry member =>
        Prod.ext rfl (ih entry member (ordered.2 entry member))
    rw [Value.settle, settleEntries_eq, same, map_id, collect_of_sorted ordered.1]

end Maps

end JsonText

end Sprawling
