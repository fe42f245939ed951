import Sprawling.Base.Outcome
import Sprawling.Kernel.Locator

namespace Sprawling

open List Text Digest

/-- A range one of the two constructors answered with. -/
def Range.Built (range : Range) : Prop :=
  ∃ low high, Range.ofLines low high = .ok range ∨ Range.ofBytes low high = .ok range

namespace Locator

def range : Locator → Option Range
  | cas _ range => range
  | file _ _ range => range

/-- Whatever address is in the reference has no `#`. -/
def HashFree : Locator → Prop
  | cas _ _ => True
  | file address _ _ => '#' ∉ address.text

theorem decimal_head {value : Nat} (long : 1 < (Text.decimal value).length) :
    (Text.decimal value).head? ≠ some '0' := by
  induction value using Nat.strong_induction_on with
  | _ value ih =>
    by_cases small : value < 10
    · rw [Text.decimal, Nat.toDigits_of_lt_base small] at long
      simp at long
    · have lower : value / 10 < value := by omega
      have step : Text.decimal value = Text.decimal (value / 10) ++ [(value % 10).digitChar] :=
        Nat.toDigits_of_base_le (by decide) (by omega)
      rw [step, head?_append_of_ne_nil _ (decimal_ne_nil _)]
      by_cases single : value / 10 < 10
      · rw [Text.decimal, Nat.toDigits_of_lt_base single]
        have positive : 0 < value / 10 := by omega
        generalize value / 10 = digit at single positive
        interval_cases digit <;> decide
      · refine ih _ lower ?_
        have inner : Text.decimal (value / 10) =
            Text.decimal (value / 10 / 10) ++ [(value / 10 % 10).digitChar] :=
          Nat.toDigits_of_base_le (by decide) (by omega)
        have filled := length_pos_of_ne_nil (decimal_ne_nil (value / 10 / 10))
        rw [inner, length_append, length_singleton]
        omega

theorem parseCanonicalU64_decimal (raw : List Char) (value : UInt64) :
    parseCanonicalU64 raw (Text.decimal value.toNat) = .ok value := by
  have bounded : value.toNat < u64Bound := value.toNat_lt
  have digits := decimal_digits value.toNat
  rw [parseCanonicalU64, if_neg, if_neg, parseUnsigned_decimal bounded]
  · simp only [UInt64.ofNat_toNat]
  · rintro ⟨long, front⟩
    exact decimal_head long front
  · simp only [Bool.or_eq_true, List.isEmpty_iff, Bool.not_eq_true', not_or]
    refine ⟨decimal_ne_nil _, ?_⟩
    simpa using digits

theorem splitOnce_bounds (low high : Nat) :
    splitOnce '-' (Text.decimal low ++ '-' :: Text.decimal high) =
      some (Text.decimal low, Text.decimal high) :=
  splitOnce_eq_some.mpr ⟨rfl, not_mem_decimal (by decide) low⟩

theorem parseRange_display (raw : List Char) {range : Range} (built : range.Built) :
    parseRange raw range.display = .ok range := by
  obtain ⟨low, high, lines | bytes⟩ := built
  · have shape : range = .lines low high := by
      simp only [Range.ofLines] at lines
      split at lines
      · cases lines
      · exact (Except.ok.inj lines).symm
    rw [shape] at lines ⊢
    simp only [Range.display, cons_append, parseRange, splitOnce_bounds,
      parseCanonicalU64_decimal, bind, Except.bind, if_true, lines, Except.mapError]
  · have shape : range = .bytes low high := by
      simp only [Range.ofBytes] at bytes
      split at bytes
      · cases bytes
      · exact (Except.ok.inj bytes).symm
    rw [shape] at bytes ⊢
    simp only [Range.display, cons_append, parseRange, splitOnce_bounds,
      parseCanonicalU64_decimal, bind, Except.bind, if_true, bytes, Except.mapError,
      show ¬ 'B' = 'L' by decide, if_false]

variable {range : Option Range}

theorem splitRange_writeRange (raw : List Char) {body : List Char} (clean : '#' ∉ body)
    (built : ∀ held, range = some held → held.Built) :
    splitRange raw (body ++ writeRange range) = .ok (body, range) := by
  cases range with
  | none =>
    rw [writeRange, append_nil, splitRange, splitOnce_eq_none.mpr clean]
  | some held =>
    rw [writeRange, splitRange, splitOnce_eq_some.mpr ⟨rfl, clean⟩]
    simp only [parseRange_display raw (built held rfl)]
    rfl

theorem stripPrefix_append (mark rest : List Char) : stripPrefix mark (mark ++ rest) = some rest := by
  have front : mark.isPrefixOf (mark ++ rest) = true :=
    isPrefixOf_iff_prefix.mpr (prefix_append mark rest)
  rw [stripPrefix, if_pos front, drop_left]

theorem not_mem_display {width : Nat} {c : Char} (noHex : c ∉ hexDigits)
    (digest : Digest width) : c ∉ digest.display :=
  fun member => noHex (mem_hexDigits_of_mem_writeHex member)

variable {raw rest : List Char}

theorem parseInner_cas {hash : B3Hash} (scheme : raw = "cas:".toList ++ rest)
    (cut : splitRange raw rest = .ok ("b3-".toList ++ hash.display, range)) :
    parseInner raw = .ok (cas hash range) := by
  have front : stripPrefix "cas:".toList raw = some rest := by
    rw [scheme, stripPrefix_append]
  unfold parseInner
  rw [front]
  simp only [cut, stripPrefix_append, decodeHexFixed_display, bind, Except.bind]

theorem stripPrefix_file (rest : List Char) :
    stripPrefix "cas:".toList ("file:".toList ++ rest) = none := by
  have apart : ("cas:".toList.isPrefixOf ("file:".toList ++ rest)) = false := rfl
  rw [stripPrefix, if_neg (by rw [apart]; decide)]

variable {address : Address}

theorem parseInner_file {oid : GitOid} (scheme : raw = "file:".toList ++ rest)
    (cut : splitRange raw rest = .ok (address.text ++ '@' :: oid.display, range)) :
    parseInner raw = .ok (file address oid range) := by
  have other : stripPrefix "cas:".toList raw = none := scheme ▸ stripPrefix_file rest
  have front : stripPrefix "file:".toList raw = some rest := by
    rw [scheme, stripPrefix_append]
  have sides : rsplitOnce '@' (address.text ++ '@' :: oid.display) =
      some (address.text, oid.display) :=
    rsplitOnce_eq_some.mpr ⟨rfl, not_mem_display (by decide) oid⟩
  unfold parseInner
  rw [other]
  simp only [front, cut, sides, Address.parse_text, decodeHexFixed_display, bind, Except.bind,
    Except.mapError]

/-- Without a `#` in its address a reference reads back as it is. -/
theorem parse_display {locator : Locator} (clean : locator.HashFree)
    (built : ∀ held, locator.range = some held → held.Built) :
    parse locator.display = .ok locator := by
  have inner : parseInner locator.display = .ok locator := by
    cases locator with
    | cas hash range =>
      have tagged : '#' ∉ "b3-".toList ++ hash.display := by
        rw [mem_append, not_or]
        exact ⟨by decide, not_mem_display (by decide) hash⟩
      refine parseInner_cas ?_ (splitRange_writeRange _ tagged built)
      rw [display_cas, append_assoc, append_assoc]
      rfl
    | file address oid range =>
      have plain : '#' ∉ address.text ++ '@' :: oid.display := by
        rw [mem_append, mem_cons, not_or, not_or]
        exact ⟨clean, by decide, not_mem_display (by decide) oid⟩
      refine parseInner_file ?_ (splitRange_writeRange _ plain built)
      rw [display_file]
      simp only [append_assoc, cons_append, nil_append]
  unfold parse
  rw [inner]
  show (if locator.display = locator.display then Except.ok locator else _) = _
  rw [if_pos rfl]

theorem parseCanonicalU64_digits {digits : List Char} {value : UInt64}
    (success : parseCanonicalU64 raw digits = .ok value) : ∀ c ∈ digits, c.isDigit = true := by
  unfold parseCanonicalU64 at success
  split at success
  · cases success
  · rename_i decimal
    simp only [Bool.or_eq_true, Bool.not_eq_true', not_or] at decimal
    simpa using decimal.2

theorem parseRange_chars {fragment : List Char} {range : Range}
    (success : parseRange raw fragment = .ok range) {c : Char} (member : c ∈ fragment) :
    c = 'L' ∨ c = 'B' ∨ c = '-' ∨ c.isDigit = true := by
  cases fragment with
  | nil => cases member
  | cons unit body =>
    simp only [parseRange] at success
    split at success
    · cases success
    · next low high cut =>
        obtain ⟨first, lowRead, success⟩ := Outcome.bind_eq_ok.mp success
        obtain ⟨last, highRead, success⟩ := Outcome.bind_eq_ok.mp success
        have shape := (splitOnce_eq_some.mp cut).1
        have unitKnown : unit = 'L' ∨ unit = 'B' := by
          by_contra unknown
          rw [not_or] at unknown
          rw [if_neg unknown.1, if_neg unknown.2] at success
          cases success
        rw [shape] at member
        simp only [mem_cons, mem_append] at member
        rcases member with same | inLow | dash | inHigh
        · rw [same]
          exact unitKnown.elim Or.inl fun bytes => Or.inr (Or.inl bytes)
        · exact Or.inr (Or.inr (Or.inr (parseCanonicalU64_digits lowRead c inLow)))
        · exact Or.inr (Or.inr (Or.inl dash))
        · exact Or.inr (Or.inr (Or.inr (parseCanonicalU64_digits highRead c inHigh)))

theorem splitOnce_before (mark : Char) (front rest : List Char) :
    ∃ before after, splitOnce mark (front ++ mark :: rest) = some (before, after) ∧
      rest <:+ after := by
  induction front with
  | nil => exact ⟨[], rest, by simp [splitOnce], suffix_rfl⟩
  | cons c front ih =>
    by_cases same : c = mark
    · exact ⟨[], front ++ mark :: rest, by simp [splitOnce, same],
        (suffix_cons mark rest).trans (suffix_append front _)⟩
    · obtain ⟨before, after, cut, behind⟩ := ih
      exact ⟨c :: before, after, by simp [splitOnce, same, cut], behind⟩

theorem splitRange_hash {front : List Char} (stray : '@' ∈ rest) (cut : List Char × Option Range) :
    splitRange raw (front ++ '#' :: rest) ≠ .ok cut := by
  intro success
  obtain ⟨body, fragment, found, behind⟩ := splitOnce_before '#' front rest
  rw [splitRange, found] at success
  obtain ⟨range, read, -⟩ := Outcome.bind_eq_ok.mp success
  have known := parseRange_chars read (behind.subset stray)
  revert known
  decide

theorem parse_hash {oid : GitOid} (hash : '#' ∈ address.text)
    (locator : Locator) : parse (file address oid range).display ≠ .ok locator := by
  intro success
  obtain ⟨front, rest, shape⟩ := append_of_mem hash
  obtain ⟨parsed, inner, -⟩ := Outcome.bind_eq_ok.mp success
  have text : (file address oid range).display =
      "file:".toList ++ (front ++ '#' :: (rest ++ '@' :: oid.display ++ writeRange range)) := by
    rw [display_file, shape]
    simp only [append_assoc, cons_append, nil_append]
  have other : stripPrefix "cas:".toList (file address oid range).display = none :=
    text ▸ stripPrefix_file _
  have here : stripPrefix "file:".toList (file address oid range).display =
      some (front ++ '#' :: (rest ++ '@' :: oid.display ++ writeRange range)) := by
    rw [text, stripPrefix_append]
  unfold parseInner at inner
  rw [other] at inner
  simp only [here] at inner
  obtain ⟨cut, split, -⟩ := Outcome.bind_eq_ok.mp inner
  exact splitRange_hash (by simp) cut split

/-- A reference with a built range reads back from its text exactly when its address has no `#`;
and whatever reads is displayed as it was written. -/
theorem parse_display_iff (locator : Locator)
    (built : ∀ held, locator.range = some held → held.Built) :
    (parse locator.display = .ok locator ↔ locator.HashFree) ∧
      ∀ (raw : List Char) (read : Locator), parse raw = .ok read → read.display = raw := by
  refine ⟨⟨fun success => ?_, fun clean => parse_display clean built⟩, fun raw read =>
    display_of_parse⟩
  cases locator with
  | cas hash range => trivial
  | file address oid range => exact fun hash => parse_hash hash _ success

/-- Lines of a checkpointed file whose name has an `@` in it. -/
def citedLines : Locator :=
  file ⟨"src/a@b.rs".toList, by decide⟩ ⟨List.replicate 20 0, rfl⟩ (some (.lines 3 14))

theorem parse_display_iff_cited :
    (parse citedLines.display = .ok citedLines ↔ citedLines.HashFree) ∧
      ∀ (raw : List Char) (read : Locator), parse raw = .ok read → read.display = raw :=
  parse_display_iff citedLines fun held same => by
    cases same
    exact ⟨3, 14, Or.inl rfl⟩

/-- A checkpointed file whose name has a `#` in it. -/
def numberedNote : Locator :=
  file ⟨"notes/#1.md".toList, by decide⟩ ⟨List.replicate 20 0, rfl⟩ none

/-- The address of `numberedNote` parses, and its reference does not read back. -/
theorem numberedNote_lost :
    ¬ ((∀ locator : Locator, (∀ held, locator.range = some held → held.Built) →
        parse locator.display = .ok locator) ∧
      ∀ (raw : List Char) (read : Locator), parse raw = .ok read → read.display = raw) := by
  rintro ⟨reads, -⟩
  have read := reads numberedNote fun held same => by cases same
  have refused : (parse numberedNote.display).toOption = none := by decide +kernel
  rw [read] at refused
  cases refused

end Locator

end Sprawling
