import Sprawling.Base.Outcome
import Sprawling.Kernel.Release

/-! Every spelling of a release is read as that release and no other text is, and the order of releases
is the order of their spellings. -/

namespace Sprawling

open List Numeral Option Semver Text

namespace Version

variable {text : List Char}

theorem number_eq_some {value : UInt32} :
    number text = some value ↔ text = decimal value.toNat := by
  constructor
  · intro read
    unfold number at read
    split at read
    next => cases read
    next first rest =>
      split_ifs at read with digit single
      obtain ⟨whole, parsed, rfl⟩ := map_eq_some_iff.mp read
      have digits : (first :: rest).all Char.isDigit = true := by
        rcases head_or_digits_of_parseUnsigned parsed with plus | ⟨-, digits⟩
        · rw [Option.some.inj plus] at digit
          exact absurd digit (by decide)
        · exact digits
      have each := all_eq_true.mp digits
      have front : (first :: rest).head? = some '0' → (first :: rest).length ≤ 1 := by
        intro zero
        have alone : rest = [] := not_not.mp fun more => single ⟨Option.some.inj zero, more⟩
        rw [alone, length_singleton]
      rw [parseUnsigned_of_digits each, parseDigits, if_neg (by simp [digits])] at parsed
      obtain ⟨fits, same⟩ := ite_none_right_eq_some.mp parsed
      rw [← Option.some.inj same, UInt32.toNat_ofNat_of_lt' fits]
      exact (decimal_ofDigitChars each (by simp) front).symm
  · rintro rfl
    have fits : value.toNat < Word.u32Values := value.toNat_lt
    have parsed := parseUnsigned_decimal fits
    unfold number
    split
    next empty => exact absurd empty (decimal_ne_nil _)
    next first rest spelt =>
      have digits := decimal_digits value.toNat
      rw [spelt] at digits
      have single : ¬(first = '0' ∧ rest ≠ []) := by
        rintro ⟨rfl, more⟩
        rw [decimal_leads (congrArg List.head? spelt)] at spelt
        injection spelt with _ alone
        exact more alone.symm
      rw [if_neg (not_not_intro (digits first mem_cons_self)), if_neg single, parsed,
        map_some, UInt32.ofNat_toNat]

/-- Three numbers between dots, and nothing else, are read as the version they spell. -/
theorem parse_eq_ok {refused : String → AxError} {version : Version} :
    parse text refused = .ok version ↔ text = version.display := by
  constructor
  · intro read
    simp only [parse] at read
    split at read
    next major minor patch first second third =>
      split at read
      next => cases read
      next ended =>
        cases read
        obtain ⟨one, at_one, one_read⟩ := bind_eq_some_iff.mp first
        obtain ⟨two, at_two, two_read⟩ := bind_eq_some_iff.mp second
        obtain ⟨three, at_three, three_read⟩ := bind_eq_some_iff.mp third
        have parts : text.splitOn '.' = [one, two, three] := by
          have short : (text.splitOn '.').length ≤ 3 := by
            simpa using ended
          match text.splitOn '.', short, at_one, at_two, at_three with
          | [_, _, _], _, rfl, rfl, rfl => rfl
        have joined : ['.'].intercalate (text.splitOn '.') = text := intercalate_splitOn '.'
        rw [← joined, parts, (number_eq_some).mp one_read,
          (number_eq_some).mp two_read, (number_eq_some).mp three_read]
        simp [display, Semver.core, List.intercalate]
    next => cases read
  · rintro rfl
    rw [parse, display, splitOn_core]
    have whole (value : UInt32) : number (decimal value.toNat) = some value := (number_eq_some).mpr rfl
    simp [whole]

end Version

namespace Release

variable {c : Char}

theorem toDigit_eq_some {digit : Fin 10} :
    toDigit c = some digit ↔ c = Nat.digitChar digit.val := by
  rw [toDigit]
  constructor
  · intro read
    split_ifs at read with digits
    cases read
    obtain ⟨value, low, rfl⟩ := digitChar_of_isDigit digits
    have place := Nat.toNat_digitChar_of_lt_ten low
    have same : value.digitChar.toNat - 48 = value := by omega
    exact (congrArg Nat.digitChar same).symm
  · rintro rfl
    have place := Nat.toNat_digitChar_of_lt_ten digit.isLt
    have digits : (Nat.digitChar digit.val).isDigit = true := by
      rw [Nat.isDigit_digitChar, decide_eq_true digit.isLt]
    rw [dif_pos digits]
    congr 1
    apply Fin.ext
    show (Nat.digitChar digit.val).toNat - 48 = digit.val
    omega

variable {text : List Char} {rest : List Char}

theorem pair_eq_some {value : Fin 100} :
    pair text = some (value, rest) ↔ text = zeroPadded 2 value.val ++ rest := by
  have written : zeroPadded 2 value.val =
      [Nat.digitChar (value.val / 10), Nat.digitChar (value.val % 10)] := by
    rw [zeroPadded_concat, zeroPadded_one (by omega)]
    rfl
  rw [written]
  constructor
  · intro read
    unfold pair at read
    split at read
    next tens ones rest' =>
      obtain ⟨ten, tens_read, read⟩ := bind_eq_some_iff.mp read
      obtain ⟨one, ones_read, read⟩ := bind_eq_some_iff.mp read
      cases read
      have upper : (ten.val * 10 + one.val) / 10 = ten.val := by omega
      have lower : (ten.val * 10 + one.val) % 10 = one.val := by omega
      rw [(toDigit_eq_some).mp tens_read, (toDigit_eq_some).mp ones_read]
      simp [upper, lower]
    next => cases read
  · rintro rfl
    have tens : toDigit (Nat.digitChar (value.val / 10)) = some ⟨value.val / 10, by omega⟩ :=
      (toDigit_eq_some).mpr rfl
    have ones : toDigit (Nat.digitChar (value.val % 10)) = some ⟨value.val % 10, by omega⟩ :=
      (toDigit_eq_some).mpr rfl
    have whole : value.val / 10 * 10 + value.val % 10 = value.val := by omega
    simp [pair, tens, ones, whole]

theorem pairs_eq_some {year month day : Fin 100} :
    pairs text = some (year, month, day, rest) ↔
      text = zeroPadded 2 year.val ++ (zeroPadded 2 month.val ++
        (zeroPadded 2 day.val ++ rest)) := by
  constructor
  · intro read
    obtain ⟨⟨one, others⟩, first, read⟩ := bind_eq_some_iff.mp read
    obtain ⟨⟨two, more⟩, second, read⟩ := bind_eq_some_iff.mp read
    obtain ⟨⟨three, last⟩, third, read⟩ := bind_eq_some_iff.mp read
    cases read
    rw [(pair_eq_some).mp first, (pair_eq_some).mp second, (pair_eq_some).mp third]
  · rintro rfl
    have off (value : Fin 100) (rest : List Char) :
        pair (zeroPadded 2 value.val ++ rest) = some (value, rest) := (pair_eq_some).mpr rfl
    simp [pairs, off]

variable {release : Release}

theorem assemble_eq_ok {version date subject : List Char} {action : String} :
    assemble version date subject action = .ok release ↔
      version = release.version.display ∧ date = release.date := by
  constructor
  · intro read
    obtain ⟨number, version_read, read⟩ := Outcome.bind_eq_ok.mp read
    split at read
    next => cases read
    next short month day digits fields =>
      split_ifs at read with ended days
      cases read
      rw [not_not] at ended
      subst ended
      refine ⟨(Version.parse_eq_ok).mp version_read, ?_⟩
      have years : century + short.val - century = short.val := Nat.add_sub_cancel_left ..
      rw [(pairs_eq_some).mp fields, append_nil, Release.date, Release.short, years, append_assoc]
  · rintro ⟨rfl, rfl⟩
    obtain ⟨version, year, month, day, inCentury, months, days⟩ := release
    have short : year - century < 100 := by
      unfold century
      omega
    have fields : pairs (Release.date ⟨version, year, month, day, inCentury, months, days⟩) =
        some (⟨year - century, short⟩, ⟨month, by omega⟩, ⟨day, by omega⟩, []) := by
      rw [pairs_eq_some, Release.date, Release.short, append_nil, append_assoc]
    have years : century + (year - century) = year := by
      unfold century
      omega
    have reads refused : Version.parse version.display refused = .ok version := (Version.parse_eq_ok).mpr rfl
    simp [assemble, reads, Outcome.bind_ok, fields, months, days, years]

theorem not_mem_display {version : Version} (undigit : c.isDigit = false) (undot : c ≠ '.') :
    c ∉ version.display := not_mem_core undigit undot

theorem splitOnceText_display (version : Version) (mark date : List Char) :
    splitOnceText ('-' :: mark) (version.display ++ '-' :: mark ++ date) =
      some (version.display, date) := by
  rw [append_assoc]
  exact splitOnceText_append (not_mem_display (by decide) (by decide)) date

variable {tag : List Char} {expected : List Char}

theorem decodeTag_eq_ok {maturity : Maturity} :
    decodeTag tag expected maturity = .ok release ↔
      tag = release.tagAt maturity ∧ expected = release.version.display := by
  constructor
  · intro read
    simp only [decodeTag] at read
    split at read
    next body =>
      split at read
      next version date cut =>
        split_ifs at read with other
        rw [not_not] at other
        obtain ⟨spelt, dated⟩ := (assemble_eq_ok).mp read
        rw [append_of_splitOnceText cut, ← other, tagAt, spelt, dated, append_assoc]
        exact ⟨rfl, rfl⟩
      next => cases read
    next => cases read
  · rintro ⟨rfl, rfl⟩
    have cut := splitOnceText_display release.version (maturity.titled ++ ['-']) release.date
    simp only [decodeTag, tagAt, Maturity.tagInfix, cut, ne_eq, not_true_eq_false, if_false]
    exact (assemble_eq_ok).mpr ⟨rfl, rfl⟩

theorem fromTag_eq_ok :
    fromTag tag expected = .ok release ↔ tag = release.tag ∧ expected = release.version.display :=
  decodeTag_eq_ok

theorem fromNpmVersion_eq_ok : fromNpmVersion text = .ok release ↔ text = release.npmVersion := by
  constructor
  · intro read
    simp only [fromNpmVersion] at read
    split at read
    next version date cut =>
      obtain ⟨spelt, dated⟩ := (assemble_eq_ok).mp read
      rw [append_of_splitOnceText cut, npmVersion, spelt, dated, append_assoc]
    next => cases read
  · rintro rfl
    have cut := splitOnceText_display release.version "pre.".toList release.date
    rw [show '-' :: "pre.".toList = npmInfix from rfl] at cut
    simp only [fromNpmVersion, npmVersion, cut]
    exact (assemble_eq_ok).mpr ⟨rfl, rfl⟩

theorem not_mem_date (undigit : c.isDigit = false) : c ∉ release.date := by
  intro member
  have digit : c.isDigit = true := by
    rw [date, mem_append, mem_append] at member
    exact member.elim (·.elim isDigit_of_mem_zeroPadded isDigit_of_mem_zeroPadded)
      isDigit_of_mem_zeroPadded
  rw [digit] at undigit
  cases undigit

theorem taggedVersion_tagAt (release : Release) (maturity other : Maturity) :
    taggedVersion (release.tagAt maturity) other =
      if other = maturity then some release.version.display else none := by
  by_cases same : other = maturity
  · subst same
    have cut := splitOnceText_display release.version (other.titled ++ ['-']) release.date
    simp only [taggedVersion, tagAt, Maturity.tagInfix, cut, map_some, if_true]
  · -- each maturity's mark has a capital that the other's has not
    obtain ⟨c, undigit, undot, marked, unmarked⟩ : ∃ c : Char, c.isDigit = false ∧ c ≠ '.' ∧
        c ∈ other.tagInfix ∧ c ∉ maturity.tagInfix := by
      cases other with
      | alpha =>
        cases maturity with
        | alpha => exact absurd rfl same
        | preAlpha => exact ⟨'A', by decide, by decide, by decide, by decide⟩
      | preAlpha =>
        cases maturity with
        | alpha => exact ⟨'P', by decide, by decide, by decide, by decide⟩
        | preAlpha => exact absurd rfl same
    have clean : c ∉ release.version.display ++ maturity.tagInfix ++ release.date := by
      rw [mem_append, mem_append]
      exact not_or_intro (not_or_intro (not_mem_display undigit undot) unmarked) (not_mem_date undigit)
    rw [if_neg same]
    exact congrArg (Option.map Prod.fst) (splitOnceText_eq_none marked clean)

theorem fromPublishedTag_eq_ok :
    fromPublishedTag tag = .ok release ↔ ∃ maturity, tag = release.tagAt maturity := by
  constructor
  · intro read
    rw [fromPublishedTag] at read
    cases decoded : [Maturity.alpha, Maturity.preAlpha].findSome? fun maturity =>
        (taggedVersion tag maturity).map fun version => decodeTag tag version maturity with
    | none =>
      rw [decoded] at read
      cases read
    | some outcome =>
      rw [decoded, getD_some] at read
      obtain ⟨maturity, -, found⟩ := exists_of_findSome?_eq_some decoded
      obtain ⟨version, -, rfl⟩ := map_eq_some_iff.mp found
      exact ⟨maturity, (decodeTag_eq_ok.mp read).1⟩
  · rintro ⟨maturity, rfl⟩
    have decoded : decodeTag (release.tagAt maturity) release.version.display maturity = .ok release :=
      (decodeTag_eq_ok).mpr ⟨rfl, rfl⟩
    rw [fromPublishedTag]
    cases maturity with
    | alpha => simp [taggedVersion_tagAt, decoded]
    | preAlpha => simp [taggedVersion_tagAt, decoded]

/-! ### Order -/

theorem ofDigitChars_date (release : Release) : Nat.ofDigitChars 10 release.date 0 =
    (release.short * 100 + release.month) * 100 + release.day := by
  have months := release.months
  have days := release.days
  rw [date, Nat.ofDigitChars_append, Nat.ofDigitChars_append, ofDigitChars_zeroPadded,
    Nat.ofDigitChars_eq_ofDigitChars_zero, ofDigitChars_zeroPadded,
    Nat.ofDigitChars_eq_ofDigitChars_zero, ofDigitChars_zeroPadded,
    length_zeroPadded (by decide) (by omega), length_zeroPadded (by decide) (by omega)]
  omega

theorem read_npmVersion (release : Release) : Semver.read release.npmVersion =
    some ⟨release.version.major.toNat, release.version.minor.toNat, release.version.patch.toNat,
      some [.word "pre".toList, .numeric ((release.short * 100 + release.month) * 100 + release.day)]⟩ := by
  have spelt : release.npmVersion = release.version.display ++ '-' :: ("pre".toList ++ '.' :: release.date) := by
    rw [npmVersion, append_assoc]
    rfl
  have plain : '+' ∉ "pre".toList ++ '.' :: release.date := by
    rw [mem_append, mem_cons]
    exact not_or_intro (by decide) (not_or_intro (by decide) (not_mem_date (by decide)))
  have parts : ("pre".toList ++ '.' :: release.date).splitOn '.' = ["pre".toList, release.date] := by
    rw [splitOn_append_cons_self, splitOn_eq_singleton (show '.' ∉ "pre".toList by decide),
      splitOn_eq_singleton (show '.' ∉ release.date from not_mem_date (by decide))]
    rfl
  have word : Semver.Identifier.read "pre".toList = .word "pre".toList := by decide
  have number : Semver.Identifier.read release.date =
      .numeric ((release.short * 100 + release.month) * 100 + release.day) := by
    have digits : release.date.all Char.isDigit = true :=
      all_eq_true.mpr fun c member => by
        by_contra other
        exact not_mem_date (Bool.eq_false_iff.mpr other) member
    have some_digit : release.date ≠ [] := by
      intro empty
      have value := ofDigitChars_date release
      have days := release.days
      rw [empty, Nat.ofDigitChars_nil] at value
      omega
    rw [Semver.Identifier.read, if_pos ⟨some_digit, digits⟩, ofDigitChars_date]
  rw [spelt, Version.display, read_prerelease plain, parts, map_cons, map_singleton, word, number]

theorem compare_short (first second : Release) :
    compare first.short second.short = compare first.year second.year := by
  have one := first.inCentury
  have two := second.inCentury
  rw [short, short, century]
  rcases Nat.lt_trichotomy first.year second.year with below | same | above
  · rw [Nat.compare_eq_lt.mpr below, Nat.compare_eq_lt.mpr (by omega)]
  · rw [Nat.compare_eq_eq.mpr same, Nat.compare_eq_eq.mpr (by omega)]
  · rw [Nat.compare_eq_gt.mpr above, Nat.compare_eq_gt.mpr (by omega)]

theorem precedence_npmVersion (first second : Release) :
    precedence first.npmVersion second.npmVersion = some (first.order second) := by
  have months := first.months
  have months' := second.months
  have days := first.days
  have days' := second.days
  have words : compare "pre".toList "pre".toList = .eq := by decide
  have numbers : compare ((first.short * 100 + first.month) * 100 + first.day)
      ((second.short * 100 + second.month) * 100 + second.day) =
        (compare first.year second.year).then ((compare first.month second.month).then
          (compare first.day second.day)) := by
    rw [compare_mul_add (by omega) (by omega), compare_mul_add (by omega) (by omega),
      compare_short, Ordering.then_assoc]
  rw [precedence, read_npmVersion, read_npmVersion]
  simp only [bind_eq_bind, bind_some, Option.pure_def, Semver.Parts.order,
    Semver.Identifier.orderAll, Semver.Identifier.order, words, numbers, Ordering.then_eq]
  rw [order, Version.order, Ordering.then_assoc, Ordering.then_assoc]
  rfl

theorem precedence_display (first second : Version) :
    precedence first.display second.display = some (first.order second) := by
  rw [precedence, Version.display, Version.display, read_core, read_core]
  simp only [bind_eq_bind, bind_some, Option.pure_def, Semver.Parts.order,
    Ordering.then_eq, Version.order]

theorem order_ne_eq {first second : Version} (other : first ≠ second) : first.order second ≠ .eq := by
  intro same
  rw [Version.order, Ordering.then_eq_eq, Ordering.then_eq_eq] at same
  obtain ⟨major, minor, patch⟩ := same
  refine other ?_
  cases first
  cases second
  rw [Version.mk.injEq]
  exact ⟨UInt32.toNat.inj (Nat.compare_eq_eq.mp major), UInt32.toNat.inj (Nat.compare_eq_eq.mp minor),
    UInt32.toNat.inj (Nat.compare_eq_eq.mp patch)⟩

theorem order_of_version_ne {first second : Release} (other : first.version ≠ second.version) :
    first.order second = first.version.order second.version := by
  rw [order]
  cases decided : first.version.order second.version with
  | eq => exact absurd decided (order_ne_eq other)
  | lt | gt => rfl

/-! ### One spelling, one order -/

/-- The calendar has the release's day. -/
def Real (release : Release) : Prop :=
  Calendar.Date.Valid ((release.year : Int), (release.month : Int), (release.day : Int))

/-- Six digits that name one of the days up to the thirty-first of a month that is shorter. -/
def PastMonth (date : List Char) : Prop :=
  ∃ short month day : Nat, short < 100 ∧ 1 ≤ month ∧ month ≤ 12 ∧
    Calendar.monthLength (2000 + short : Nat) month < day ∧ day ≤ 31 ∧
    date = zeroPadded 2 short ++ zeroPadded 2 month ++ zeroPadded 2 day

theorem pastMonth_iff {date : List Char} (version : Version) :
    PastMonth date ↔ ∃ release : Release, ¬release.Real ∧ release.version = version ∧ date = release.date := by
  constructor
  · rintro ⟨short, month, day, low, first, last, past, days, rfl⟩
    have positive := Calendar.Date.one_le_monthLength (2000 + short : Nat) month
    refine ⟨⟨version, 2000 + short, month, day, by omega, ⟨first, last⟩, by omega⟩, ?_, rfl, ?_⟩
    · intro real
      have fits := real.day.2
      simp only at fits
      omega
    · rw [Release.date, Release.short]
      simp only [century, Nat.add_sub_cancel_left]
  · rintro ⟨release, unreal, -, rfl⟩
    have years := release.inCentury
    have months := release.months
    have days := release.days
    have back : 2000 + release.short = release.year := by
      unfold short century
      omega
    refine ⟨release.short, release.month, release.day, by omega, months.1, months.2, ?_, days.2, rfl⟩
    rw [back]
    by_contra fits
    exact unreal ⟨by simp only; omega, by simp only; omega⟩

theorem unreal_iff {spells : Version → List Char → Prop} :
    (∃ release : Release, ¬release.Real ∧ spells release.version release.date) ↔
      ∃ version date, PastMonth date ∧ spells version date := by
  constructor
  · rintro ⟨release, unreal, spelt⟩
    exact ⟨_, _, (pastMonth_iff release.version).mpr ⟨release, unreal, rfl, rfl⟩, spelt⟩
  · rintro ⟨version, date, past, spelt⟩
    obtain ⟨release, unreal, rfl, rfl⟩ := (pastMonth_iff version).mp past
    exact ⟨release, unreal, spelt⟩

theorem reads_real_iff {outcome : Except AxError Release} {spells : Release → Prop}
    (reads : ∀ release, outcome = .ok release ↔ spells release) :
    (∀ release, outcome = .ok release → release.Real ∧ spells release) ↔
      ¬∃ release : Release, ¬release.Real ∧ spells release := by
  constructor
  · rintro real ⟨release, unreal, spelt⟩
    exact unreal (real release ((reads release).mpr spelt)).1
  · intro none_unreal release read
    have spelt := (reads release).mp read
    exact ⟨not_not.mp fun unreal => none_unreal ⟨release, unreal, spelt⟩, spelt⟩

/-- Every spelling of a release is read back. A text that is read is the spelling of a release on a day
of the calendar exactly when it names no day past the end of its month. The order of releases is that
of their npm versions and, where versions differ, of the versions crates.io carries. -/
theorem one_spelling (spelt first second : Release) (tag expected text : List Char) :
    (fromTag spelt.tag spelt.version.display = .ok spelt ∧
      (∀ maturity, fromPublishedTag (spelt.tagAt maturity) = .ok spelt) ∧
      fromNpmVersion spelt.npmVersion = .ok spelt) ∧
    ((∀ release, fromPublishedTag tag = .ok release →
        release.Real ∧ ∃ maturity, tag = release.tagAt maturity) ↔
      ¬∃ (version : Version) (date : List Char), PastMonth date ∧ ∃ maturity : Maturity,
        tag = 'v' :: (version.display ++ maturity.tagInfix ++ date)) ∧
    ((∀ release, fromTag tag expected = .ok release →
        release.Real ∧ tag = release.tag ∧ expected = release.version.display) ↔
      ¬∃ (version : Version) (date : List Char), PastMonth date ∧
        tag = 'v' :: (version.display ++ Maturity.current.tagInfix ++ date) ∧ expected = version.display) ∧
    ((∀ release, fromNpmVersion text = .ok release → release.Real ∧ text = release.npmVersion) ↔
      ¬∃ (version : Version) (date : List Char), PastMonth date ∧ text = version.display ++ npmInfix ++ date) ∧
    precedence first.npmVersion second.npmVersion = some (first.order second) ∧
    (first.version ≠ second.version →
      precedence first.version.display second.version.display = some (first.order second) ∧
      ∃ newest, Version.fromCratesVersion second.version.display = .ok newest ∧
        standsOnCrates first newest = stands first second) := by
  refine ⟨⟨decodeTag_eq_ok.mpr ⟨rfl, rfl⟩, fun maturity => ?_, ?_⟩, ?_, ?_, ?_,
    precedence_npmVersion first second,
    fun other => ⟨?_, second.version, Version.parse_eq_ok.mpr rfl, ?_⟩⟩
  · exact (fromPublishedTag_eq_ok).mpr ⟨maturity, rfl⟩
  · exact fromNpmVersion_eq_ok.mpr rfl
  · rw [reads_real_iff fun release => fromPublishedTag_eq_ok]
    exact not_congr (@unreal_iff (fun (version : Version) date => ∃ maturity : Maturity,
      tag = 'v' :: (version.display ++ maturity.tagInfix ++ date)))
  · rw [reads_real_iff fun release => fromTag_eq_ok]
    exact not_congr (@unreal_iff (fun (version : Version) date =>
      tag = 'v' :: (version.display ++ Maturity.current.tagInfix ++ date) ∧ expected = version.display))
  · rw [reads_real_iff fun release => fromNpmVersion_eq_ok]
    exact not_congr (@unreal_iff (fun (version : Version) date => text = version.display ++ npmInfix ++ date))
  · rw [precedence_display, order_of_version_ne other]
  · rw [standsOnCrates, standsOnVersions, stands, order_of_version_ne other]

/-- The thirty-first of February is read. -/
theorem not_one_spelling :
    ¬∀ tag release, fromPublishedTag tag = .ok release → release.Real := by
  intro real
  let release : Release := ⟨⟨0, 0, 5⟩, 2026, 2, 31, by decide, by decide, by decide⟩
  have days := (real _ release (fromPublishedTag_eq_ok.mpr ⟨.alpha, rfl⟩)).day
  exact absurd days.2 (by decide)

end Release

end Sprawling
