import Mathlib.Tactic.Zify
import Sprawling.Base.Calendar
import Sprawling.Base.Numeral
import Sprawling.Kernel.Event

/-! The one spelling of a moment: ISO 8601, UTC, to the second. A moment is a count of milliseconds
since 1970 that fits 64 bits; the arithmetic over it is on 128 bits and stays far inside them. -/

namespace Sprawling

open List Numeral Calendar

namespace Clock

open Calendar (Date)

/-- Civil date from days since 1970-01-01. The source's `/` truncates and its `div_euclid` floors. -/
def civilFromDays (days : Int) : Date :=
  let z := days + 719468
  let era := (if z ≥ 0 then z else z - 146096) / 146097
  let doe := z - era * 146097
  let yoe := (doe - doe.tdiv 1460 + doe.tdiv 36524 - doe.tdiv 146096).tdiv 365
  let y := yoe + era * 400
  let doy := doe - (365 * yoe + yoe.tdiv 4 - yoe.tdiv 100)
  let mp := (5 * doy + 2).tdiv 153
  let d := doy - (153 * mp + 2).tdiv 5 + 1
  let m := if mp < 10 then mp + 3 else mp - 9
  let year := if m ≤ 2 then y + 1 else y
  (year, m, d)

/-- A number written in `width` characters at least, the sign counted and zeros put after it. -/
def padded (width : Nat) (value : Int) : List Char :=
  if value < 0 then '-' :: zeroPadded (width - 1) value.natAbs
  else zeroPadded width value.natAbs

def offsetSuffix (offsetMin : Int) : List Char :=
  if offsetMin = 0 then ['Z']
  else
    let sign := if offsetMin < 0 then '-' else '+'
    let whole := offsetMin.natAbs
    sign :: (padded 2 (whole / 60 : Nat) ++ ':' :: padded 2 (whole % 60 : Nat))

/-- The six numbers of a civil moment. -/
structure Civil where
  year : Int
  month : Int
  day : Int
  hour : Int
  minute : Int
  second : Int

namespace Civil

def date (civil : Civil) : Date := (civil.year, civil.month, civil.day)

/-- `YYYY-MM-DDTHH:MM:SS`. -/
def text (civil : Civil) : List Char :=
  padded 4 civil.year ++ '-' :: padded 2 civil.month ++ '-' :: padded 2 civil.day
    ++ 'T' :: padded 2 civil.hour ++ ':' :: padded 2 civil.minute ++ ':' :: padded 2 civil.second

end Civil

/-- The civil moment of a second since 1970. -/
def civilOfSeconds (seconds : Int) : Civil :=
  let date := civilFromDays (seconds / 86400)
  let secondOfDay := seconds % 86400
  { year := date.1
    month := date.2.1
    day := date.2.2
    hour := secondOfDay.tdiv 3600
    minute := (secondOfDay.tmod 3600).tdiv 60
    second := secondOfDay.tmod 60 }

/-- `moment` in the zone `offsetMin` minutes east of UTC, to the second. -/
def formatAt (moment : Nat) (offsetMin : Int) : List Char :=
  let shifted := (moment : Int) + offsetMin * 60000
  (civilOfSeconds (shifted / 1000)).text ++ offsetSuffix offsetMin

def iso (moment : Nat) : List Char := formatAt moment 0

def isoSeparators : List (Nat × UInt8) := [(4, 45), (7, 45), (10, 84), (13, 58), (16, 58), (19, 90)]

def isoFields : List (Nat × Nat) := [(0, 4), (5, 7), (8, 10), (11, 13), (14, 16), (17, 19)]

/-- The six numbers, when `bytes` is exactly `YYYY-MM-DDTHH:MM:SSZ` with ASCII digits. -/
def civilFields (bytes : List UInt8) : Option Civil :=
  let shaped := bytes.length == 20 &&
    isoSeparators.all fun (position, separator) => bytes[position]? == some separator
  if !shaped then none
  else
    let numbers : List (Option Nat) :=
      isoFields.map fun (start, stop) => valueOf ((bytes.take stop).drop start)
    match numbers with
    | [some year, some month, some day, some hour, some minute, some second] =>
      some { year, month, day, hour, minute, second }
    | _ => none

/-- Days since 1970-01-01 of a date. -/
def daysFromCivil (year month day : Int) : Int :=
  let y := if month ≤ 2 then year - 1 else year
  let era := y / 400
  let yoe := y - era * 400
  let mp := if month > 2 then month - 3 else month + 9
  let doy := (153 * mp + 2).tdiv 5 + day - 1
  era * 146097 + yoe * 365 + yoe.tdiv 4 - yoe.tdiv 100 + doy - 719468

/-- Milliseconds since 1970 of a civil moment, when the calendar has that day and the clock that
second. -/
def millisOf (civil : Civil) : Option Int :=
  if !(1 ≤ civil.month && civil.month ≤ 12) || civil.hour > 23 || civil.minute > 59
      || civil.second > 59 then none
  else
    let days := daysFromCivil civil.year civil.month civil.day
    if civilFromDays days = civil.date then
      some ((days * 86400 + civil.hour * 3600 + civil.minute * 60 + civil.second) * 1000)
    else none

def refused (raw : List Char) : AxError :=
  AxError.failure .invalidArgs "read a UTC moment" (String.ofList raw)
    ("write the moment in UTC to the second, ending in Z, the way a clock line does: "
      ++ "2026-05-14T09:31:07Z; turn a local time or an offset into UTC first")

/-- The moment `raw` spells in the one shape `iso` writes. -/
def parseIso (raw : List Char) : Except AxError Nat :=
  match (civilFields (Utf8.encode raw)).bind millisOf with
  | none => .error (refused raw)
  | some millis => if 0 ≤ millis ∧ millis < 2 ^ 64 then .ok millis.toNat else .error (refused raw)

theorem exists_cycles {doe : Int} (low : 0 ≤ doe) (high : doe < 146097) :
    ∃ c q a t : Int, doe = 36524 * c + 1461 * q + 365 * a + t ∧ (0 ≤ c ∧ c ≤ 3) ∧ (0 ≤ q ∧ q ≤ 24) ∧
      (0 ≤ a ∧ a ≤ 3) ∧ (0 ≤ t ∧ t ≤ 365) ∧ (t = 365 → a = 3 ∧ (q = 24 → c = 3)) := by
  obtain ⟨c, r, century⟩ : ∃ c r : Int, doe = 36524 * c + r ∧ 0 ≤ c ∧ c ≤ 3 ∧ 0 ≤ r ∧ r ≤ 36524 ∧
      (r = 36524 → c = 3) := by
    refine ⟨min (doe / 36524) 3, doe - 36524 * min (doe / 36524) 3, ?_⟩
    omega
  obtain ⟨q, s, cycle⟩ : ∃ q s : Int, r = 1461 * q + s ∧ 0 ≤ q ∧ q ≤ 24 ∧ 0 ≤ s ∧ s ≤ 1460 ∧
      (s = 1460 → q = 24 → c = 3) := by
    refine ⟨r / 1461, r % 1461, ?_⟩
    omega
  refine ⟨c, q, min (s / 365) 3, s - 365 * min (s / 365) 3, ?_⟩
  omega

theorem carry_bounds {c q a t : Int} (century : 0 ≤ c ∧ c ≤ 3) (cycle : 0 ≤ q ∧ q ≤ 24)
    (year : 0 ≤ a ∧ a ≤ 3) (day : 0 ≤ t ∧ t ≤ 365) (leap : t = 365 → a = 3) :
    0 ≤ t - (24 * c + q + 365 * a + t) / 1460 ∧ t - (24 * c + q + 365 * a + t) / 1460 < 365 := by
  omega

theorem centuries_of_era {c r : Int} (century : 0 ≤ c ∧ c ≤ 3) (rest : 0 ≤ r ∧ r ≤ 36524)
    (closing : r = 36524 → c = 3) :
    (36524 * c + r) / 36524 - (36524 * c + r) / 146096 = c := by
  have four : c = 0 ∨ c = 1 ∨ c = 2 ∨ c = 3 := by omega
  rcases four with rfl | rfl | rfl | rfl <;> omega

theorem year_of_era {doe : Int} (low : 0 ≤ doe) (high : doe < 146097) :
    ∃ yoe doy : Int, (doe - doe / 1460 + doe / 36524 - doe / 146096) / 365 = yoe ∧
      (0 ≤ yoe ∧ yoe ≤ 399) ∧ doe = 365 * yoe + yoe / 4 - yoe / 100 + doy ∧ (0 ≤ doy ∧ doy ≤ 365) ∧
      (doy = 365 → yoe % 4 = 3 ∧ (yoe % 100 = 99 → yoe = 399)) := by
  obtain ⟨c, q, a, t, parts, century, cycle, year, day, leap⟩ := exists_cycles low high
  have quarters : (100 * c + 4 * q + a) / 4 = 25 * c + q := by omega
  have hundreds : (100 * c + 4 * q + a) / 100 = c := by omega
  have spare := carry_bounds century cycle year day fun final => (leap final).1
  have centuries : doe / 36524 - doe / 146096 = c := by
    have whole : doe = 36524 * c + (1461 * q + 365 * a + t) := by omega
    have bound : 1461 * q + 365 * a + t ≤ 36524 := by omega
    rw [whole]
    exact centuries_of_era century ⟨by omega, bound⟩ (by omega)
  have cycles : doe / 1460 = 25 * c + q + (24 * c + q + 365 * a + t) / 1460 := by
    clear * - parts
    omega
  have long : t = 365 → (100 * c + 4 * q + a) % 4 = 3 ∧
      ((100 * c + 4 * q + a) % 100 = 99 → 100 * c + 4 * q + a = 399) := by
    intro final
    obtain ⟨closing, ofEra⟩ := leap final
    clear * - closing ofEra cycle century
    omega
  have split : doe = 365 * (100 * c + 4 * q + a) + (100 * c + 4 * q + a) / 4
      - (100 * c + 4 * q + a) / 100 + t := by
    rw [quarters, hundreds, parts]
    clear * -
    omega
  refine ⟨100 * c + 4 * q + a, t, ?_, ?_, split, day, long⟩
  swap
  · clear * - century cycle year
    omega
  have numerator : doe - doe / 1460 + doe / 36524 - doe / 146096 =
      365 * (100 * c + 4 * q + a) + (t - (24 * c + q + 365 * a + t) / 1460) := by
    rw [cycles]
    clear * - parts centuries
    omega
  rw [numerator]
  clear * - spare
  omega

theorem month_of_year {doy : Int} (low : 0 ≤ doy) (high : doy ≤ 365) :
    ∃ mp : Int, (5 * doy + 2) / 153 = mp ∧ (0 ≤ mp ∧ mp ≤ 11) ∧ (153 * mp + 2) / 5 ≤ doy ∧
      (mp < 11 → doy < (153 * (mp + 1) + 2) / 5) := by
  refine ⟨(5 * doy + 2) / 153, rfl, ?_⟩
  omega

/-- A date from its year from March, its month from March and its day. -/
def fromMarch (y mp d : Int) : Date :=
  let m := if mp < 10 then mp + 3 else mp - 9
  (if m ≤ 2 then y + 1 else y, m, d)

variable {mp : Int}

theorem marchYear_fromMarch (y d : Int) (month : 0 ≤ mp ∧ mp ≤ 11) :
    (fromMarch y mp d).marchYear = y := by
  simp only [fromMarch, Date.marchYear]
  split <;> split <;> omega

theorem marchMonth_fromMarch (y d : Int) (month : 0 ≤ mp ∧ mp ≤ 11) :
    (fromMarch y mp d).marchMonth = mp := by
  simp only [fromMarch, Date.marchMonth]
  split <;> split <;> omega

theorem number_fromMarch (y d : Int) (month : 0 ≤ mp ∧ mp ≤ 11) :
    (fromMarch y mp d).number = yearStart y + ((153 * mp + 2) / 5 + d - 1) := by
  rw [Date.number, Date.marchDay, marchYear_fromMarch y d month, marchMonth_fromMarch y d month]
  rfl

theorem valid_fromMarch {y mp d : Int} (month : 0 ≤ mp ∧ mp ≤ 11) (day : 1 ≤ d)
    (inner : mp < 11 → (153 * mp + 2) / 5 + d - 1 < (153 * (mp + 1) + 2) / 5)
    (last : mp = 11 → d ≤ 28 ∨ d = 29 ∧ isLeap (y + 1) = true) :
    (fromMarch y mp d).Valid := by
  have months : 1 ≤ (fromMarch y mp d).2.1 ∧ (fromMarch y mp d).2.1 ≤ 12 := by
    simp only [fromMarch]
    split <;> omega
  refine ⟨months, day, ?_⟩
  have march := marchMonth_fromMarch y d month
  by_cases february : mp = 11
  · subst february
    have ending := last rfl
    simp only [fromMarch, monthLength] at ending ⊢
    simp only [Int.reduceLT, if_false, Int.reduceSub, le_refl, if_true]
    rcases ending with short | ⟨long, leap⟩
    · split <;> omega
    · rw [if_pos leap, long]
  · have other : (fromMarch y mp d).2.1 ≠ 2 := by
      simp only [fromMarch]
      split <;> omega
    have stop := @Date.marchDay_month_end (fromMarch y mp d).1 _ months other
    simp only [Date.marchDay] at stop
    change (153 * Date.marchMonth (fromMarch y mp d) + 2) / 5 +
      monthLength (fromMarch y mp d).1 (fromMarch y mp d).2.1 - 1 + 1 =
      (153 * (Date.marchMonth (fromMarch y mp d) + 1) + 2) / 5 at stop
    rw [march] at stop
    have within := inner (by omega)
    change d ≤ _
    omega

theorem civilFromDays_spec {days : Int} (late : 0 ≤ days + 719468) :
    (civilFromDays days).Valid ∧ (civilFromDays days).number = days + 719468 := by
  obtain ⟨era, doe, whole, low, high⟩ : ∃ era doe : Int, days + 719468 = 146097 * era + doe ∧
      0 ≤ doe ∧ doe < 146097 := ⟨(days + 719468) / 146097, (days + 719468) % 146097, by omega⟩
  have first : (if days + 719468 ≥ 0 then days + 719468 else days + 719468 - 146096) / 146097 = era := by
    rw [if_pos late]
    omega
  have rest : days + 719468 - era * 146097 = doe := by omega
  obtain ⟨yoe, doy, years, ofEra, day, ofYear, leap⟩ := year_of_era low high
  obtain ⟨mp, months, ofMonths, started, ended⟩ := month_of_year ofYear.1 ofYear.2
  have made : civilFromDays days = fromMarch (yoe + era * 400) mp (doy - (153 * mp + 2) / 5 + 1) := by
    have some_days : 0 ≤ doe - doe / 1460 + doe / 36524 - doe / 146096 := by omega
    have same : doe - (365 * yoe + yoe / 4 - yoe / 100) = doy := by omega
    simp only [civilFromDays, first, rest]
    rw [Int.tdiv_eq_ediv_of_nonneg low, Int.tdiv_eq_ediv_of_nonneg low, Int.tdiv_eq_ediv_of_nonneg low,
      Int.tdiv_eq_ediv_of_nonneg some_days, years, Int.tdiv_eq_ediv_of_nonneg ofEra.1,
      Int.tdiv_eq_ediv_of_nonneg ofEra.1, same,
      Int.tdiv_eq_ediv_of_nonneg (show 0 ≤ 5 * doy + 2 by omega), months,
      Int.tdiv_eq_ediv_of_nonneg (show 0 ≤ 153 * mp + 2 by omega)]
    rfl
  rw [made]
  constructor
  · refine valid_fromMarch ofMonths (by omega) (by omega) fun february => ?_
    have leapDay : doy = 365 → isLeap (yoe + era * 400 + 1) = true := by
      intro final
      have known := leap final
      clear * - known
      simp only [isLeap, Bool.and_eq_true, Bool.or_eq_true, decide_eq_true_eq]
      omega
    by_cases final : doy = 365
    · exact Or.inr ⟨by omega, leapDay final⟩
    · exact Or.inl (by omega)
  · have start : yearStart (yoe + era * 400) =
        146097 * era + (365 * yoe + yoe / 4 - yoe / 100) := by
      have known := ofEra
      clear * - known
      simp only [yearStart]
      omega
    rw [number_fromMarch _ _ ofMonths, start]
    omega

namespace Civil

/-- The calendar has the day and the clock the second. -/
structure Real (civil : Civil) : Prop where
  date : civil.date.Valid
  hour : 0 ≤ civil.hour ∧ civil.hour ≤ 23
  minute : 0 ≤ civil.minute ∧ civil.minute ≤ 59
  second : 0 ≤ civil.second ∧ civil.second ≤ 59

def secondOfDay (civil : Civil) : Int := civil.hour * 3600 + civil.minute * 60 + civil.second

def seconds (civil : Civil) : Int := (civil.date.number - 719468) * 86400 + civil.secondOfDay

theorem Real.secondOfDay_bounds {civil : Civil} (real : civil.Real) :
    0 ≤ civil.secondOfDay ∧ civil.secondOfDay < 86400 := by
  have hour := real.hour
  have minute := real.minute
  have second := real.second
  simp only [secondOfDay]
  omega

end Civil

theorem daysFromCivil_eq {year month : Int} (day : Int) (real : 1 ≤ month ∧ month ≤ 12) :
    daysFromCivil year month day = Date.number (year, month, day) - 719468 := by
  have some_month : 0 ≤ 153 * (if month > 2 then month - 3 else month + 9) + 2 := by
    split <;> omega
  simp only [daysFromCivil, Date.number, Date.marchDay, Date.marchMonth, Date.marchYear]
  generalize (if month ≤ 2 then year - 1 else year) = y
  rw [Int.tdiv_eq_ediv_of_nonneg (show 0 ≤ y - y / 400 * 400 by omega),
    Int.tdiv_eq_ediv_of_nonneg (show 0 ≤ y - y / 400 * 400 by omega),
    Int.tdiv_eq_ediv_of_nonneg some_month, yearStart]
  clear some_month
  generalize (153 * (if month > 2 then month - 3 else month + 9) + 2) / 5 = start
  omega

variable {civil : Civil}

theorem millisOf_eq_some {millis : Int} :
    millisOf civil = some millis ↔
      ((1 ≤ civil.month ∧ civil.month ≤ 12) ∧ civil.hour ≤ 23 ∧ civil.minute ≤ 59 ∧ civil.second ≤ 59) ∧
        civilFromDays (civil.date.number - 719468) = civil.date ∧ millis = civil.seconds * 1000 := by
  unfold millisOf
  split
  · next wrong =>
      constructor
      · intro none_left
        cases none_left
      · rintro ⟨⟨month, hour, minute, second⟩, _, _⟩
        simp only [Bool.or_eq_true, Bool.not_eq_true', Bool.and_eq_false_iff, decide_eq_false_iff_not,
          decide_eq_true_eq] at wrong
        omega
  · next right =>
      simp only [Bool.or_eq_true, Bool.not_eq_true', Bool.and_eq_false_iff, decide_eq_false_iff_not,
        decide_eq_true_eq] at right
      have month : 1 ≤ civil.month ∧ civil.month ≤ 12 := by omega
      have seconds : (civil.date.number - 719468) * 86400 + civil.hour * 3600 + civil.minute * 60
          + civil.second = civil.seconds := by
        simp only [Civil.seconds, Civil.secondOfDay]
        omega
      have clock : civil.hour ≤ 23 ∧ civil.minute ≤ 59 ∧ civil.second ≤ 59 := by omega
      simp only
      rw [daysFromCivil_eq civil.day month]
      change (if civilFromDays (civil.date.number - 719468) = civil.date then
        some (((civil.date.number - 719468) * 86400 + civil.hour * 3600 + civil.minute * 60
          + civil.second) * 1000) else none) = some millis ↔ _
      rw [seconds, Option.ite_none_right_eq_some, Option.some.injEq]
      exact ⟨fun found => ⟨⟨month, clock⟩, found.1, found.2.symm⟩, fun found => ⟨found.2.1, found.2.2.symm⟩⟩

variable {seconds : Int}

theorem real_civilOfSeconds (since : 0 ≤ seconds) : (civilOfSeconds seconds).Real := by
  have within := Int.emod_nonneg seconds (show (86400 : Int) ≠ 0 by decide)
  have bound := Int.emod_lt_of_pos seconds (show (0 : Int) < 86400 by decide)
  refine ⟨(civilFromDays_spec (by omega)).1, ?_, ?_, ?_⟩ <;> simp only [civilOfSeconds]
  · rw [Int.tdiv_eq_ediv_of_nonneg within]
    omega
  · rw [Int.tmod_eq_emod_of_nonneg within,
      Int.tdiv_eq_ediv_of_nonneg (Int.emod_nonneg _ (by decide))]
    omega
  · rw [Int.tmod_eq_emod_of_nonneg within]
    omega

theorem seconds_civilOfSeconds (since : 0 ≤ seconds) :
    (civilOfSeconds seconds).seconds = seconds := by
  have within := Int.emod_nonneg seconds (show (86400 : Int) ≠ 0 by decide)
  have day := (@civilFromDays_spec (seconds / 86400) (by omega)).2
  have same : (civilOfSeconds seconds).date = civilFromDays (seconds / 86400) := rfl
  rw [Civil.seconds, same, day]
  simp only [Civil.secondOfDay, civilOfSeconds]
  rw [Int.tdiv_eq_ediv_of_nonneg within, Int.tmod_eq_emod_of_nonneg within,
    Int.tmod_eq_emod_of_nonneg within, Int.tdiv_eq_ediv_of_nonneg (Int.emod_nonneg _ (by decide))]
  omega

variable {early late : Civil}

theorem Civil.Real.eq_of_seconds (real : early.Real) (other : late.Real)
    (same : early.seconds = late.seconds) : early = late := by
  have low := real.secondOfDay_bounds
  have high := other.secondOfDay_bounds
  have split := same
  simp only [Civil.seconds] at split
  have days : early.date = late.date :=
    Date.eq_of_number real.date other.date (by clear * - split low high; omega)
  have clock : early.secondOfDay = late.secondOfDay := by
    rw [days] at split
    clear * - split
    omega
  have hours := real.hour
  have minutes := real.minute
  have seconds := real.second
  have otherHours := other.hour
  have otherMinutes := other.minute
  have otherSeconds := other.second
  obtain ⟨year, month, day, hour, minute, second⟩ := early
  obtain ⟨otherYear, otherMonth, otherDay, otherHour, otherMinute, otherSecond⟩ := late
  simp only [Civil.date, Prod.mk.injEq] at days
  simp only [Civil.secondOfDay] at clock
  simp only [Civil.mk.injEq]
  dsimp only at hours minutes seconds otherHours otherMinutes otherSeconds
  clear * - days clock hours minutes seconds otherHours otherMinutes otherSeconds
  omega

namespace Civil

/-- Every number of a moment fits the digits its shape has for it. -/
structure Fits (civil : Civil) : Prop where
  year : 0 ≤ civil.year ∧ civil.year < 10000
  month : 0 ≤ civil.month ∧ civil.month < 100
  day : 0 ≤ civil.day ∧ civil.day < 100
  hour : 0 ≤ civil.hour ∧ civil.hour < 100
  minute : 0 ≤ civil.minute ∧ civil.minute < 100
  second : 0 ≤ civil.second ∧ civil.second < 100

theorem Real.fits (real : civil.Real) (year : 0 ≤ civil.year ∧ civil.year < 10000) :
    civil.Fits := by
  have month := real.date.month
  have day := real.date.day
  have long := Date.monthLength_le civil.date.1 civil.date.2.1
  have hour := real.hour
  have minute := real.minute
  have second := real.second
  simp only [Civil.date] at month day long
  exact ⟨year, by omega, by omega, by omega, by omega, by omega⟩

end Civil

theorem padded_of_nonneg {value : Int} (width : Nat) (nonneg : 0 ≤ value) :
    padded width value = zeroPadded width value.natAbs := by
  rw [padded, if_neg (by omega)]

theorem valueOf_padded {width : Nat} {value : Int} (some_digit : 0 < width)
    (fits : 0 ≤ value ∧ value < 10 ^ width) :
    (Utf8.encode (padded width value)).length = width ∧
      valueOf (Utf8.encode (padded width value)) = some value.natAbs := by
  have bound : value.natAbs < 10 ^ width := by
    zify
    rw [abs_of_nonneg (fits).1]
    exact (fits).2
  rw [padded_of_nonneg width (fits).1]
  exact ⟨length_encode_zeroPadded some_digit bound, valueOf_zeroPadded some_digit bound⟩

variable {bytes : List UInt8}

theorem padded_of_valueOf {value : Nat} (some_digit : bytes ≠ [])
    (read : valueOf bytes = some value) :
    value < 10 ^ bytes.length ∧ Utf8.encode (padded bytes.length value) = bytes := by
  obtain ⟨bound, spelt⟩ := (valueOf_eq_some some_digit).mp read
  rw [padded_of_nonneg _ (Int.natCast_nonneg value), Int.natAbs_natCast]
  exact ⟨bound, spelt⟩

theorem encode_text (civil : Civil) :
    Utf8.encode (civil.text ++ ['Z']) =
      Utf8.encode (padded 4 civil.year) ++ 45 :: (Utf8.encode (padded 2 civil.month) ++ 45 ::
        (Utf8.encode (padded 2 civil.day) ++ 84 :: (Utf8.encode (padded 2 civil.hour) ++ 58 ::
          (Utf8.encode (padded 2 civil.minute) ++ 58 :: (Utf8.encode (padded 2 civil.second) ++ [90]))))) := by
  have dash : ∀ rest, Utf8.encode ('-' :: rest) = 45 :: Utf8.encode rest := fun _ => rfl
  have tee : ∀ rest, Utf8.encode ('T' :: rest) = 84 :: Utf8.encode rest := fun _ => rfl
  have colon : ∀ rest, Utf8.encode (':' :: rest) = 58 :: Utf8.encode rest := fun _ => rfl
  have zed : Utf8.encode ['Z'] = [90] := rfl
  simp only [Civil.text, Utf8.encode_append, dash, tee, colon, zed, append_assoc, cons_append]

theorem drop_eq_piece {bytes : List UInt8} {start stop : Nat} {separator : UInt8} (order : start ≤ stop)
    (found : bytes[stop]? = some separator) :
    bytes.drop start = (bytes.take stop).drop start ++ separator :: bytes.drop (stop + 1) := by
  obtain ⟨inside, here⟩ := List.getElem?_eq_some_iff.mp found
  have cut : bytes = bytes.take stop ++ separator :: bytes.drop (stop + 1) := by
    rw [← here, getElem_cons_drop, take_append_drop]
  have long : start ≤ (bytes.take stop).length := by
    rw [length_take]
    omega
  conv_lhs => rw [cut]
  rw [drop_append_of_le_length long]

theorem civilFields_eq_some :
    civilFields bytes = some civil ↔ civil.Fits ∧ Utf8.encode (civil.text ++ ['Z']) = bytes := by
  rw [encode_text]
  constructor
  · intro read
    simp only [civilFields] at read
    split at read
    · cases read
    · next shaped =>
        simp only [isoSeparators, all_cons, all_nil, Bool.and_true, Bool.not_eq_true',
          Bool.not_eq_false, Bool.and_eq_true, beq_iff_eq] at shaped
        obtain ⟨length, dash, second_dash, tee, colon, second_colon, zed⟩ := shaped
        split at read
        · next year month day hour minute second values =>
            cases read
            simp only [isoFields, map_cons, map_nil, List.cons.injEq, and_true] at values
            obtain ⟨years, months, days, hours, minutes, seconds⟩ := values
            have whole := @drop_eq_piece _ 0 _ _ (by omega) dash
            rw [drop_zero, drop_eq_piece (by omega) second_dash, drop_eq_piece (by omega) tee,
              drop_eq_piece (by omega) colon, drop_eq_piece (by omega) second_colon,
              drop_eq_piece (by omega) zed, drop_of_length_le (show bytes.length ≤ 19 + 1 by omega)]
              at whole
            have piece : ∀ {start width value : Nat}, 0 < width → start + width ≤ 20 →
                valueOf ((bytes.take (start + width)).drop start) = some value →
                value < 10 ^ width ∧
                  Utf8.encode (padded width value) = (bytes.take (start + width)).drop start := by
              intro start width value some_digit inside spelt
              have size : ((bytes.take (start + width)).drop start).length = width := by
                rw [length_drop, length_take]
                omega
              have made := padded_of_valueOf (ne_nil_of_length_pos (by omega)) spelt
              rwa [size] at made
            have yearFits := @piece 0 4 _ (by decide) (by decide) years
            have monthFits := @piece 5 2 _ (by decide) (by decide) months
            have dayFits := @piece 8 2 _ (by decide) (by decide) days
            have hourFits := @piece 11 2 _ (by decide) (by decide) hours
            have minuteFits := @piece 14 2 _ (by decide) (by decide) minutes
            have secondFits := @piece 17 2 _ (by decide) (by decide) seconds
            rw [yearFits.2, monthFits.2, dayFits.2, hourFits.2, minuteFits.2, secondFits.2]
            refine ⟨⟨?_, ?_, ?_, ?_, ?_, ?_⟩, whole.symm⟩ <;> dsimp only <;> omega
        · cases read
  · rintro ⟨fits, rfl⟩
    obtain ⟨yearLen, year⟩ := @valueOf_padded 4 _ (by decide) fits.year
    obtain ⟨monthLen, month⟩ := @valueOf_padded 2 _ (by decide) fits.month
    obtain ⟨dayLen, day⟩ := @valueOf_padded 2 _ (by decide) fits.day
    obtain ⟨hourLen, hour⟩ := @valueOf_padded 2 _ (by decide) fits.hour
    obtain ⟨minuteLen, minute⟩ := @valueOf_padded 2 _ (by decide) fits.minute
    obtain ⟨secondLen, second⟩ := @valueOf_padded 2 _ (by decide) fits.second
    generalize Utf8.encode (padded 4 civil.year) = years at *
    generalize Utf8.encode (padded 2 civil.month) = months at *
    generalize Utf8.encode (padded 2 civil.day) = days at *
    generalize Utf8.encode (padded 2 civil.hour) = hours at *
    generalize Utf8.encode (padded 2 civil.minute) = minutes at *
    generalize Utf8.encode (padded 2 civil.second) = seconds at *
    match years, yearLen, year with
    | [y0, y1, y2, y3], _, year =>
      obtain ⟨m0, m1, rfl⟩ := length_eq_two.mp monthLen
      obtain ⟨d0, d1, rfl⟩ := length_eq_two.mp dayLen
      obtain ⟨h0, h1, rfl⟩ := length_eq_two.mp hourLen
      obtain ⟨n0, n1, rfl⟩ := length_eq_two.mp minuteLen
      obtain ⟨s0, s1, rfl⟩ := length_eq_two.mp secondLen
      change (match ([valueOf [y0, y1, y2, y3], valueOf [m0, m1],
          valueOf [d0, d1], valueOf [h0, h1], valueOf [n0, n1],
          valueOf [s0, s1]] : List (Option Nat)) with
        | [some year, some month, some day, some hour, some minute, some second] =>
          some (Civil.mk year month day hour minute second)
        | _ => none) = some civil
      rw [year, month, day, hour, minute, second]
      simp only [Int.natCast_natAbs, abs_of_nonneg fits.year.1, abs_of_nonneg fits.month.1,
        abs_of_nonneg fits.day.1, abs_of_nonneg fits.hour.1, abs_of_nonneg fits.minute.1,
        abs_of_nonneg fits.second.1]

theorem Civil.Real.seconds_lt (real : civil.Real) (year : civil.year < 10000) :
    civil.seconds < 253402300800 := by
  have turn : Date.Valid (10000, 1, 1) := ⟨by decide, by decide⟩
  have before : civil.date.Before (10000, 1, 1) := Or.inl year
  have days := Date.number_lt_of_before real.date turn before
  have later : Date.number (10000, 1, 1) = 3652365 := by decide
  have clock := real.secondOfDay_bounds
  simp only [Civil.seconds]
  omega

theorem parseIso_eq_ok {raw : List Char} {moment : Nat} :
    parseIso raw = .ok moment ↔
      ∃ civil : Civil, civil.Real ∧ (0 ≤ civil.year ∧ civil.year < 10000) ∧ 0 ≤ civil.seconds ∧
        civil.text ++ ['Z'] = raw ∧ (moment : Int) = civil.seconds * 1000 := by
  constructor
  · intro read
    unfold parseIso at read
    split at read
    · cases read
    · next millis found =>
        obtain ⟨civil, fields, known⟩ := Option.bind_eq_some_iff.mp found
        obtain ⟨fits, spelt⟩ := (civilFields_eq_some).mp fields
        obtain ⟨⟨month, hour, minute, second⟩, given, rfl⟩ := (millisOf_eq_some).mp known
        split at read
        · next bounds =>
            cases read
            have day : 0 ≤ civil.date.number - 719468 := by
              have late := bounds.1
              have hourFits := fits.hour
              have minuteFits := fits.minute
              have secondFits := fits.second
              simp only [Civil.seconds, Civil.secondOfDay] at late
              clear * - late hourFits minuteFits secondFits hour minute second
              omega
            have valid := (@civilFromDays_spec (civil.date.number - 719468) (by omega)).1
            rw [given] at valid
            refine ⟨civil, ⟨valid, ⟨fits.hour.1, hour⟩, ⟨fits.minute.1, minute⟩,
              ⟨fits.second.1, second⟩⟩, fits.year, by omega, ?_, Int.toNat_of_nonneg bounds.1⟩
            have same := congrArg Utf8.decode spelt
            rw [Utf8.decode_encode, Utf8.decode_encode] at same
            exact Option.some.inj same
        · cases read
  · rintro ⟨civil, real, year, since, rfl, moment_eq⟩
    have fields := (civilFields_eq_some).mpr ⟨real.fits year, rfl⟩
    have bound := real.seconds_lt year.2
    have clock := real.secondOfDay_bounds
    have day : 0 ≤ civil.date.number - 719468 := by
      have late := since
      simp only [Civil.seconds] at late
      clear * - late clock
      omega
    have spec := @civilFromDays_spec (civil.date.number - 719468) (by omega)
    have given : civilFromDays (civil.date.number - 719468) = civil.date :=
      Date.eq_of_number spec.1 real.date (by rw [spec.2]; omega)
    have known : millisOf civil = some (civil.seconds * 1000) :=
      (millisOf_eq_some).mpr ⟨⟨real.date.month, real.hour.2, real.minute.2, real.second.2⟩, given, rfl⟩
    have found : (civilFields (Utf8.encode (civil.text ++ ['Z']))).bind millisOf =
        some (civil.seconds * 1000) := by rw [fields, Option.bind_some, known]
    simp only [parseIso, found]
    rw [if_pos (by omega), ← moment_eq, Int.toNat_natCast]

theorem iso_eq (moment : Nat) :
    iso moment = (civilOfSeconds ((moment : Int) / 1000)).text ++ ['Z'] := by
  have same : (moment : Int) + 0 * 60000 = moment := by omega
  simp only [iso, formatAt, same]
  rfl

def FourDigits (moment : Nat) : Prop := (civilOfSeconds ((moment : Int) / 1000)).year ≤ 9999

theorem year_nonneg (since : 0 ≤ seconds) : 0 ≤ (civilOfSeconds seconds).year := by
  have real := real_civilOfSeconds since
  have same := seconds_civilOfSeconds since
  have clock := real.secondOfDay_bounds
  rcases Int.lt_or_le (civilOfSeconds seconds).year 0 with negative | nonneg
  · have turn : Date.Valid (0, 1, 1) := ⟨by decide, by decide⟩
    have before : (civilOfSeconds seconds).date.Before (0, 1, 1) := Or.inl negative
    have days := Date.number_lt_of_before real.date turn before
    have early : Date.number (0, 1, 1) = -60 := by decide
    simp only [Civil.seconds] at same
    omega
  · exact nonneg

theorem compare_padded {width : Nat} {first second : Int} (some_digit : 0 < width)
    (low : 0 ≤ first ∧ first < 10 ^ width) (high : 0 ≤ second ∧ second < 10 ^ width)
    (rest others : List Char) :
    compare (padded width first ++ rest) (padded width second ++ others) =
      (compare first second).then (compare rest others) := by
  have left : first.natAbs < 10 ^ width := by
    zify
    rw [abs_of_nonneg low.1]
    exact low.2
  have right : second.natAbs < 10 ^ width := by
    zify
    rw [abs_of_nonneg high.1]
    exact high.2
  have order : compare first.natAbs second.natAbs = compare first second := by
    rcases Int.lt_trichotomy first second with below | same | above
    · rw [Nat.compare_eq_lt.mpr (by omega), Int.compare_eq_lt.mpr below]
    · rw [same, Nat.compare_eq_eq.mpr rfl, Int.compare_eq_eq.mpr rfl]
    · rw [Nat.compare_eq_gt.mpr (by omega), Int.compare_eq_gt.mpr above]
  rw [padded_of_nonneg _ low.1, padded_of_nonneg _ high.1,
    compare_append (by rw [length_zeroPadded some_digit left, length_zeroPadded some_digit right]),
    compare_zeroPadded some_digit left right, order]

theorem compare_text (first : early.Fits) (second : late.Fits) :
    compare (early.text ++ ['Z']) (late.text ++ ['Z']) =
      (compare early.year late.year).then ((compare early.month late.month).then
        ((compare early.day late.day).then ((compare early.hour late.hour).then
          ((compare early.minute late.minute).then (compare early.second late.second))))) := by
  simp only [Civil.text, append_assoc, cons_append]
  rw [compare_padded (by decide) first.year second.year, List.compare_cons_cons,
    Std.ReflOrd.compare_self, compare_padded (by decide) first.month second.month,
    List.compare_cons_cons, Std.ReflOrd.compare_self,
    compare_padded (by decide) first.day second.day, List.compare_cons_cons,
    Std.ReflOrd.compare_self, compare_padded (by decide) first.hour second.hour,
    List.compare_cons_cons, Std.ReflOrd.compare_self,
    compare_padded (by decide) first.minute second.minute, List.compare_cons_cons,
    Std.ReflOrd.compare_self, compare_padded (by decide) first.second second.second,
    Std.ReflOrd.compare_self, Ordering.then_eq]
  rfl

theorem then_eq_lt {a b : Int} {rest : Ordering} :
    (compare a b).then rest = .lt ↔ a < b ∨ a = b ∧ rest = .lt := by
  rcases Int.lt_trichotomy a b with below | same | above
  · simp [Int.compare_eq_lt.mpr below, below]
  · simp [same]
  · rw [Int.compare_eq_gt.mpr above]
    simp only [Ordering.then, reduceCtorEq, false_iff]
    omega

namespace Civil

/-- The first moment comes before the second. -/
def Before (early late : Civil) : Prop :=
  early.date.Before late.date ∨ early.date = late.date ∧ early.secondOfDay < late.secondOfDay

theorem Real.before_of_seconds (real : early.Real) (other : late.Real)
    (order : early.seconds < late.seconds) : early.Before late := by
  have first := real.secondOfDay_bounds
  have second := other.secondOfDay_bounds
  simp only [seconds] at order
  rcases Date.before_or_eq_or_after early.date late.date with before | same | after
  · exact Or.inl before
  · rw [same] at order
    exact Or.inr ⟨same, by omega⟩
  · have days := Date.number_lt_of_before other.date real.date after
    omega

theorem Before.compare_text (order : early.Before late) (real : early.Real)
    (other : late.Real) (first : early.Fits) (second : late.Fits) :
    compare (early.text ++ ['Z']) (late.text ++ ['Z']) = .lt := by
  have minute := real.minute
  have others := other.minute
  have seconds := real.second
  have otherSeconds := other.second
  have decided : early.year < late.year ∨ early.year = late.year ∧
      (early.month < late.month ∨ early.month = late.month ∧
        (early.day < late.day ∨ early.day = late.day ∧
          (early.hour < late.hour ∨ early.hour = late.hour ∧
            (early.minute < late.minute ∨ early.minute = late.minute ∧
              early.second < late.second)))) := by
    simp only [Before, Date.Before, date, Prod.mk.injEq, secondOfDay] at order
    clear * - order minute others seconds otherSeconds
    omega
  rw [Clock.compare_text first second]
  simp only [then_eq_lt, Int.compare_eq_lt]
  exact decided

end Civil

/-- For moments of years of four digits, reading the spelling back drops the milliseconds; what is
read back is spelt as it was read, and names a day the calendar has; and spellings are in the order of
their seconds. -/
theorem spelling_of_seconds :
    (∀ moment, FourDigits moment → parseIso (iso moment) = .ok (moment / 1000 * 1000)) ∧
      (∀ raw moment, parseIso raw = .ok moment →
        iso moment = raw ∧
          ∃ civil : Civil, civil.Real ∧ civil.text ++ ['Z'] = raw ∧
            (moment : Int) = civil.seconds * 1000) ∧
      (∀ second, FourDigits (second * 1000) → ∃! raw, parseIso raw = .ok (second * 1000)) ∧
      ∀ early late, FourDigits early → FourDigits late → early / 1000 < late / 1000 →
        compare (iso early) (iso late) = .lt := by
  have back : ∀ moment, FourDigits moment → parseIso (iso moment) = .ok (moment / 1000 * 1000) := by
    intro moment four
    have since : 0 ≤ (moment : Int) / 1000 := by omega
    have same := seconds_civilOfSeconds since
    refine (parseIso_eq_ok).mpr ⟨_, real_civilOfSeconds since, ⟨year_nonneg since, Int.lt_add_one_of_le four⟩,
      by rw [same]; exact since, (iso_eq moment).symm, ?_⟩
    rw [same]
    omega
  have forth : ∀ raw moment, parseIso raw = .ok moment → iso moment = raw ∧
      ∃ civil : Civil, civil.Real ∧ civil.text ++ ['Z'] = raw ∧
        (moment : Int) = civil.seconds * 1000 := by
    intro raw moment read
    obtain ⟨civil, real, year, since, rfl, made⟩ := (parseIso_eq_ok).mp read
    have second : (moment : Int) / 1000 = civil.seconds := by omega
    have found : civilOfSeconds civil.seconds = civil :=
      (real_civilOfSeconds since).eq_of_seconds real (seconds_civilOfSeconds since)
    exact ⟨by rw [iso_eq, second, found], civil, real, rfl, made⟩
  refine ⟨back, forth, ?_, ?_⟩
  · intro second four
    refine ⟨iso (second * 1000), ?_, fun other read => (forth other _ read).1.symm⟩
    have read := back (second * 1000) four
    rwa [Nat.mul_div_cancel _ (by decide)] at read
  · intro early late first second order
    have left : 0 ≤ (early : Int) / 1000 := by omega
    have right : 0 ≤ (late : Int) / 1000 := by omega
    have real := real_civilOfSeconds left
    have other := real_civilOfSeconds right
    have before := real.before_of_seconds other
      (by rw [seconds_civilOfSeconds left, seconds_civilOfSeconds right]; omega)
    rw [iso_eq, iso_eq]
    exact before.compare_text real other
      (real.fits ⟨year_nonneg left, Int.lt_add_one_of_le first⟩)
      (other.fits ⟨year_nonneg right, Int.lt_add_one_of_le second⟩)

theorem spelling_of_leap_day :
    parseIso (iso 1709251199999) = .ok 1709251199000 ∧
      compare (iso 1709251199999) (iso 1709251200000) = .lt :=
  have last : FourDigits 1709251199999 := by
    unfold FourDigits
    decide
  have next : FourDigits 1709251200000 := by
    unfold FourDigits
    decide
  ⟨(spelling_of_seconds).1 _ last, (spelling_of_seconds).2.2.2 _ _ last next (by decide)⟩

end Clock

end Sprawling
