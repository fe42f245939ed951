import Mathlib.Order.Basic
import Mathlib.Tactic.IntervalCases

/-! The Gregorian calendar, carried back before its introduction: dates, the day after a date, and
the number of a day counted from 1 March of the year 0. -/

namespace Calendar

def isLeap (year : Int) : Bool := year % 4 = 0 && (year % 100 ≠ 0 || year % 400 = 0)

def monthLength (year month : Int) : Int :=
  if month = 2 then if isLeap year then 29 else 28
  else if month = 4 ∨ month = 6 ∨ month = 9 ∨ month = 11 then 30
  else 31

/-- Year, month and day, in the order they are compared. -/
abbrev Date := Int × Int × Int

namespace Date

/-- The calendar has the day. -/
structure Valid (date : Date) : Prop where
  month : 1 ≤ date.2.1 ∧ date.2.1 ≤ 12
  day : 1 ≤ date.2.2 ∧ date.2.2 ≤ monthLength date.1 date.2.1

/-- The first date comes before the second. -/
def Before (first second : Date) : Prop :=
  first.1 < second.1 ∨ first.1 = second.1 ∧
    (first.2.1 < second.2.1 ∨ first.2.1 = second.2.1 ∧ first.2.2 < second.2.2)

def marchYear (date : Date) : Int := if date.2.1 ≤ 2 then date.1 - 1 else date.1

def marchMonth (date : Date) : Int := if date.2.1 > 2 then date.2.1 - 3 else date.2.1 + 9

def marchDay (date : Date) : Int := (153 * marchMonth date + 2) / 5 + date.2.2 - 1

end Date

def yearStart (year : Int) : Int := 365 * year + year / 4 - year / 100 + year / 400

def Date.number (date : Date) : Int := yearStart (marchYear date) + marchDay date

theorem yearStart_succ (year : Int) :
    yearStart (year + 1) = yearStart year + 365 + if isLeap (year + 1) then 1 else 0 := by
  simp only [yearStart, isLeap, Bool.and_eq_true, Bool.or_eq_true, decide_eq_true_eq]
  split <;> omega

theorem yearStart_le {first second : Int} (order : first < second) :
    yearStart (first + 1) ≤ yearStart second := by
  simp only [yearStart]
  omega

namespace Date

variable {date first second : Date}

theorem monthLength_le (year month : Int) : monthLength year month ≤ 31 := by
  simp only [monthLength]
  split
  · split <;> omega
  · split <;> omega

theorem marchDay_nonneg (valid : date.Valid) : 0 ≤ marchDay date := by
  have month := valid.month
  have day := valid.day
  simp only [marchDay, marchMonth]
  split <;> omega

theorem marchDay_lt (valid : date.Valid) :
    marchDay date < 365 + if isLeap (marchYear date + 1) then 1 else 0 := by
  obtain ⟨year, month, day⟩ := date
  have months := valid.month
  have days := valid.day
  have long := monthLength_le year month
  simp only [marchDay, marchMonth, marchYear] at *
  by_cases february : month = 2
  · subst february
    simp only [monthLength, if_true] at days
    have same : year - 1 + 1 = year := by omega
    simp only [le_refl, if_true, same]
    split at days <;> simp_all <;> omega
  · have bound : (0 : Int) ≤ if isLeap ((if month ≤ 2 then year - 1 else year) + 1) then 1 else 0 := by
      split <;> omega
    split <;> omega

theorem marchDay_month_end {year month : Int} (real : 1 ≤ month ∧ month ≤ 12) (other : month ≠ 2) :
    marchDay (year, month, monthLength year month) + 1 =
      (153 * (marchMonth (year, month, 1) + 1) + 2) / 5 := by
  obtain ⟨low, high⟩ := real
  interval_cases month <;> simp_all [marchDay, marchMonth, monthLength]

theorem marchDay_lt_of_before (valid : first.Valid) (others : second.Valid)
    (same : marchYear first = marchYear second) (order : first.Before second) :
    marchDay first < marchDay second := by
  obtain ⟨year, month, day⟩ := first
  obtain ⟨otherYear, otherMonth, otherDay⟩ := second
  have months := valid.month
  have days := valid.day
  have otherMonths := others.month
  have otherDays := others.day
  simp only [Before, marchYear] at months days otherMonths otherDays same order
  by_cases alike : month = otherMonth
  · subst alike
    have years : year = otherYear := by split at same <;> omega
    simp only [marchDay, marchMonth]
    omega
  · have earlier : marchMonth (year, month, 1) < marchMonth (otherYear, otherMonth, 1) := by
      simp only [marchMonth]
      split at same <;> split at same <;> split <;> split <;> omega
    have inner : month ≠ 2 := by
      intro february
      simp only [marchMonth, february] at earlier
      split at earlier <;> omega
    have stop := @marchDay_month_end year _ months inner
    simp only [marchDay] at stop ⊢
    change _ < (153 * marchMonth (otherYear, otherMonth, 1) + 2) / 5 + otherDay - 1
    change (153 * marchMonth (year, month, 1) + 2) / 5 + day - 1 < _
    change (153 * marchMonth (year, month, 1) + 2) / 5 + monthLength year month - 1 + 1 = _ at stop
    omega

/-- Days are numbered in the order of their dates. -/
theorem number_lt_of_before (valid : first.Valid) (others : second.Valid)
    (order : first.Before second) : number first < number second := by
  have low := marchDay_nonneg others
  have high := marchDay_lt valid
  rcases Int.lt_trichotomy (marchYear first) (marchYear second) with earlier | same | later
  · have apart := yearStart_le earlier
    rw [yearStart_succ] at apart
    simp only [number]
    omega
  · have within := marchDay_lt_of_before valid others same order
    simp only [number, same]
    omega
  · exfalso
    have months := valid.month
    have others := others.month
    simp only [Before, marchYear] at order later
    split at later <;> split at later <;> omega

theorem before_or_eq_or_after (first second : Date) :
    first.Before second ∨ first = second ∨ second.Before first := by
  obtain ⟨year, month, day⟩ := first
  obtain ⟨otherYear, otherMonth, otherDay⟩ := second
  simp only [Before, Prod.mk.injEq]
  omega

theorem eq_of_number (valid : first.Valid) (others : second.Valid)
    (same : number first = number second) : first = second := by
  rcases before_or_eq_or_after first second with before | equal | after
  · have apart := number_lt_of_before valid others before
    omega
  · exact equal
  · have apart := number_lt_of_before others valid after
    omega

theorem one_le_monthLength (year month : Int) : 1 ≤ monthLength year month := by
  simp only [monthLength]
  split
  · split <;> omega
  · split <;> omega

end Date

end Calendar
