import Mathlib.Algebra.Order.Ring.Int
import Mathlib.Data.List.Basic

/-!
# The Julian and the Gregorian calendar

Dates of both calendars, for all years: the year before the first one is year zero. A date stands
for a number of days, and no two dates of one calendar stand for the same number.
-/

namespace PicoJvm.Lib.Calendars

/-- The calendars differ in the leap years and in where they begin. -/
inductive Reckoning
  | julian | gregorian
  deriving DecidableEq, Repr

/-! ## Years -/

/-- A year has a leap day. -/
def isLeap : Reckoning → Int → Bool
  | .julian, year => decide (year % 4 = 0)
  | .gregorian, year => decide (year % 4 = 0 ∧ (year % 100 ≠ 0 ∨ year % 400 = 0))

/-- The days of a year. -/
def yearLength (leap : Bool) : Int :=
  if leap then 366 else 365

/-- The days from the first day of year one to the first day of a year. -/
def daysBeforeYear : Reckoning → Int → Int
  | .julian, year => 365 * (year - 1) + (year - 1) / 4
  | .gregorian, year => 365 * (year - 1) + (year - 1) / 4 - (year - 1) / 100 + (year - 1) / 400

theorem daysBeforeYear_one (reckoning : Reckoning) :
    daysBeforeYear reckoning 1 = 0 := by
  cases reckoning <;> rfl

theorem daysBeforeYear_succ (reckoning : Reckoning) (year : Int) :
    daysBeforeYear reckoning (year + 1) =
      daysBeforeYear reckoning year + yearLength (isLeap reckoning year) := by
  cases reckoning with
  | julian =>
      simp only [daysBeforeYear, yearLength, isLeap, decide_eq_true_eq]
      split <;> omega
  | gregorian =>
      simp only [daysBeforeYear, yearLength, isLeap, decide_eq_true_eq]
      split <;> omega

theorem daysBeforeYear_le
    (reckoning : Reckoning) {year later : Int}
    (isLater : year < later) :
    daysBeforeYear reckoning year + yearLength (isLeap reckoning year) ≤
      daysBeforeYear reckoning later := by
  rw [← daysBeforeYear_succ]
  cases reckoning with
  | julian =>
      simp only [daysBeforeYear]
      omega
  | gregorian =>
      simp only [daysBeforeYear]
      omega

/-! ## Months -/

/-- The days of the months, from January on. -/
def monthLengths (leap : Bool) : List Int :=
  [31, if leap then 29 else 28, 31, 30, 31, 30, 31, 31, 30, 31, 30, 31]

/-- The days of a month, of which the first is zero. -/
def monthLength (leap : Bool) (month : Nat) : Int :=
  (monthLengths leap).getD month 0

/-- The days of a year before a month. -/
def daysBeforeMonth (leap : Bool) (month : Nat) : Int :=
  ((monthLengths leap).take month).sum

theorem daysBeforeMonth_succ (leap : Bool) (month : Nat) :
    daysBeforeMonth leap (month + 1) = daysBeforeMonth leap month + monthLength leap month := by
  rw [daysBeforeMonth, daysBeforeMonth, monthLength, List.take_add_one, List.sum_append,
    List.getD_eq_getElem?_getD]
  cases (monthLengths leap)[month]? with
  | none =>
      simp
  | some length =>
      simp

theorem monthLength_nonneg (leap : Bool) (month : Nat) : 0 ≤ monthLength leap month := by
  rw [monthLength, List.getD_eq_getElem?_getD]
  cases found : (monthLengths leap)[month]? with
  | none =>
      simp
  | some length =>
      have nonneg : ∀ length ∈ monthLengths leap, 0 ≤ length := by
        cases leap <;> decide
      exact nonneg length (List.mem_of_getElem? found)

theorem daysBeforeMonth_le
    (leap : Bool) {month later : Nat}
    (isLater : month < later) :
    daysBeforeMonth leap month + monthLength leap month ≤ daysBeforeMonth leap later := by
  induction isLater with
  | refl =>
      rw [daysBeforeMonth_succ]
  | @step next isLater inductionHypothesis =>
      have nonneg := monthLength_nonneg leap next
      rw [daysBeforeMonth_succ]
      omega

theorem daysBeforeMonth_twelve (leap : Bool) :
    daysBeforeMonth leap 12 = yearLength leap := by
  cases leap <;> rfl

/-! ## Dates -/

/-- A year, a month, of which January is zero, and a day of the month, of which the first is
one. -/
structure Date where
  year : Int
  month : Nat
  day : Int
  deriving DecidableEq, Repr

/-- A calendar has a date. -/
structure IsDate (reckoning : Reckoning) (date : Date) : Prop where
  month_lt : date.month < 12
  one_le_day : 1 ≤ date.day
  day_le : date.day ≤ monthLength (isLeap reckoning date.year) date.month

/-- The days from the first day of a year to a date in it. -/
def dayOfYear (reckoning : Reckoning) (date : Date) : Int :=
  daysBeforeMonth (isLeap reckoning date.year) date.month + (date.day - 1)

/-- The days from the first day of year one to a date. -/
def dayNumber (reckoning : Reckoning) (date : Date) : Int :=
  daysBeforeYear reckoning date.year + dayOfYear reckoning date

theorem IsDate.dayOfYear_bounds
    {reckoning : Reckoning} {date : Date}
    (isDate : IsDate reckoning date) :
    0 ≤ dayOfYear reckoning date ∧
      dayOfYear reckoning date < yearLength (isLeap reckoning date.year) := by
  have before : 0 ≤ daysBeforeMonth (isLeap reckoning date.year) date.month := by
    rcases Nat.eq_zero_or_pos date.month with isZero | positive
    · rw [isZero]
      exact le_refl _
    · have first := daysBeforeMonth_le (isLeap reckoning date.year) positive
      have nonneg := monthLength_nonneg (isLeap reckoning date.year) 0
      have start : daysBeforeMonth (isLeap reckoning date.year) 0 = 0 := rfl
      omega
  have after := daysBeforeMonth_le (isLeap reckoning date.year) isDate.month_lt
  have first := isDate.one_le_day
  have last := isDate.day_le
  rw [daysBeforeMonth_twelve] at after
  rw [dayOfYear]
  omega

/-- Two dates of one calendar that stand for the same day are the same. -/
theorem IsDate.eq_of_dayNumber_eq
    {reckoning : Reckoning} {date other : Date}
    (isDate : IsDate reckoning date)
    (isOther : IsDate reckoning other)
    (same : dayNumber reckoning date = dayNumber reckoning other) :
    date = other := by
  have bounds := isDate.dayOfYear_bounds
  have otherBounds := isOther.dayOfYear_bounds
  rw [dayNumber, dayNumber] at same
  have sameYear : date.year = other.year := by
    rcases lt_trichotomy date.year other.year with earlier | equal | later
    · have distance := daysBeforeYear_le reckoning earlier
      omega
    · exact equal
    · have distance := daysBeforeYear_le reckoning later
      omega
  have first := isDate.one_le_day
  have last := isDate.day_le
  have otherFirst := isOther.one_le_day
  have otherLast := isOther.day_le
  rw [dayOfYear, dayOfYear, sameYear] at same
  rw [sameYear] at last
  have sameMonth : date.month = other.month := by
    rcases lt_trichotomy date.month other.month with earlier | equal | later
    · have distance := daysBeforeMonth_le (isLeap reckoning other.year) earlier
      omega
    · exact equal
    · have distance := daysBeforeMonth_le (isLeap reckoning other.year) later
      omega
  have sameDay : date.day = other.day := by
    rw [sameMonth] at same
    omega
  cases date
  cases other
  simp only [Date.mk.injEq]
  exact ⟨sameYear, sameMonth, sameDay⟩

/-! ## Days of both calendars -/

/-- The Julian day number of the first day of year one. -/
def firstDay : Reckoning → Int
  | .julian => 1721424
  | .gregorian => 1721426

/-- The Julian day number of a date. -/
def julianDay (reckoning : Reckoning) (date : Date) : Int :=
  firstDay reckoning + dayNumber reckoning date

/-- The calendar of a day, when the Gregorian calendar begins at a day. -/
def reckoningAt (cutover day : Int) : Reckoning :=
  if day < cutover then .julian else .gregorian

/-- The date of a day in the calendar of that day. -/
structure IsHybridDate (cutover day : Int) (date : Date) : Prop where
  isDate : IsDate (reckoningAt cutover day) date
  julianDay_eq : julianDay (reckoningAt cutover day) date = day

theorem IsHybridDate.unique
    {cutover day : Int} {date other : Date}
    (isHybrid : IsHybridDate cutover day date)
    (isOther : IsHybridDate cutover day other) :
    date = other := by
  apply isHybrid.isDate.eq_of_dayNumber_eq isOther.isDate
  have sameDay := isHybrid.julianDay_eq.trans isOther.julianDay_eq.symm
  rw [julianDay, julianDay] at sameDay
  omega

/-- The day of the week of a day, of which Sunday is one. -/
def dayOfWeek (day : Int) : Int :=
  (day + 1) % 7 + 1

end PicoJvm.Lib.Calendars
