import PicoJvm.Lib.Calendars
import PicoJvm.Lib.LongInteger
import PicoJvm.Time.DaylightRules

/-!
# The fields of a calendar

`CalendarImpl` makes the fields of a time: the date in the Julian calendar before 15 October 1582
and in the Gregorian one from then on, and the time of the day.
-/

namespace PicoJvm.Time

open PicoJvm.Lib.Calendars
open PicoJvm.Lib.LongInteger
open PicoJvm.Lib.Machine

/-! ## Constants and tables -/

/-- `gregorianCutover`. -/
def gregorianCutover : Int :=
  -12219292800000

/-- `JAN_1_1_JULIAN_DAY`. -/
def jan11JulianDay : Int :=
  1721426

/-- `EPOCH_JULIAN_DAY`. -/
def epochJulianDay : Int :=
  2440588

/-- `Long.MAX_VALUE`. -/
def longMaxValue : Int :=
  9223372036854775807

/-- `Long.MIN_VALUE`. -/
def longMinValue : Int :=
  -9223372036854775808

/-- `NUM_DAYS`, and `LEAP_NUM_DAYS`. -/
def numDays (isLeap : Bool) : List Int :=
  if isLeap then
    [0, 31, 60, 91, 121, 152, 182, 213, 244, 274, 305, 335]
  else
    [0, 31, 59, 90, 120, 151, 181, 212, 243, 273, 304, 334]

/-- An array at an index; outside the array there is an exception. -/
def arrayAt (array : List Int) (index : Int) : Option Int :=
  if index < 0 then
    none
  else
    array[index.toNat]?

/-! ## Divisions -/

/-- `floorDivide` of two numbers. -/
def floorDivide (numerator denominator : Int) : Int :=
  if 0 ≤ numerator then
    numerator.tdiv denominator
  else
    (numerator + 1).tdiv denominator - 1

/-- `floorDivide` with a remainder, of an `int` or of a `long`. -/
def floorDivideRem (numerator denominator : Int) : Int × Int :=
  if 0 ≤ numerator then
    (signed (numerator.tdiv denominator), signed (numerator.tmod denominator))
  else
    let quotient := signed ((numerator + 1).tdiv denominator - 1)
    (quotient, signed (numerator - signed (quotient * denominator)))

/-- `millisToJulianDay`. -/
def millisToJulianDay (millis : Int) : Int :=
  epochJulianDay + floorDivide millis oneDay

/-! ## From the time to the date -/

/-- The fields that `timeToFields` completes. -/
structure DateFields where
  year : Int
  month : Int
  date : Int
  dayOfWeek : Int
  deriving DecidableEq, Repr

/-- The year and the day in it, counted from zero, in the Gregorian calendar. -/
def gregorianYear (gregorianEpochDay : Int) : Int × Int :=
  let (n400, rem) := floorDivideRem gregorianEpochDay 146097
  let (n100, rem) := floorDivideRem rem 36524
  let (n4, rem) := floorDivideRem rem 1461
  let (n1, rem) := floorDivideRem rem 365
  let rawYear := signed (400 * n400 + 100 * n100 + 4 * n4 + n1)
  if n100 = 4 ∨ n1 = 4 then
    (rawYear, 365)
  else
    (signed (rawYear + 1), rem)

/-- The year and the day in it, counted from zero, in the Julian calendar. The first day of the
year is computed in 32 bits. -/
def julianYear (julianEpochDay : Int) : Int × Int :=
  let rawYear := signed (floorDivide (4 * julianEpochDay + 1464) 1461)
  let january1 := signed (signed (365 * (rawYear - 1)) + floorDivide (rawYear - 1) 4)
  (rawYear, signed (julianEpochDay - january1))

/-- The month of a day of the year: `month_field`. -/
def monthField (isLeap : Bool) (dayOfYear : Int) : Int :=
  let march1 := if isLeap then 60 else 59
  let correction := if march1 ≤ dayOfYear then (if isLeap then 1 else 2) else 0
  (12 * (dayOfYear + correction) + 6).tdiv 367

/-- The year that is shown: before year one they are counted from one again. -/
def shownYear (rawYear : Int) : Int :=
  if rawYear < 1 then 1 - rawYear else rawYear

/-- The day of the week that is shown. -/
def shownDayOfWeek (dayOfWeek : Int) : Int :=
  dayOfWeek + if dayOfWeek < 0 then 1 + 7 else 1

/-- The common calculation at the end of `timeToFields`. -/
def finishFields (rawYear dayOfYear : Int) (isLeap : Bool) (dayOfWeek : Int) :
    Option DateFields :=
  match arrayAt (numDays isLeap) (monthField isLeap dayOfYear) with
  | none => none
  | some before =>
      some
        { year := shownYear rawYear
          month := monthField isLeap dayOfYear
          date := dayOfYear - before + 1
          dayOfWeek := shownDayOfWeek dayOfWeek }

/-- `timeToFields`. A year is divided by four with a mask, hence the remainder that is never
negative. -/
def timeToFields (theTime : Int) : Option DateFields :=
  if gregorianCutover ≤ theTime then
    let gregorianEpochDay := millisToJulianDay theTime - jan11JulianDay
    let (rawYear, dayOfYear) := gregorianYear gregorianEpochDay
    let isLeap :=
      decide (rawYear % 4 = 0 ∧ (rawYear.tmod 100 ≠ 0 ∨ rawYear.tmod 400 = 0))
    finishFields rawYear dayOfYear isLeap (signed ((gregorianEpochDay + 1).tmod 7))
  else
    let julianEpochDay := millisToJulianDay theTime - (jan11JulianDay - 2)
    let (rawYear, dayOfYear) := julianYear julianEpochDay
    finishFields rawYear dayOfYear (decide (rawYear % 4 = 0))
      (signed ((julianEpochDay - 1).tmod 7))

/-! ## From the time to all fields -/

/-- A time zone. It is asked for the offset of a date and a standard time of the day, and adds
less than a day to its raw offset then; February has up to 29 days in every year. -/
structure TimeZone where
  rawOffset : Int
  inRange : InRange rawOffset
  getOffset : (era year month day dayOfWeek millis : Int) → Option Int
  offsets : ∀ year day dayOfWeek millis (month : Nat), month < 12 → 1 ≤ day →
    day ≤ monthLength true month → 1 ≤ dayOfWeek → dayOfWeek ≤ 7 → 0 ≤ millis →
    millis < oneDay → ∃ savings, 0 ≤ savings ∧ savings < oneDay ∧
      getOffset 1 year month day dayOfWeek millis = some (signed (rawOffset + savings))

theorem TimeZoneImpl.getOffset_offsets
    (zone : TimeZoneImpl)
    (inRange : InRange zone.rawOffset)
    (small : zone.useDaylight = true → 0 ≤ zone.dstSavings ∧ zone.dstSavings < oneDay)
    (year day dayOfWeek millis : Int) {month : Nat}
    (inYear : month < 12)
    (isDay : 1 ≤ day ∧ day ≤ monthLength true month)
    (isWeekDay : 1 ≤ dayOfWeek ∧ dayOfWeek ≤ 7)
    (isMillis : 0 ≤ millis ∧ millis < oneDay) :
    ∃ savings, 0 ≤ savings ∧ savings < oneDay ∧
      zone.getOffset 1 year month day dayOfWeek millis =
        some (signed (zone.rawOffset + savings)) := by
  have lengths : ∀ month < 12, staticMonthLength (month : Nat) = monthLength true month ∧
      28 ≤ staticMonthLength (month : Nat) ∧ staticMonthLength (month : Nat) ≤ 31 := by
    decide
  obtain ⟨lengthEq, shortest, longest⟩ := lengths month inYear
  have legal :
      ¬ IllegalArguments 1 month day dayOfWeek millis (staticMonthLength (month : Nat)) := by
    rw [IllegalArguments]
    omega
  have raw : signed (zone.rawOffset + 0) = zone.rawOffset := by
    rw [Int.add_zero]
    exact signed_of_inRange inRange
  rw [getOffset, if_neg (by omega), if_neg legal]
  by_cases unused : zone.useDaylight = false ∨ year < zone.startYear ∨ (1 : Int) ≠ 1
  · rw [if_pos unused]
    exact ⟨0, le_refl 0, by decide, by rw [raw]⟩
  · rw [if_neg unused]
    have isUsed : zone.useDaylight = true := by
      rw [← Bool.not_eq_false]
      exact fun isFalse => unused (.inl isFalse)
    obtain ⟨nonneg, below⟩ := small isUsed
    by_cases daylight : zone.isDaylight month (staticMonthLength (month : Nat)) day dayOfWeek
        millis = true
    · rw [if_pos daylight]
      exact ⟨zone.dstSavings, nonneg, below, rfl⟩
    · rw [if_neg daylight]
      exact ⟨0, le_refl 0, by decide, by rw [raw]⟩

/-- A `TimeZoneImpl` whose savings are less than a day. -/
def TimeZoneImpl.timeZone (zone : TimeZoneImpl) (inRange : InRange zone.rawOffset)
    (small : zone.useDaylight = true → 0 ≤ zone.dstSavings ∧ zone.dstSavings < oneDay) :
    TimeZone where
  rawOffset := zone.rawOffset
  inRange := inRange
  getOffset := zone.getOffset
  offsets year day dayOfWeek millis _ inYear first last weekFirst weekLast nonneg below :=
    zone.getOffset_offsets inRange small year day dayOfWeek millis inYear ⟨first, last⟩
      ⟨weekFirst, weekLast⟩ ⟨nonneg, below⟩

/-- The fields of a calendar. -/
structure Fields where
  year : Int
  month : Int
  date : Int
  dayOfWeek : Int
  amPm : Int
  hour : Int
  hourOfDay : Int
  minute : Int
  second : Int
  millisecond : Int
  deriving DecidableEq, Repr

/-- A sum that wraps around is pinned to `Long.MAX_VALUE` or `Long.MIN_VALUE`. -/
def pinSum (value offset : Int) : Int :=
  let sum := signedLong (value + offset)
  if 0 < value ∧ sum < 0 ∧ 0 < offset then
    longMaxValue
  else if value < 0 ∧ 0 < sum ∧ offset < 0 then
    longMinValue
  else
    sum

/-- The fields of the time of the day, filled in with those of the date. -/
def fillFields (date : DateFields) (millisInDay : Int) : Fields :=
  let seconds := millisInDay.tdiv 1000
  let minutes := seconds.tdiv 60
  let hours := minutes.tdiv 60
  { year := date.year
    month := date.month
    date := date.date
    dayOfWeek := date.dayOfWeek
    amPm := hours.tdiv 12
    hour := hours.tmod 12
    hourOfDay := hours
    minute := minutes.tmod 60
    second := seconds.tmod 60
    millisecond := millisInDay.tmod 1000 }

/-- The milliseconds from the beginning of the day. -/
def standardMillis (localMillis : Int) : Int :=
  let days := localMillis.tdiv oneDay
  let millisInDay := signed (localMillis - days * oneDay)
  if millisInDay < 0 then millisInDay + oneDay else millisInDay

/-- `computeFields`. -/
def computeFields (zone : TimeZone) (time : Int) : Option Fields := do
  let localMillis := pinSum time zone.rawOffset
  let date ← timeToFields localMillis
  let standard := standardMillis localMillis
  let offset ← zone.getOffset 1 date.year date.month date.date date.dayOfWeek standard
  let dstOffset := signed (offset - zone.rawOffset)
  let millisInDay := signed (standard + dstOffset)
  if oneDay ≤ millisInDay then
    let date ← timeToFields (pinSum localMillis dstOffset)
    some (fillFields date (millisInDay - oneDay))
  else
    some (fillFields date millisInDay)

/-! ## Divisions round down -/

theorem floorDivide_eq
    (numerator : Int) {denominator : Int}
    (positive : 0 < denominator) :
    floorDivide numerator denominator = numerator / denominator :=
  floor_of_tdiv numerator positive

/-- The remainder is right even where the quotient does not fit. -/
theorem floorDivideRem_eq
    (numerator : Int) {denominator : Int}
    (positive : 0 < denominator)
    (fits : denominator ≤ 2147483648) :
    floorDivideRem numerator denominator =
      (signed (numerator / denominator), numerator % denominator) := by
  have nonneg := Int.emod_nonneg numerator positive.ne'
  have below := Int.emod_lt_of_pos numerator positive
  have remainder : signed (numerator % denominator) = numerator % denominator :=
    signed_of_inRange ⟨by omega, by omega⟩
  rw [floorDivideRem]
  split
  case isTrue isNonneg =>
    rw [Int.tdiv_eq_ediv_of_nonneg isNonneg, Int.tmod_eq_emod_of_nonneg isNonneg, remainder]
  case isFalse isNegative =>
    have quotient := floorDivide_eq numerator positive
    rw [floorDivide, if_neg isNegative] at quotient
    dsimp only
    rw [quotient]
    have cut : signed (numerator - signed (signed (numerator / denominator) * denominator)) =
        signed (numerator - numerator / denominator * denominator) := by
      simp only [signed, Int.sub_bmod_bmod, Int.bmod_mul_bmod]
    rw [cut, sub_floor_mul, remainder]

/-- The Julian day of a time. -/
def dayOf (millis : Int) : Int :=
  epochJulianDay + millis / oneDay

theorem millisToJulianDay_eq (millis : Int) :
    millisToJulianDay millis = dayOf millis := by
  rw [millisToJulianDay, floorDivide_eq millis (by decide), dayOf]

/-! ## The date of a day -/

theorem yearLength_bounds (leap : Bool) : 365 ≤ yearLength leap ∧ yearLength leap ≤ 366 := by
  cases leap <;> decide

/-- A year of 365 days inside of its cycles of 4, 100 and 400 years. -/
theorem daysBeforeYear_of_cycles
    (n400 : Int) {n100 n4 n1 : Int}
    (century : 0 ≤ n100 ∧ n100 ≤ 3)
    (fourYears : 0 ≤ n4 ∧ n4 ≤ 24)
    (single : 0 ≤ n1 ∧ n1 ≤ 3) :
    daysBeforeYear .gregorian (400 * n400 + 100 * n100 + 4 * n4 + n1 + 1) =
      146097 * n400 + 36524 * n100 + 1461 * n4 + 365 * n1 := by
  have fourths : (400 * n400 + 100 * n100 + 4 * n4 + n1) / 4 = 100 * n400 + 25 * n100 + n4 := by
    omega
  have hundredths : (400 * n400 + 100 * n100 + 4 * n4 + n1) / 100 = 4 * n400 + n100 := by
    omega
  have cycles : (400 * n400 + 100 * n100 + 4 * n4 + n1) / 400 = n400 := by
    omega
  rw [daysBeforeYear, Int.add_sub_cancel, fourths, hundredths, cycles]
  omega

/-- The years that end a cycle of 400 years, and four years of a century. -/
theorem isLeap_of_cycles (n400 : Int) :
    isLeap .gregorian (400 * n400 + 100 * 4 + 4 * 0 + 0) = true ∧
      ∀ n100 n4 : Int, 0 ≤ n4 → n4 ≤ 23 →
        isLeap .gregorian (400 * n400 + 100 * n100 + 4 * n4 + 4) = true := by
  constructor
  · simp only [isLeap, decide_eq_true_eq]
    omega
  · intro n100 n4 low high
    simp only [isLeap, decide_eq_true_eq]
    omega

/-- How often a cycle fits into some days, and the days that are left over. -/
theorem cycles_split
    {days length count : Int}
    (positive : 0 < length)
    (nonneg : 0 ≤ days)
    (below : days < count * length) :
    length * (days / length) + days % length = days ∧
      (0 ≤ days / length ∧ days / length < count) ∧
        0 ≤ days % length ∧ days % length < length :=
  ⟨Int.mul_ediv_add_emod days length,
    ⟨Int.ediv_nonneg nonneg positive.le, Int.ediv_lt_of_lt_mul positive below⟩,
    Int.emod_nonneg days positive.ne', Int.emod_lt_of_pos days positive⟩

/-- The counts of the cycles, and the year they make, fit into 32 bits. -/
theorem cycles_fit
    {n400 n100 n4 n1 : Int}
    (count400 : 0 ≤ n400 ∧ n400 < 1400000)
    (count100 : 0 ≤ n100 ∧ n100 < 5)
    (count4 : 0 ≤ n4 ∧ n4 < 25)
    (count1 : 0 ≤ n1 ∧ n1 < 5) :
    signed n400 = n400 ∧ signed n100 = n100 ∧ signed n4 = n4 ∧ signed n1 = n1 ∧
      signed (400 * n400 + 100 * n100 + 4 * n4 + n1) = 400 * n400 + 100 * n100 + 4 * n4 + n1 ∧
      signed (400 * n400 + 100 * n100 + 4 * n4 + n1 + 1) =
        400 * n400 + 100 * n100 + 4 * n4 + n1 + 1 := by
  refine ⟨?_, ?_, ?_, ?_, ?_, ?_⟩ <;> exact signed_of_inRange ⟨by omega, by omega⟩

/-- The last day of a cycle of 4 or 400 years is one that the divisions leave over. -/
theorem gregorianYear_spec
    (day : Int)
    (nonneg : 0 ≤ day)
    (below : day < 200000000000) :
    ∃ year dayOfYear, gregorianYear day = (year, dayOfYear) ∧
      daysBeforeYear .gregorian year + dayOfYear = day ∧ 0 ≤ dayOfYear ∧
        dayOfYear < yearLength (isLeap .gregorian year) := by
  rw [gregorianYear]
  dsimp only
  rw [floorDivideRem_eq day (by decide) (by decide)]
  dsimp only
  rw [floorDivideRem_eq _ (by decide) (by decide)]
  dsimp only
  rw [floorDivideRem_eq _ (by decide) (by decide)]
  dsimp only
  rw [floorDivideRem_eq _ (by decide) (by decide)]
  dsimp only
  obtain ⟨whole400, count400, rest400⟩ :=
    cycles_split (show (0 : Int) < 146097 by decide) nonneg
      (show day < 1400000 * 146097 by omega)
  generalize day / 146097 = n400, day % 146097 = rest at *
  obtain ⟨whole100, count100, rest100⟩ :=
    cycles_split (show (0 : Int) < 36524 by decide) rest400.1 (show rest < 5 * 36524 by omega)
  generalize rest / 36524 = n100, rest % 36524 = rest' at *
  obtain ⟨whole4, count4, rest4⟩ :=
    cycles_split (show (0 : Int) < 1461 by decide) rest100.1 (show rest' < 25 * 1461 by omega)
  generalize rest' / 1461 = n4, rest' % 1461 = rest'' at *
  obtain ⟨whole1, count1, rest1⟩ :=
    cycles_split (show (0 : Int) < 365 by decide) rest4.1 (show rest'' < 5 * 365 by omega)
  generalize rest'' / 365 = n1, rest'' % 365 = dayOfYear at *
  obtain ⟨fits400, fits100, fits4, fits1, rawYearFits, yearFits⟩ :=
    cycles_fit count400 count100 count4 count1
  rw [fits400, fits100, fits4, fits1, rawYearFits, yearFits]
  clear fits400 fits100 fits4 fits1 rawYearFits yearFits nonneg below
  subst rest'' rest' rest day
  by_cases century : n100 = 4
  · refine ⟨_, _, if_pos (.inl century), ?_⟩
    obtain ⟨rfl, rfl, rfl⟩ : n4 = 0 ∧ n1 = 0 ∧ dayOfYear = 0 := by omega
    subst century
    rw [(isLeap_of_cycles n400).1]
    have begins : daysBeforeYear .gregorian (400 * n400 + 100 * 3 + 4 * 24 + 3 + 1) = _ :=
      daysBeforeYear_of_cycles n400 (by decide) (by decide) (by decide)
    have sameYear : 400 * n400 + 100 * 4 + 4 * 0 + 0 =
        400 * n400 + 100 * 3 + 4 * 24 + 3 + 1 := by omega
    rw [sameYear, begins]
    exact ⟨by omega, by decide, by decide⟩
  · by_cases leapDay : n1 = 4
    · refine ⟨_, _, if_pos (.inr leapDay), ?_⟩
      subst leapDay
      have inCentury : n4 ≤ 23 ∧ dayOfYear = 0 := by omega
      rw [(isLeap_of_cycles n400).2 n100 n4 count4.1 inCentury.1, inCentury.2]
      have begins :
          daysBeforeYear .gregorian (400 * n400 + 100 * n100 + 4 * n4 + 3 + 1) = _ :=
        daysBeforeYear_of_cycles n400 (by omega) (by omega) (by decide)
      have sameYear : 400 * n400 + 100 * n100 + 4 * n4 + 4 =
          400 * n400 + 100 * n100 + 4 * n4 + 3 + 1 := by omega
      rw [sameYear, begins]
      exact ⟨by omega, by decide, by decide⟩
    · have ordinary : ¬ (n100 = 4 ∨ n1 = 4) := by
        rintro (isFour | isFour)
        · exact century isFour
        · exact leapDay isFour
      refine ⟨_, _, if_neg ordinary, ?_⟩
      have begins :
          daysBeforeYear .gregorian (400 * n400 + 100 * n100 + 4 * n4 + n1 + 1) = _ :=
        daysBeforeYear_of_cycles n400 (by omega) (by omega) (by omega)
      have length := yearLength_bounds
        (isLeap .gregorian (400 * n400 + 100 * n100 + 4 * n4 + n1 + 1))
      rw [begins]
      exact ⟨by omega, rest1.1, by omega⟩

/-- The first day of the year may not fit into 32 bits; the day in the year is right because it
is small. -/
theorem julianYear_spec
    (day : Int)
    (above : -200000000000 < day)
    (below : day < 200000000000) :
    ∃ year dayOfYear, julianYear day = (year, dayOfYear) ∧
      daysBeforeYear .julian year + dayOfYear = day ∧ 0 ≤ dayOfYear ∧
        dayOfYear < yearLength (isLeap .julian year) := by
  rw [julianYear, floorDivide_eq _ (by decide)]
  have fits : signed ((4 * day + 1464) / 1461) = (4 * day + 1464) / 1461 :=
    signed_of_inRange ⟨by omega, by omega⟩
  rw [fits, floorDivide_eq _ (by decide)]
  have first := Int.mul_ediv_add_emod (4 * day + 1464) 1461
  have rest : 0 ≤ (4 * day + 1464) % 1461 ∧ (4 * day + 1464) % 1461 < 1461 := by omega
  generalize (4 * day + 1464) / 1461 = year at *
  generalize (4 * day + 1464) % 1461 = rem at *
  have small : 0 ≤ day - daysBeforeYear .julian year ∧
      day - daysBeforeYear .julian year < yearLength (isLeap .julian year) := by
    have quarters := Int.mul_ediv_add_emod year 4
    have quarter : year % 4 = 0 ∨ year % 4 = 1 ∨ year % 4 = 2 ∨ year % 4 = 3 := by omega
    simp only [daysBeforeYear, isLeap, yearLength, decide_eq_true_eq]
    rcases quarter with isRest | isRest | isRest | isRest
    all_goals
      rw [isRest] at quarters ⊢
      simp only [if_true, if_false, one_ne_zero, OfNat.ofNat_ne_zero]
      omega
  have length := yearLength_bounds (isLeap .julian year)
  have cut : signed (day - signed (signed (365 * (year - 1)) + (year - 1) / 4)) =
      day - daysBeforeYear .julian year := by
    rw [signed, signed, signed, Int.sub_bmod_bmod, ← Int.sub_bmod_bmod, Int.bmod_add_bmod,
      Int.sub_bmod_bmod]
    exact signed_of_inRange ⟨by rw [daysBeforeYear] at small; omega,
      by rw [daysBeforeYear] at small; omega⟩
  refine ⟨_, _, rfl, ?_⟩
  rw [cut]
  exact ⟨by omega, small⟩

/-- The formula gives the month of every day of the year. -/
theorem monthField_spec (leap : Bool) :
    ∀ dayOfYear : Nat, dayOfYear < 366 → (dayOfYear : Int) < yearLength leap →
      ∃ month < 12, monthField leap dayOfYear = (month : Nat) ∧
        arrayAt (numDays leap) (month : Int) = some (daysBeforeMonth leap month) ∧
        daysBeforeMonth leap month ≤ dayOfYear ∧
        dayOfYear < daysBeforeMonth leap month + monthLength leap month := by
  cases leap <;> decide +kernel

theorem finishFields_spec
    {reckoning : Reckoning} {year dayInYear : Int}
    (nonneg : 0 ≤ dayInYear)
    (below : dayInYear < yearLength (isLeap reckoning year))
    (weekDay : Int) :
    ∃ date, IsDate reckoning date ∧
      dayNumber reckoning date = daysBeforeYear reckoning year + dayInYear ∧
      finishFields year dayInYear (isLeap reckoning year) weekDay =
        some
          { year := shownYear date.year, month := date.month, date := date.day
            dayOfWeek := shownDayOfWeek weekDay } := by
  have length := yearLength_bounds (isLeap reckoning year)
  obtain ⟨month, inYear, monthEq, before, first, last⟩ :=
    monthField_spec (isLeap reckoning year) dayInYear.toNat (by omega) (by omega)
  rw [Int.toNat_of_nonneg nonneg] at monthEq first last
  refine ⟨⟨year, month, dayInYear - daysBeforeMonth (isLeap reckoning year) month + 1⟩,
    ⟨inYear, ?_, ?_⟩, ?_, ?_⟩
  · dsimp only
    omega
  · dsimp only
    omega
  · rw [dayNumber, dayOfYear]
    dsimp only
    omega
  · rw [finishFields, monthEq, before]

/-- Both branches of `timeToFields` give the day of the week. -/
theorem shownDayOfWeek_tmod
    (day : Int)
    (dayFits : -200000000000 < day ∧ day < 200000000000) :
    shownDayOfWeek (signed (day.tmod 7)) = day % 7 + 1 := by
  have cut : signed (day.tmod 7) = day.tmod 7 := by
    have nearZero := Int.tmod_lt_of_pos day (show (0 : Int) < 7 by decide)
    have notBelow := Int.lt_tmod_of_pos day (show (0 : Int) < 7 by decide)
    exact signed_of_inRange ⟨by omega, by omega⟩
  rw [cut, shownDayOfWeek]
  by_cases nonneg : 0 ≤ day
  · rw [Int.tmod_eq_emod_of_nonneg nonneg, if_neg (by omega)]
  · have negated : day.tmod 7 = -((-day) % 7) := by
      rw [← Int.tmod_eq_emod_of_nonneg (by omega), Int.neg_tmod, Int.neg_neg]
    rw [negated]
    split <;> omega

/-- The Julian day of the Gregorian cutover: 15 October 1582. -/
def cutoverDay : Int :=
  2299161

/-- The date of a time in the hybrid calendar. -/
structure Shows (fields : DateFields) (day : Int) (date : Date) : Prop where
  isHybridDate : IsHybridDate cutoverDay day date
  year : fields.year = shownYear date.year
  month : fields.month = date.month
  date : fields.date = date.day
  dayOfWeek : fields.dayOfWeek = dayOfWeek day

theorem cutover_iff (millis : Int) :
    gregorianCutover ≤ millis ↔ cutoverDay ≤ dayOf millis := by
  simp only [gregorianCutover, cutoverDay, dayOf, epochJulianDay, oneDay]
  omega

theorem timeToFields_shows
    {theTime : Int}
    (inRange : InLongRange theTime) :
    ∃ fields date, timeToFields theTime = some fields ∧ Shows fields (dayOf theTime) date := by
  have bounds : -200000000000 < dayOf theTime - 5000000 ∧
      dayOf theTime + 5000000 < 200000000000 := by
    unfold InLongRange at inRange
    simp only [dayOf, epochJulianDay, oneDay]
    omega
  rw [timeToFields, millisToJulianDay_eq]
  by_cases isGregorian : gregorianCutover ≤ theTime
  · have late := (cutover_iff theTime).mp isGregorian
    have reckoning : reckoningAt cutoverDay (dayOf theTime) = .gregorian :=
      if_neg (Int.not_lt.mpr late)
    obtain ⟨year, dayInYear, computed, whole, nonneg, below⟩ :=
      gregorianYear_spec (dayOf theTime - jan11JulianDay)
        (by simp only [cutoverDay, jan11JulianDay] at *; omega)
        (by simp only [jan11JulianDay]; omega)
    have weekDay := shownDayOfWeek_tmod (dayOf theTime - jan11JulianDay + 1)
      (by simp only [jan11JulianDay]; omega)
    obtain ⟨date, isDate, dayEq, finished⟩ := finishFields_spec nonneg below
      (signed ((dayOf theTime - jan11JulianDay + 1).tmod 7))
    have leapEq : decide (year % 4 = 0 ∧ (year.tmod 100 ≠ 0 ∨ year.tmod 400 = 0)) =
        isLeap .gregorian year := by
      simp only [isLeap, ← Int.dvd_iff_tmod_eq_zero, ← Int.dvd_iff_emod_eq_zero, ne_eq]
    rw [← leapEq] at finished
    rw [if_pos isGregorian]
    dsimp only
    rw [computed]
    refine ⟨_, date, finished, ⟨?_, ?_⟩, rfl, rfl, rfl, ?_⟩
    · rw [reckoning]
      exact isDate
    · rw [reckoning, julianDay, dayEq, whole, firstDay, jan11JulianDay]
      omega
    · dsimp only
      rw [weekDay, dayOfWeek, jan11JulianDay]
      omega
  · have early := Int.not_le.mp (mt (cutover_iff theTime).mpr isGregorian)
    have reckoning : reckoningAt cutoverDay (dayOf theTime) = .julian :=
      if_pos early
    obtain ⟨year, dayInYear, computed, whole, nonneg, below⟩ :=
      julianYear_spec (dayOf theTime - (jan11JulianDay - 2))
        (by simp only [jan11JulianDay]; omega)
        (by simp only [jan11JulianDay]; omega)
    have weekDay := shownDayOfWeek_tmod (dayOf theTime - (jan11JulianDay - 2) - 1)
      (by simp only [jan11JulianDay]; omega)
    obtain ⟨date, isDate, dayEq, finished⟩ := finishFields_spec nonneg below
      (signed ((dayOf theTime - (jan11JulianDay - 2) - 1).tmod 7))
    rw [if_neg isGregorian]
    dsimp only
    rw [computed]
    refine ⟨_, date, finished, ⟨?_, ?_⟩, rfl, rfl, rfl, ?_⟩
    · rw [reckoning]
      exact isDate
    · rw [reckoning, julianDay, dayEq, whole, firstDay, jan11JulianDay]
      omega
    · dsimp only
      rw [weekDay, dayOfWeek, jan11JulianDay]
      omega

/-- A zone accepts the dates of the hybrid calendar. -/
theorem hybridDate_arguments
    {day : Int} {date : Date}
    (isHybrid : IsHybridDate cutoverDay day date) :
    date.month < 12 ∧ 1 ≤ date.day ∧ date.day ≤ monthLength true date.month ∧
      1 ≤ dayOfWeek day ∧ dayOfWeek day ≤ 7 := by
  have isDate := isHybrid.isDate
  have longest : ∀ leap, ∀ month < 12, monthLength leap month ≤ monthLength true month := by
    decide
  have length := longest (isLeap (reckoningAt cutoverDay day) date.year) date.month
    isDate.month_lt
  rw [dayOfWeek]
  exact ⟨isDate.month_lt, isDate.one_le_day, isDate.day_le.trans length, by omega, by omega⟩

/-! ## All fields -/

theorem pinSum_eq
    {value offset : Int}
    (inRange : InLongRange value)
    (offsetInRange : InRange offset) :
    pinSum value offset = max longMinValue (min longMaxValue (value + offset)) := by
  unfold InLongRange at inRange
  unfold InRange at offsetInRange
  simp only [pinSum, signedLong, Int.bmod, longMaxValue, longMinValue]
  split <;> split <;> omega

theorem inLongRange_pinSum
    {value offset : Int}
    (inRange : InLongRange value)
    (offsetInRange : InRange offset) :
    InLongRange (pinSum value offset) := by
  rw [pinSum_eq inRange offsetInRange, InLongRange, longMaxValue, longMinValue]
  omega

theorem standardMillis_eq (localMillis : Int) :
    standardMillis localMillis = localMillis % oneDay := by
  have whole := Int.mul_tdiv_add_tmod localMillis oneDay
  have fits : signed (localMillis.tmod oneDay) = localMillis.tmod oneDay := by
    have below := Int.tmod_lt_of_pos localMillis (show 0 < oneDay by decide)
    have above := Int.lt_tmod_of_pos localMillis (show 0 < oneDay by decide)
    simp only [oneDay] at below above ⊢
    exact signed_of_inRange ⟨by omega, by omega⟩
  have rest : localMillis - localMillis.tdiv oneDay * oneDay = localMillis.tmod oneDay := by
    rw [Int.mul_comm]
    omega
  rw [standardMillis, rest, fits]
  by_cases nonneg : 0 ≤ localMillis
  · rw [Int.tmod_eq_emod_of_nonneg nonneg, if_neg]
    have bound := Int.emod_nonneg localMillis (show oneDay ≠ 0 by decide)
    omega
  · have negated : localMillis.tmod oneDay = -((-localMillis) % oneDay) := by
      rw [← Int.tmod_eq_emod_of_nonneg (by omega), Int.neg_tmod, Int.neg_neg]
    have above := Int.emod_nonneg (-localMillis) (show oneDay ≠ 0 by decide)
    rw [negated]
    by_cases isZero : -localMillis % oneDay = 0
    · rw [if_neg (by omega)]
      simp only [oneDay] at *
      omega
    · rw [if_pos (by omega)]
      simp only [oneDay] at *
      omega

/-- The fields of a date and a time of the day in the hybrid calendar, with the year counted from
one in both eras. -/
structure ShowsTime (fields : Fields) (day millisInDay : Int) (date : Date) : Prop where
  isHybridDate : IsHybridDate cutoverDay day date
  year : fields.year = if date.year < 1 then 1 - date.year else date.year
  month : fields.month = date.month
  date : fields.date = date.day
  dayOfWeek : fields.dayOfWeek = dayOfWeek day
  amPm : fields.amPm = millisInDay / 43200000
  hour : fields.hour = millisInDay / 3600000 % 12
  hourOfDay : fields.hourOfDay = millisInDay / 3600000
  minute : fields.minute = millisInDay / 60000 % 60
  second : fields.second = millisInDay / 1000 % 60
  millisecond : fields.millisecond = millisInDay % 1000

theorem Shows.fill
    {fields : DateFields} {day millisInDay : Int} {date : Date}
    (fieldsShow : Shows fields day date)
    (nonneg : 0 ≤ millisInDay) :
    ShowsTime (fillFields fields millisInDay) day millisInDay date := by
  have seconds : millisInDay.tdiv 1000 = millisInDay / 1000 :=
    Int.tdiv_eq_ediv_of_nonneg nonneg
  have minutes : (millisInDay / 1000).tdiv 60 = millisInDay / 60000 := by
    rw [Int.tdiv_eq_ediv_of_nonneg (by omega)]
    omega
  have hours : (millisInDay / 60000).tdiv 60 = millisInDay / 3600000 := by
    rw [Int.tdiv_eq_ediv_of_nonneg (by omega)]
    omega
  have halves : (millisInDay / 3600000).tdiv 12 = millisInDay / 43200000 := by
    rw [Int.tdiv_eq_ediv_of_nonneg (by omega)]
    omega
  refine ⟨fieldsShow.isHybridDate, fieldsShow.year, fieldsShow.month, fieldsShow.date,
    fieldsShow.dayOfWeek, ?_, ?_, ?_, ?_, ?_, ?_⟩
  all_goals simp only [fillFields, seconds, minutes, hours, halves]
  · exact Int.tmod_eq_emod_of_nonneg (by omega)
  · exact Int.tmod_eq_emod_of_nonneg (by omega)
  · exact Int.tmod_eq_emod_of_nonneg (by omega)
  · exact Int.tmod_eq_emod_of_nonneg nonneg

/-- For every time and every time zone there are fields, and they are those of the local time: the
sum of the time and the raw offset, pinned to 64 bits, and the savings at that standard time. A
date that the savings push past the end of the pinned range is that of its last day. -/
theorem computeFields_showsTime
    (zone : TimeZone) {time : Int}
    (inRange : InLongRange time) :
    ∃ fields standardDate date savings localMillis,
      IsHybridDate cutoverDay
        (dayOf (max longMinValue (min longMaxValue (time + zone.rawOffset)))) standardDate ∧
      zone.getOffset 1 (shownYear standardDate.year) standardDate.month standardDate.day
          (dayOfWeek (dayOf (max longMinValue (min longMaxValue (time + zone.rawOffset)))))
          (max longMinValue (min longMaxValue (time + zone.rawOffset)) % oneDay) =
        some (signed (zone.rawOffset + savings)) ∧
      0 ≤ savings ∧ savings < oneDay ∧
      localMillis = max longMinValue (min longMaxValue (time + zone.rawOffset)) + savings ∧
      computeFields zone time = some fields ∧
      ShowsTime fields (dayOf (min longMaxValue localMillis)) (localMillis % oneDay) date := by
  have standardEq := pinSum_eq inRange zone.inRange
  have standardInRange := inLongRange_pinSum inRange zone.inRange
  rw [← standardEq]
  generalize pinned : pinSum time zone.rawOffset = standard at *
  obtain ⟨dateFields, standardDate, computed, dateShows⟩ := timeToFields_shows standardInRange
  have ⟨inYear, first, last, weekFirst, weekLast⟩ :=
    hybridDate_arguments dateShows.isHybridDate
  rw [← dateShows.date] at first last
  rw [← dateShows.dayOfWeek] at weekFirst weekLast
  have millisNonneg := Int.emod_nonneg standard (show oneDay ≠ 0 by decide)
  have millisBelow := Int.emod_lt_of_pos standard (show 0 < oneDay by decide)
  obtain ⟨savings, savingsNonneg, savingsBelow, offset⟩ :=
    zone.offsets dateFields.year dateFields.date dateFields.dayOfWeek (standard % oneDay)
      standardDate.month inYear first last weekFirst weekLast millisNonneg millisBelow
  have dstOffset : signed (signed (zone.rawOffset + savings) - zone.rawOffset) = savings := by
    have cut : signed (signed (zone.rawOffset + savings) - zone.rawOffset) = signed savings := by
      rw [signed, signed, signed, Int.bmod_sub_bmod]
      congr 1
      omega
    rw [cut]
    simp only [oneDay] at savingsBelow
    exact signed_of_inRange ⟨by omega, by omega⟩
  have millisInDay : signed (standard % oneDay + savings) = standard % oneDay + savings := by
    simp only [oneDay] at savingsBelow millisBelow millisNonneg ⊢
    exact signed_of_inRange ⟨by omega, by omega⟩
  have savingsInRange : InRange savings := by
    have below : savings < 86400000 := savingsBelow
    exact ⟨by omega, by omega⟩
  have asked := offset
  rw [dateShows.year, dateShows.date, dateShows.dayOfWeek] at asked
  have run : computeFields zone time =
      if oneDay ≤ standard % oneDay + savings then do
        let date ← timeToFields (pinSum standard savings)
        some (fillFields date (standard % oneDay + savings - oneDay))
      else
        some (fillFields dateFields (standard % oneDay + savings)) := by
    rw [computeFields, pinned]
    simp only [computed, dateShows.month, standardMillis_eq, offset, dstOffset, millisInDay,
      Option.bind_eq_bind, Option.bind_some]
  rw [run]
  by_cases nextDay : oneDay ≤ standard % oneDay + savings
  · have nextEq := pinSum_eq standardInRange savingsInRange
    obtain ⟨nextFields, date, nextComputed, nextShows⟩ :=
      timeToFields_shows (inLongRange_pinSum standardInRange savingsInRange)
    have sameDay : dayOf (pinSum standard savings) =
        dayOf (min longMaxValue (standard + savings)) := by
      rw [nextEq]
      unfold InLongRange at standardInRange
      simp only [longMinValue, longMaxValue]
      congr 1
      omega
    have sameMillis : standard % oneDay + savings - oneDay = (standard + savings) % oneDay := by
      simp only [oneDay] at *
      omega
    rw [sameDay] at nextShows
    rw [if_pos nextDay, nextComputed]
    refine ⟨_, standardDate, date, savings, _, dateShows.isHybridDate, asked, savingsNonneg,
      savingsBelow, rfl, rfl, ?_⟩
    rw [← sameMillis]
    exact nextShows.fill (by omega)
  · have sameDay : dayOf standard = dayOf (min longMaxValue (standard + savings)) := by
      unfold InLongRange at standardInRange
      simp only [dayOf, longMaxValue, oneDay] at *
      omega
    have sameMillis : standard % oneDay + savings = (standard + savings) % oneDay := by
      simp only [oneDay] at *
      omega
    rw [if_neg nextDay]
    refine ⟨_, standardDate, standardDate, savings, _, dateShows.isHybridDate, asked,
      savingsNonneg, savingsBelow, rfl, rfl, ?_⟩
    rw [← sameMillis, ← sameDay]
    exact dateShows.fill (by omega)

/-- The zone of central Europe. -/
def centralEuropeZone : TimeZone :=
  centralEurope.timeZone (by decide) (by decide)

/-- The last millisecond of 31 December of the year 1 BC. -/
theorem beforeYearOne_showsTime :
    ∃ fields standardDate date savings localMillis,
      IsHybridDate cutoverDay
        (dayOf (max longMinValue (min longMaxValue
          (-62135773200001 + centralEuropeZone.rawOffset)))) standardDate ∧
      centralEuropeZone.getOffset 1 (shownYear standardDate.year) standardDate.month
          standardDate.day
          (dayOfWeek (dayOf (max longMinValue (min longMaxValue
            (-62135773200001 + centralEuropeZone.rawOffset)))))
          (max longMinValue (min longMaxValue
            (-62135773200001 + centralEuropeZone.rawOffset)) % oneDay) =
        some (signed (centralEuropeZone.rawOffset + savings)) ∧
      0 ≤ savings ∧ savings < oneDay ∧
      localMillis = max longMinValue (min longMaxValue
        (-62135773200001 + centralEuropeZone.rawOffset)) + savings ∧
      computeFields centralEuropeZone (-62135773200001) = some fields ∧
      ShowsTime fields (dayOf (min longMaxValue localMillis)) (localMillis % oneDay) date :=
  computeFields_showsTime centralEuropeZone (show InLongRange (-62135773200001) by decide)

/-- East of Greenwich the last time of all is shown with the hour of Greenwich. -/
theorem maxValue_pinned :
    ¬ ∃ fields date,
      computeFields ((fixedZone 3600000).timeZone (by decide) (by decide)) longMaxValue =
          some fields ∧
        ShowsTime fields (dayOf (longMaxValue + 3600000)) ((longMaxValue + 3600000) % oneDay)
          date := by
  rintro ⟨fields, date, computed, fieldsShow⟩
  have hours : (computeFields ((fixedZone 3600000).timeZone (by decide) (by decide))
      longMaxValue).map Fields.hourOfDay = some 7 := by
    decide
  rw [computed, Option.map_some, Option.some.injEq] at hours
  have shown := fieldsShow.hourOfDay
  rw [hours] at shown
  exact absurd shown (by decide)

end PicoJvm.Time
