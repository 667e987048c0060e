import PicoJvm.Time.CalendarFields

/-!
# The calls of a calendar

A calendar holds a time and fields, which are made of each other when they are needed. Setting a
field makes the time invalid and sets a flag of the field; setting the time makes the fields and
leaves the flags as they are.
-/

namespace PicoJvm.Time

open PicoJvm.Lib.Calendars
open PicoJvm.Lib.LongInteger
open PicoJvm.Lib.Machine

/-! ## State -/

/-- The constants of `Calendar`, and the numbers that are no field. -/
inductive Field
  | year | month | date | dayOfWeek | amPm | hour | hourOfDay | minute | second | millisecond
  | other (index : Int)
  deriving DecidableEq, Repr

/-- `fields[field]`. -/
def Fields.at (fields : Fields) : Field → Int
  | .year => fields.year
  | .month => fields.month
  | .date => fields.date
  | .dayOfWeek => fields.dayOfWeek
  | .amPm => fields.amPm
  | .hour => fields.hour
  | .hourOfDay => fields.hourOfDay
  | .minute => fields.minute
  | .second => fields.second
  | .millisecond => fields.millisecond
  | .other _ => 0

/-- `fields[field] = value`; the numbers that are no field are never read. -/
def Fields.put (fields : Fields) (value : Int) : Field → Fields
  | .year => { fields with year := value }
  | .month => { fields with month := value }
  | .date => { fields with date := value }
  | .dayOfWeek => { fields with dayOfWeek := value }
  | .amPm => { fields with amPm := value }
  | .hour => { fields with hour := value }
  | .hourOfDay => { fields with hourOfDay := value }
  | .minute => { fields with minute := value }
  | .second => { fields with second := value }
  | .millisecond => { fields with millisecond := value }
  | .other _ => fields

/-- The flags of `isSet` that are read. -/
structure Flags where
  dayOfWeek : Bool
  amPm : Bool
  hour : Bool
  hourOfDay : Bool
  deriving DecidableEq, Repr

/-- A `CalendarImpl`, but for its zone. -/
structure CalendarState where
  fields : Fields
  isSet : Flags
  time : Int
  isTimeSet : Bool
  deriving DecidableEq, Repr

/-! ## From the fields to the time -/

/-- `julianDayToMillis`. -/
def julianDayToMillis (julian : Int) : Int :=
  signedLong ((julian - epochJulianDay) * oneDay)

/-- `julianDayToDayOfWeek`. -/
def julianDayToDayOfWeek (julian : Int) : Int :=
  shownDayOfWeek (signed ((julian + 1).tmod 7))

/-- `calculateJulianDay`. The month is an index of the tables after it has been adjusted. -/
def calculateJulianDay (fields : Fields) (isGregorian : Bool) (year : Int) : Option Int :=
  let outside := fields.month < 0 ∨ 11 < fields.month
  let (quotient, remainder) := floorDivideRem fields.month 12
  let year := if outside then signed (year + quotient) else year
  let month := if outside then remainder else fields.month
  let yearBefore := signed (year - 1)
  let isLeapYear :=
    decide (year.tmod 4 = 0 ∧
      (isGregorian = true → year.tmod 100 ≠ 0 ∨ year.tmod 400 = 0))
  let julianDay := 365 * yearBefore + floorDivide yearBefore 4 + (jan11JulianDay - 3) +
    if isGregorian then floorDivide yearBefore 400 - floorDivide yearBefore 100 + 2 else 0
  match arrayAt (numDays isLeapYear) month with
  | none => none
  | some before => some (julianDay + before + fields.date)

/-- `correctTime`. -/
def correctTime (state : CalendarState) : CalendarState :=
  if state.isSet.hourOfDay then
    let value := state.fields.hourOfDay.tmod 24
    { state with
      fields := { state.fields with hourOfDay := value, amPm := if value < 12 then 0 else 1 }
      isSet := { state.isSet with hourOfDay := false } }
  else if state.isSet.hour ∨ state.isSet.amPm then
    let value := state.fields.hour
    let fields :=
      if 12 < value then
        { state.fields with
          hourOfDay := signed (value.tmod 12 + 12), hour := value.tmod 12, amPm := 1 }
      else if state.fields.amPm = 1 then
        { state.fields with hourOfDay := signed (value.tmod 12 + 12) }
      else
        { state.fields with hourOfDay := value }
    { state with fields, isSet := { state.isSet with amPm := false, hour := false } }
  else
    state

/-- The Julian day that is computed first, moved to the day of the week where that has been set.
The date is moved as well, but by the distance that is left then. -/
def guessDay (state : CalendarState) (julianDay : Int) : Int × Fields :=
  let fields := state.fields
  if state.isSet.dayOfWeek ∧ 1 ≤ fields.dayOfWeek ∧ fields.dayOfWeek ≤ 7 then
    let julianDay := julianDay + (fields.dayOfWeek - julianDayToDayOfWeek julianDay)
    (julianDay,
      { fields with
        date := signed (fields.date + (fields.dayOfWeek - julianDayToDayOfWeek julianDay)) })
  else
    (julianDay, fields)

/-- The Julian day, computed again for the other calendar when the first guess was wrong. The
number stands for the first day of all. -/
def settleDay (fields : Fields) (isGregorian : Bool) (julianDay : Int) : Option Int :=
  if isGregorian ≠ decide (gregorianCutover ≤ julianDayToMillis julianDay) ∧
      julianDay ≠ -106749550580 then
    calculateJulianDay fields (!isGregorian) fields.year
  else
    some julianDay

/-- The end of `computeTime`: the time of a day and of the fields. Arithmetic of `int` is cut
once, for it wraps around. -/
def timeOfFields (zone : TimeZone) (fields : Fields) (julianDay : Int) : Option Int :=
  let millisInDay := signed (((fields.hourOfDay * 60 + fields.minute) * 60 + fields.second) *
    1000 + fields.millisecond)
  let millis := signedLong (julianDayToMillis julianDay + millisInDay)
  let normalizedMillisInDay := (floorDivideRem millis oneDay).2
  match zone.getOffset 1 fields.year fields.month fields.date (julianDayToDayOfWeek julianDay)
      normalizedMillisInDay with
  | none => none
  | some offset =>
      some (signedLong (millis - zone.rawOffset - signed (offset - zone.rawOffset)))

/-- `computeTime`, and whether it returns; an exception keeps what has been done to the fields. -/
def computeTime (zone : TimeZone) (state : CalendarState) : CalendarState × Bool :=
  let state := correctTime state
  let year := state.fields.year
  let isGregorian := decide (1582 ≤ year)
  match calculateJulianDay state.fields isGregorian year with
  | none => (state, false)
  | some julianDay =>
      let (julianDay, fields) := guessDay state julianDay
      let state := { state with fields }
      match settleDay fields isGregorian julianDay with
      | none => (state, false)
      | some julianDay =>
          match timeOfFields zone fields julianDay with
          | none => (state, false)
          | some time => ({ state with time }, true)

/-! ## Calls -/

/-- `getTimeInMillis`, but for the result. -/
def ensureTime (zone : TimeZone) (state : CalendarState) : CalendarState × Bool :=
  if state.isTimeSet then
    (state, true)
  else
    let (state, returned) := computeTime zone state
    if returned then ({ state with isTimeSet := true }, true) else (state, false)

/-- `setTimeInMillis`, unless there is an exception. -/
def setTimeInMillis (zone : TimeZone) (millis : Int) (state : CalendarState) :
    Option CalendarState :=
  match computeFields zone millis with
  | none => none
  | some fields => some { state with fields, time := millis, isTimeSet := true }

/-- A call on a calendar. -/
inductive Call
  | getTime
  | get (field : Field)
  | set (field : Field) (value : Int)
  deriving DecidableEq, Repr

/-- `get` makes the fields again. -/
def Refreshes (isSet : Flags) : Field → Prop
  | .dayOfWeek | .hourOfDay | .amPm | .hour => True
  | .date | .month | .year => isSet.dayOfWeek = true
  | .minute | .second | .millisecond | .other _ => False

instance (isSet : Flags) (field : Field) : Decidable (Refreshes isSet field) := by
  cases field <;> unfold Refreshes <;> infer_instance

/-- The flags after `set`. -/
def Flags.afterSet (isSet : Flags) (value : Int) : Field → Flags
  | .hourOfDay => { isSet with hour := false, amPm := false, hourOfDay := true }
  | .hour => { isSet with hourOfDay := false, hour := true }
  | .amPm =>
      if value = 0 ∨ value = 1 then { isSet with hourOfDay := false, amPm := true }
      else { isSet with amPm := true }
  | .date => { isSet with dayOfWeek := false }
  | .dayOfWeek => { isSet with dayOfWeek := true }
  | .year | .month | .minute | .second | .millisecond | .other _ => isSet

/-- What a call returns, where an exception and a call without a result return nothing, and the
state after it. -/
def call (zone : TimeZone) (state : CalendarState) : Call → Option Int × CalendarState
  | .getTime =>
      let (state, returned) := ensureTime zone state
      (if returned then some state.time else none, state)
  | .get field =>
      if Refreshes state.isSet field then
        let (state, returned) := ensureTime zone state
        if returned then
          match computeFields zone state.time with
          | none => (none, state)
          | some fields => (some (fields.at field), { state with fields })
        else
          (none, state)
      else
        match field with
        | .other _ => (none, state)
        | _ => (some (state.fields.at field), state)
  | .set field value =>
      (none,
        { state with
          isTimeSet := false
          isSet := state.isSet.afterSet value field
          fields := state.fields.put value field })

/-- What the calls of a sequence return. -/
def returns (zone : TimeZone) : List Call → CalendarState → List (Option Int)
  | [], _ => []
  | next :: calls, state =>
      (call zone state next).1 :: returns zone calls (call zone state next).2

/-- `set(field, get(field))` for each of the fields; nothing when `get` throws an exception. -/
def setToItself (zone : TimeZone) : List Field → CalendarState → Option CalendarState
  | [], state => some state
  | field :: fields, state =>
      match call zone state (.get field) with
      | (none, _) => none
      | (some value, state) => setToItself zone fields (call zone state (.set field value)).2

/-! ## The day of fields that belong together -/

/-- The calendar that `calculateJulianDay` is told to use. -/
def reckoningOf (isGregorian : Bool) : Reckoning :=
  if isGregorian then .gregorian else .julian

theorem numDays_eq (leap : Bool) :
    ∀ month < 12, arrayAt (numDays leap) (month : Nat) = some (daysBeforeMonth leap month) := by
  cases leap <;> decide

theorem calculateJulianDay_eq
    {fields : Fields} (year : Int) {month : Nat}
    (inYear : month < 12)
    (monthEq : fields.month = month)
    (yearInRange : -2147483648 < year ∧ year < 2147483648)
    (isGregorian : Bool) :
    calculateJulianDay fields isGregorian year =
      some (julianDay (reckoningOf isGregorian) ⟨year, month, fields.date⟩) := by
  have inside : ¬ ((month : Int) < 0 ∨ 11 < (month : Int)) := by omega
  have before : signed (year - 1) = year - 1 := signed_of_inRange ⟨by omega, by omega⟩
  have leapEq : decide (year.tmod 4 = 0 ∧
      (isGregorian = true → year.tmod 100 ≠ 0 ∨ year.tmod 400 = 0)) =
        isLeap (reckoningOf isGregorian) year := by
    cases isGregorian with
    | false =>
        simp [reckoningOf, isLeap, ← Int.dvd_iff_tmod_eq_zero, ← Int.dvd_iff_emod_eq_zero]
    | true =>
        simp [reckoningOf, isLeap, ← Int.dvd_iff_tmod_eq_zero, ← Int.dvd_iff_emod_eq_zero]
  rw [calculateJulianDay, monthEq]
  simp only [if_neg inside, before, leapEq, numDays_eq _ month inYear,
    floorDivide_eq (year - 1) (show (0 : Int) < 4 by decide),
    floorDivide_eq (year - 1) (show (0 : Int) < 100 by decide),
    floorDivide_eq (year - 1) (show (0 : Int) < 400 by decide), Option.some.injEq]
  rw [julianDay, dayNumber, dayOfYear]
  cases isGregorian with
  | false =>
      simp only [reckoningOf, firstDay, daysBeforeYear, jan11JulianDay, Bool.false_eq_true,
        if_false]
      omega
  | true =>
      simp only [reckoningOf, firstDay, daysBeforeYear, jan11JulianDay, if_true]
      omega

theorem julianDayToDayOfWeek_eq
    (julian : Int)
    (fits : -160000000000 < julian ∧ julian < 160000000000) :
    julianDayToDayOfWeek julian = dayOfWeek julian := by
  rw [julianDayToDayOfWeek, shownDayOfWeek_tmod (julian + 1) (by omega), dayOfWeek]

/-- The date is never moved: the distance is taken after the day has been moved. -/
theorem guessDay_spec
    (state : CalendarState) (julian : Int)
    (fits : -150000000000 < julian ∧ julian < 150000000000)
    (dateInRange : InRange state.fields.date) :
    ∃ day, guessDay state julian = (day, state.fields) ∧ julian - 6 ≤ day ∧ day ≤ julian + 6 ∧
      (state.fields.dayOfWeek = dayOfWeek julian → day = julian) := by
  have weekDay := julianDayToDayOfWeek_eq julian ⟨by omega, by omega⟩
  have inWeek : 1 ≤ dayOfWeek julian ∧ dayOfWeek julian ≤ 7 := by
    rw [dayOfWeek]
    omega
  rw [guessDay]
  by_cases isSet : state.isSet.dayOfWeek = true ∧ 1 ≤ state.fields.dayOfWeek ∧
      state.fields.dayOfWeek ≤ 7
  · have first := isSet.2.1
    have last := isSet.2.2
    have moved := julianDayToDayOfWeek_eq
      (julian + (state.fields.dayOfWeek - dayOfWeek julian)) ⟨by omega, by omega⟩
    have arrived : dayOfWeek (julian + (state.fields.dayOfWeek - dayOfWeek julian)) =
        state.fields.dayOfWeek := by
      rw [dayOfWeek, dayOfWeek]
      omega
    refine ⟨julian + (state.fields.dayOfWeek - dayOfWeek julian), ?_, by omega, by omega,
      by omega⟩
    rw [if_pos isSet, weekDay]
    dsimp only
    rw [moved, arrived, Int.sub_self, Int.add_zero, signed_of_inRange dateInRange]
  · rw [if_neg isSet]
    exact ⟨julian, rfl, by omega, by omega, fun _ => rfl⟩

/-! ## Years and the cutover -/

theorem year_bounds
    {reckoning : Reckoning} {date : Date} {day : Int}
    (isDate : IsDate reckoning date)
    (dayEq : julianDay reckoning date = day)
    (fits : -150000000000 < day ∧ day < 150000000000) :
    -2147483647 < date.year ∧ date.year < 2147483647 := by
  have bounds := isDate.dayOfYear_bounds
  have length := yearLength_bounds (isLeap reckoning date.year)
  rw [julianDay, dayNumber] at dayEq
  cases reckoning with
  | julian =>
      simp only [firstDay, daysBeforeYear] at *
      omega
  | gregorian =>
      simp only [firstDay, daysBeforeYear] at *
      omega

theorem year_of_gregorian
    {date : Date}
    (isDate : IsDate .gregorian date)
    (late : cutoverDay ≤ julianDay .gregorian date) :
    1582 ≤ date.year := by
  have bounds := isDate.dayOfYear_bounds
  rw [julianDay, dayNumber, cutoverDay] at late
  by_contra isEarly
  have distance := daysBeforeYear_le .gregorian (Int.not_le.mp isEarly)
  have start : daysBeforeYear .gregorian 1582 = 577448 := rfl
  have first : firstDay .gregorian = 1721426 := rfl
  omega

theorem year_of_julian
    {date : Date}
    (isDate : IsDate .julian date)
    (early : julianDay .julian date < cutoverDay) :
    date.year ≤ 1582 := by
  have bounds := isDate.dayOfYear_bounds
  rw [julianDay, dayNumber, cutoverDay] at early
  by_contra isLate
  have distance := daysBeforeYear_le .julian (Int.not_le.mp isLate)
  have start : daysBeforeYear .julian 1582 = 577460 := rfl
  have length : yearLength (isLeap .julian 1582) = 365 := rfl
  have first : firstDay .julian = 1721424 := rfl
  omega

/-- In the year of the cutover the calendars are ten days apart. -/
theorem julianDay_cutoverYear (month : Nat) (day : Int) :
    julianDay .gregorian ⟨1582, month, day⟩ = julianDay .julian ⟨1582, month, day⟩ - 10 := by
  have gregorianStart : firstDay .gregorian + daysBeforeYear .gregorian 1582 = 2298874 := rfl
  have julianStart : firstDay .julian + daysBeforeYear .julian 1582 = 2298884 := rfl
  have sameDay : dayOfYear .gregorian ⟨1582, month, day⟩ = dayOfYear .julian ⟨1582, month, day⟩ :=
    rfl
  simp only [julianDay, dayNumber, sameDay]
  omega

/-! ## Fields of a time -/

/-- The fields of a local time in the era AD. -/
structure FieldsOf (fields : Fields) (localMillis : Int) (date : Date) : Prop where
  showsTime : ShowsTime fields (dayOf localMillis) (localMillis % oneDay) date
  inRange : InLongRange localMillis
  isAD : 1 ≤ date.year

theorem FieldsOf.day_bounds
    {fields : Fields} {localMillis : Int} {date : Date}
    (fieldsOf : FieldsOf fields localMillis date) :
    1721424 ≤ dayOf localMillis ∧ dayOf localMillis < 150000000000 := by
  have inRange := fieldsOf.inRange
  have isAD := fieldsOf.isAD
  have hybrid := fieldsOf.showsTime.isHybridDate
  have dayEq := hybrid.julianDay_eq
  have bounds := hybrid.isDate.dayOfYear_bounds
  have below : dayOf localMillis < 150000000000 := by
    unfold InLongRange at inRange
    simp only [dayOf, epochJulianDay, oneDay]
    omega
  refine ⟨?_, below⟩
  rw [julianDay, dayNumber] at dayEq
  generalize reckoningAt cutoverDay (dayOf localMillis) = reckoning at *
  cases reckoning with
  | julian =>
      simp only [firstDay, daysBeforeYear] at dayEq
      omega
  | gregorian =>
      simp only [firstDay, daysBeforeYear] at dayEq
      omega

theorem julianDayToMillis_eq
    {localMillis : Int}
    (inRange : InLongRange localMillis)
    (late : 1721424 ≤ dayOf localMillis) :
    julianDayToMillis (dayOf localMillis) = localMillis - localMillis % oneDay := by
  unfold InLongRange at inRange
  have day : (dayOf localMillis - epochJulianDay) * oneDay =
      localMillis - localMillis % oneDay := by
    simp only [dayOf, epochJulianDay, oneDay]
    omega
  rw [julianDayToMillis, day]
  apply signedLong_of_inLongRange
  simp only [dayOf, epochJulianDay, oneDay, InLongRange] at *
  omega

/-- A zone that adds no savings to its raw offset. -/
def TimeZone.IsFixed (zone : TimeZone) : Prop :=
  ∀ year day dayOfWeek millis (month : Nat), month < 12 → 1 ≤ day →
    day ≤ monthLength true month → 1 ≤ dayOfWeek → dayOfWeek ≤ 7 → 0 ≤ millis →
    millis < oneDay → zone.getOffset 1 year month day dayOfWeek millis = some zone.rawOffset

/-- The hours of the fields belong together. -/
def HoursAgree (fields : Fields) : Prop :=
  0 ≤ fields.hourOfDay ∧ fields.hourOfDay < 24 ∧
    fields.amPm = (if fields.hourOfDay < 12 then 0 else 1) ∧
    fields.hour = fields.hourOfDay - 12 * fields.amPm

theorem ShowsTime.hoursAgree
    {fields : Fields} {day millisInDay : Int} {date : Date}
    (fieldsShow : ShowsTime fields day millisInDay date)
    (inDay : 0 ≤ millisInDay ∧ millisInDay < oneDay) :
    HoursAgree fields := by
  simp only [oneDay] at inDay
  rw [HoursAgree, fieldsShow.hourOfDay, fieldsShow.hour, fieldsShow.amPm]
  refine ⟨by omega, by omega, ?_, by omega⟩
  split <;> omega

/-- Nothing but flags is changed where the hours belong together. -/
theorem correctTime_of_hoursAgree
    {state : CalendarState}
    (hoursAgree : HoursAgree state.fields) :
    ∃ isSet, correctTime state = { state with isSet } := by
  have ⟨nonneg, below, amPm, hour⟩ := hoursAgree
  rw [correctTime]
  by_cases hourOfDaySet : state.isSet.hourOfDay = true
  · have sameHour : state.fields.hourOfDay.tmod 24 = state.fields.hourOfDay := by
      rw [Int.tmod_eq_emod_of_nonneg nonneg]
      omega
    refine ⟨{ state.isSet with hourOfDay := false }, ?_⟩
    rw [if_pos hourOfDaySet, sameHour]
    dsimp only
    rw [← amPm]
  · rw [if_neg hourOfDaySet]
    by_cases hourSet : state.isSet.hour = true ∨ state.isSet.amPm = true
    · refine ⟨{ state.isSet with amPm := false, hour := false }, ?_⟩
      have small : ¬ 12 < state.fields.hour := by
        split at amPm <;> omega
      rw [if_pos hourSet]
      dsimp only
      rw [if_neg small]
      by_cases isPM : state.fields.amPm = 1
      · have sameHour : signed (state.fields.hour.tmod 12 + 12) = state.fields.hourOfDay := by
          have inHalf : 0 ≤ state.fields.hour ∧ state.fields.hour < 12 := by
            split at amPm <;> omega
          rw [Int.tmod_eq_emod_of_nonneg inHalf.1, signed_of_inRange ⟨by omega, by omega⟩]
          omega
        rw [if_pos isPM, sameHour]
      · have sameHour : state.fields.hour = state.fields.hourOfDay := by
          split at amPm <;> omega
        have unchanged : ({ state.fields with hourOfDay := state.fields.hour } : Fields) =
            state.fields :=
          congrArg (fun value => ({ state.fields with hourOfDay := value } : Fields)) sameHour
        rw [if_neg isPM, unchanged]
    · rw [if_neg hourSet]
      exact ⟨state.isSet, rfl⟩

theorem julianDayToMillis_before
    {day : Int}
    (bounds : 0 ≤ day ∧ day < 10000000) :
    julianDayToMillis day = (day - epochJulianDay) * oneDay := by
  apply signedLong_of_inLongRange
  simp only [epochJulianDay, oneDay, InLongRange]
  omega

/-- Whichever calendar the year suggests, the day of the fields is found. -/
theorem FieldsOf.settles
    {state : CalendarState} {localMillis : Int} {date : Date}
    (fieldsOf : FieldsOf state.fields localMillis date) :
    ∃ guess day,
      calculateJulianDay state.fields (decide (1582 ≤ state.fields.year)) state.fields.year =
        some guess ∧
      guessDay state guess = (day, state.fields) ∧
      settleDay state.fields (decide (1582 ≤ state.fields.year)) day =
        some (dayOf localMillis) := by
  have shows := fieldsOf.showsTime
  have isDate := shows.isHybridDate.isDate
  have dayEq := shows.isHybridDate.julianDay_eq
  have ⟨lower, upper⟩ := fieldsOf.day_bounds
  have yearInRange := year_bounds isDate dayEq ⟨by omega, upper⟩
  have yearEq : state.fields.year = date.year := by
    rw [shows.year, if_neg (by have := fieldsOf.isAD; omega)]
  have dateInRange : InRange state.fields.date := by
    have longest : ∀ leap, ∀ month < 12, monthLength leap month ≤ 31 := by decide
    have first := isDate.one_le_day
    have last := isDate.day_le.trans (longest _ _ isDate.month_lt)
    rw [shows.date]
    exact ⟨by omega, by omega⟩
  have computed := calculateJulianDay_eq date.year isDate.month_lt shows.month
    ⟨by omega, by omega⟩
  have sameDate : (⟨date.year, date.month, date.day⟩ : Date) = date := rfl
  rw [shows.date, sameDate] at computed
  have lateMillis : gregorianCutover ≤ julianDayToMillis (dayOf localMillis) ↔
      cutoverDay ≤ dayOf localMillis := by
    rw [julianDayToMillis_eq fieldsOf.inRange lower]
    simp only [gregorianCutover, cutoverDay, dayOf, epochJulianDay, oneDay]
    omega
  rw [yearEq]
  by_cases late : cutoverDay ≤ dayOf localMillis
  · have reckoning : reckoningAt cutoverDay (dayOf localMillis) = .gregorian :=
      if_neg (Int.not_lt.mpr late)
    rw [reckoning] at isDate dayEq
    have isLate : 1582 ≤ date.year := year_of_gregorian isDate (by rw [dayEq]; exact late)
    obtain ⟨day, guessed, _, _, isDay⟩ :=
      guessDay_spec state (dayOf localMillis) ⟨by omega, by omega⟩ dateInRange
    have same := isDay shows.dayOfWeek
    refine ⟨dayOf localMillis, dayOf localMillis, ?_, ?_, ?_⟩
    · rw [computed, decide_eq_true isLate]
      exact congrArg some dayEq
    · rw [guessed, same]
    · rw [settleDay, if_neg]
      rw [decide_eq_true isLate, decide_eq_true (lateMillis.mpr late)]
      simp
  · have early := Int.not_le.mp late
    have reckoning : reckoningAt cutoverDay (dayOf localMillis) = .julian := if_pos early
    rw [reckoning] at isDate dayEq
    have isEarly : date.year ≤ 1582 := year_of_julian isDate (by rw [dayEq]; exact early)
    by_cases inCutoverYear : date.year = 1582
    · have apart := julianDay_cutoverYear date.month date.day
      rw [← inCutoverYear, sameDate, dayEq] at apart
      obtain ⟨day, guessed, notBelow, notAbove, _⟩ :=
        guessDay_spec state (julianDay .gregorian date)
          ⟨by omega, by omega⟩ dateInRange
      refine ⟨julianDay .gregorian date, day, ?_, guessed, ?_⟩
      · rw [computed, decide_eq_true (by omega)]
        rfl
      · have notLate : ¬ gregorianCutover ≤ julianDayToMillis day := by
          rw [julianDayToMillis_before (by rw [cutoverDay] at early; omega)]
          simp only [gregorianCutover, cutoverDay, epochJulianDay, oneDay] at *
          omega
        rw [settleDay, if_pos]
        · rw [yearEq, decide_eq_true (by omega), Bool.not_true, computed]
          exact congrArg some dayEq
        · rw [decide_eq_true (by omega), decide_eq_false notLate]
          exact ⟨by decide, by omega⟩
    · have isBefore : ¬ 1582 ≤ date.year := by omega
      obtain ⟨day, guessed, _, _, isDay⟩ :=
        guessDay_spec state (dayOf localMillis) ⟨by omega, by omega⟩ dateInRange
      have same := isDay shows.dayOfWeek
      refine ⟨dayOf localMillis, dayOf localMillis, ?_, ?_, ?_⟩
      · rw [computed, decide_eq_false isBefore]
        exact congrArg some dayEq
      · rw [guessed, same]
      · rw [settleDay, if_neg]
        rw [decide_eq_false isBefore, decide_eq_false (mt lateMillis.mp late)]
        simp

/-- The time that the fields are made of comes out again. -/
theorem FieldsOf.timeOfFields_eq
    {zone : TimeZone} {fields : Fields} {time : Int} {date : Date}
    (isFixed : zone.IsFixed)
    (inRange : InLongRange time)
    (fieldsOf : FieldsOf fields (time + zone.rawOffset) date) :
    timeOfFields zone fields (dayOf (time + zone.rawOffset)) = some time := by
  have shows := fieldsOf.showsTime
  have ⟨lower, upper⟩ := fieldsOf.day_bounds
  have ⟨inYear, first, last, weekFirst, weekLast⟩ := hybridDate_arguments shows.isHybridDate
  rw [← shows.date] at first last
  have restNonneg := Int.emod_nonneg (time + zone.rawOffset) (show oneDay ≠ 0 by decide)
  have restBelow := Int.emod_lt_of_pos (time + zone.rawOffset) (show 0 < oneDay by decide)
  have restFits : (time + zone.rawOffset) % oneDay < 86400000 := restBelow
  have millisInDay : signed (((fields.hourOfDay * 60 + fields.minute) * 60 + fields.second) *
      1000 + fields.millisecond) = (time + zone.rawOffset) % oneDay := by
    rw [shows.hourOfDay, shows.minute, shows.second, shows.millisecond]
    generalize (time + zone.rawOffset) % oneDay = rest at *
    have whole : ((rest / 3600000 * 60 + rest / 60000 % 60) * 60 + rest / 1000 % 60) * 1000 +
        rest % 1000 = rest := by
      omega
    rw [whole]
    exact signed_of_inRange ⟨by omega, by omega⟩
  have millis : signedLong (julianDayToMillis (dayOf (time + zone.rawOffset)) +
      (time + zone.rawOffset) % oneDay) = time + zone.rawOffset := by
    rw [julianDayToMillis_eq fieldsOf.inRange lower, Int.sub_add_cancel]
    exact signedLong_of_inLongRange fieldsOf.inRange
  have asked := isFixed fields.year fields.date (dayOfWeek (dayOf (time + zone.rawOffset)))
    ((time + zone.rawOffset) % oneDay) date.month inYear first last weekFirst weekLast restNonneg
    restBelow
  have noSavings : signed (zone.rawOffset - zone.rawOffset) = 0 := by
    rw [Int.sub_self]
    rfl
  rw [timeOfFields, millisInDay, millis, shows.month,
    floorDivideRem_eq _ (show 0 < oneDay by decide) (by decide),
    julianDayToDayOfWeek_eq _ ⟨by omega, by omega⟩]
  dsimp only
  rw [asked]
  dsimp only
  rw [noSavings, Int.add_sub_cancel, Int.sub_zero, signedLong_of_inLongRange inRange]

/-- Computing the time of fields that a time was shown by changes nothing but flags. -/
theorem FieldsOf.computeTime_eq
    {zone : TimeZone} {state : CalendarState} {time : Int} {date : Date}
    (isFixed : zone.IsFixed)
    (inRange : InLongRange time)
    (fieldsOf : FieldsOf state.fields (time + zone.rawOffset) date) :
    ∃ isSet, computeTime zone state = ({ state with isSet, time }, true) := by
  have inDay : 0 ≤ (time + zone.rawOffset) % oneDay ∧
      (time + zone.rawOffset) % oneDay < oneDay :=
    ⟨Int.emod_nonneg _ (by decide), Int.emod_lt_of_pos _ (by decide)⟩
  obtain ⟨isSet, corrected⟩ :=
    correctTime_of_hoursAgree (fieldsOf.showsTime.hoursAgree inDay)
  have fieldsOf' : FieldsOf ({ state with isSet } : CalendarState).fields
      (time + zone.rawOffset) date := fieldsOf
  obtain ⟨guess, day, computed, guessed, settled⟩ := fieldsOf'.settles
  refine ⟨isSet, ?_⟩
  rw [computeTime, corrected]
  dsimp only at computed settled ⊢
  rw [computed]
  dsimp only
  rw [guessed]
  dsimp only
  rw [settled]
  dsimp only
  rw [fieldsOf.timeOfFields_eq isFixed inRange]

end PicoJvm.Time
