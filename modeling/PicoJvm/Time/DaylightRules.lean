import PicoJvm.Lib.Calendars
import PicoJvm.Lib.LongInteger

/-!
# Daylight saving

`TimeZoneImpl` has a rule for the date on which daylight saving starts in a year, and one for the
date on which it ends. A rule is compared with a date by what the date itself says about its day of
the week, and with a table of the lengths of the months that gives February 29 days.
-/

namespace PicoJvm.Time

open PicoJvm.Lib.Calendars
open PicoJvm.Lib.Machine

/-! ## Rules -/

/-- `ONE_DAY`, and `millisPerDay`. -/
def oneDay : Int :=
  86400000

/-- `staticMonthLength`, of a month from 0 to 11. -/
def staticMonthLength (month : Int) : Int :=
  ([31, 29, 31, 30, 31, 30, 31, 31, 30, 31, 30, 31] : List Int).getD month.toNat 0

/-- `startMode` and `endMode`; a rule that is not used has none. -/
inductive RuleMode
  | unset | dom | dowInMonth | dowGeDom | dowLeDom
  deriving DecidableEq, Repr

/-- A rule as the constructor takes it. -/
structure EncodedRule where
  month : Int
  day : Int
  dayOfWeek : Int
  time : Int
  deriving DecidableEq, Repr

/-- A rule that has been decoded. -/
structure Rule where
  month : Int
  day : Int
  dayOfWeek : Int
  time : Int
  mode : RuleMode
  deriving DecidableEq, Repr

/-- The signs of the day and of the day of the week stand for the mode. -/
def decodeSigns (rule : EncodedRule) : Rule :=
  if rule.dayOfWeek = 0 then
    ⟨rule.month, rule.day, rule.dayOfWeek, rule.time, .dom⟩
  else if 0 < rule.dayOfWeek then
    ⟨rule.month, rule.day, rule.dayOfWeek, rule.time, .dowInMonth⟩
  else if 0 < rule.day then
    ⟨rule.month, rule.day, signed (-rule.dayOfWeek), rule.time, .dowGeDom⟩
  else
    ⟨rule.month, signed (-rule.day), signed (-rule.dayOfWeek), rule.time, .dowLeDom⟩

/-- `decodeStartRule` and `decodeEndRule`, unless they throw an exception. -/
def decodeRule (encoded : EncodedRule) : Option Rule :=
  if encoded.day = 0 then
    some ⟨encoded.month, encoded.day, encoded.dayOfWeek, encoded.time, .unset⟩
  else if encoded.month < 0 ∨ 11 < encoded.month then
    none
  else if encoded.time < 0 ∨ oneDay < encoded.time then
    none
  else
    let rule := decodeSigns encoded
    if encoded.dayOfWeek ≠ 0 ∧ 7 < rule.dayOfWeek then
      none
    else if rule.mode = .dowInMonth then
      if rule.day < -5 ∨ 5 < rule.day then none else some rule
    else if staticMonthLength rule.month < rule.day then
      none
    else
      some rule

/-- A `TimeZoneImpl`, as `getOffset` sees it. -/
structure TimeZoneImpl where
  rawOffset : Int
  useDaylight : Bool
  startYear : Int
  startRule : Rule
  endRule : Rule
  dstSavings : Int
  deriving DecidableEq, Repr

/-- The constructor with rules, unless it throws an exception: `decodeRules`, and a check of the
savings. No rule sets a start year. -/
def makeZone (rawOffset : Int) (encodedStart encodedEnd : EncodedRule) (dstSavings : Int) :
    Option TimeZoneImpl := do
  let startRule ← decodeRule encodedStart
  let endRule ← decodeRule encodedEnd
  if dstSavings ≤ 0 then
    none
  else
    some
      { rawOffset, startRule, endRule, dstSavings
        useDaylight := decide (encodedStart.day ≠ 0 ∧ encodedEnd.day ≠ 0)
        startYear := 0 }

/-- The constructor of a zone without rules. -/
def fixedZone (rawOffset : Int) : TimeZoneImpl where
  rawOffset := rawOffset
  useDaylight := false
  startYear := 0
  startRule := ⟨0, 0, 0, 0, .unset⟩
  endRule := ⟨0, 0, 0, 0, .unset⟩
  dstSavings := 3600000

/-! ## Comparing a date with a rule -/

/-- The day of the month that a rule is compared by, made from a date in the month of the rule. -/
def ruleDayOfMonth (rule : Rule) (monthLen dayOfMonth dayOfWeek : Int) : Int :=
  match rule.mode with
  | .unset => 0
  | .dom => rule.day
  | .dowInMonth =>
      if 0 < rule.day then
        1 + (rule.day - 1) * 7 + (7 + rule.dayOfWeek - (dayOfWeek - dayOfMonth + 1)).tmod 7
      else
        monthLen + (rule.day + 1) * 7 -
          (7 + (dayOfWeek + monthLen - dayOfMonth) - rule.dayOfWeek).tmod 7
  | .dowGeDom =>
      signed (rule.day +
        (signed (49 + rule.dayOfWeek - rule.day - dayOfWeek + dayOfMonth)).tmod 7)
  | .dowLeDom =>
      signed (rule.day -
        (signed (49 - rule.dayOfWeek + rule.day + dayOfWeek - dayOfMonth)).tmod 7)

/-- `compareToRule`. -/
def compareToRule (month monthLen dayOfMonth dayOfWeek millis : Int) (rule : Rule) : Int :=
  if month < rule.month then -1
  else if rule.month < month then 1
  else if dayOfMonth < ruleDayOfMonth rule monthLen dayOfMonth dayOfWeek then -1
  else if ruleDayOfMonth rule monthLen dayOfMonth dayOfWeek < dayOfMonth then 1
  else if millis < rule.time then -1
  else if rule.time < millis then 1
  else 0

/-! ## The offset of a date -/

/-- The date and the time that are compared with the end rule. -/
structure WallTime where
  month : Int
  day : Int
  dayOfWeek : Int
  millis : Int
  deriving DecidableEq, Repr

/-- The body of the loop that normalises the time: the next day. A month that is left is not
followed by its own length. -/
def WallTime.next (wall : WallTime) (monthLength : Int) : WallTime :=
  let day := wall.day + 1
  { month := if monthLength < day then wall.month + 1 else wall.month
    day := if monthLength < day then 1 else day
    dayOfWeek := 1 + wall.dayOfWeek.tmod 7
    millis := wall.millis - oneDay }

/-- The loop that normalises the time, in so many steps at most. -/
def normaliseWall (monthLength : Int) : Nat → WallTime → WallTime
  | 0, wall => wall
  | steps + 1, wall =>
      if oneDay ≤ wall.millis then
        normaliseWall monthLength steps (wall.next monthLength)
      else
        wall

/-- The date and the time with the savings: as many steps as there are whole days. -/
def daylightWall (month monthLength day dayOfWeek millis dstSavings : Int) : WallTime :=
  let daylight := signed (millis + dstSavings)
  normaliseWall monthLength (daylight / oneDay).toNat ⟨month, day, dayOfWeek, daylight⟩

/-- The arguments of `getOffset` are out of range. -/
def IllegalArguments (era month day dayOfWeek millis monthLength : Int) : Prop :=
  (era ≠ 0 ∧ era ≠ 1) ∨ month < 0 ∨ 11 < month ∨ day < 1 ∨ monthLength < day ∨
    dayOfWeek < 1 ∨ 7 < dayOfWeek ∨ millis < 0 ∨ oneDay ≤ millis ∨
      monthLength < 28 ∨ 31 < monthLength

instance (era month day dayOfWeek millis monthLength : Int) :
    Decidable (IllegalArguments era month day dayOfWeek millis monthLength) :=
  inferInstanceAs (Decidable (_ ∨ _))

namespace TimeZoneImpl

/-- The savings are added. The end rule is compared only where it matters. -/
def isDaylight (zone : TimeZoneImpl) (month monthLength day dayOfWeek millis : Int) : Bool :=
  let southern := decide (zone.endRule.month < zone.startRule.month)
  let startCompare := compareToRule month monthLength day dayOfWeek millis zone.startRule
  let endCompare :=
    if southern ≠ decide (0 ≤ startCompare) then
      let wall := daylightWall month monthLength day dayOfWeek millis zone.dstSavings
      compareToRule wall.month monthLength wall.day wall.dayOfWeek wall.millis zone.endRule
    else
      0
  (!southern && (decide (0 ≤ startCompare) && decide (endCompare < 0))) ||
    (southern && (decide (0 ≤ startCompare) || decide (endCompare < 0)))

/-- `getOffset`, unless it throws an exception. -/
def getOffset (zone : TimeZoneImpl) (era year month day dayOfWeek millis : Int) : Option Int :=
  if month < 0 ∨ 11 < month then
    none
  else if IllegalArguments era month day dayOfWeek millis (staticMonthLength month) then
    none
  else if zone.useDaylight = false ∨ year < zone.startYear ∨ era ≠ 1 then
    some zone.rawOffset
  else if zone.isDaylight month (staticMonthLength month) day dayOfWeek millis then
    some (signed (zone.rawOffset + zone.dstSavings))
  else
    some zone.rawOffset

end TimeZoneImpl

/-! ## What rules denote -/

/-- The Julian day before the first day of a month. -/
def dayBeforeMonth (reckoning : Reckoning) (year : Int) (month : Nat) : Int :=
  firstDay reckoning + daysBeforeYear reckoning year +
    daysBeforeMonth (isLeap reckoning year) month - 1

theorem dayOfWeek_of_day
    (reckoning : Reckoning) (year : Int) (month : Nat) (day : Int) :
    dayOfWeek (julianDay reckoning ⟨year, month, day⟩) =
      (dayBeforeMonth reckoning year month + day + 1) % 7 + 1 := by
  rw [dayOfWeek, julianDay, dayNumber, dayOfYear, dayBeforeMonth]
  dsimp only
  congr 2
  omega

/-- The day of its month that a rule denotes in a year: a day of the month, a day of the week in
one of the weeks counted from the beginning or from the end of the month, or the day of the week
on or after a day, or on or before it. -/
structure Rule.Denotes (rule : Rule) (reckoning : Reckoning) (year : Int) (month : Nat)
    (day : Int) : Prop where
  inMonth : rule.month = month
  month_lt : month < 12
  one_le : 1 ≤ day
  le_length : day ≤ monthLength (isLeap reckoning year) month
  isUsed : rule.mode ≠ .unset
  isDom : rule.mode = .dom → day = rule.day
  isWeekDay : rule.mode ≠ .dom →
    Lib.Calendars.dayOfWeek (julianDay reckoning ⟨year, month, day⟩) = rule.dayOfWeek
  isFromBeginning : rule.mode = .dowInMonth → 0 < rule.day →
    7 * (rule.day - 1) < day ∧ day ≤ 7 * rule.day
  isFromEnd : rule.mode = .dowInMonth → rule.day ≤ 0 →
    7 * (-rule.day - 1) ≤ monthLength (isLeap reckoning year) month - day ∧
      monthLength (isLeap reckoning year) month - day < 7 * -rule.day
  isGe : rule.mode = .dowGeDom → rule.day ≤ day ∧ day < rule.day + 7
  isLe : rule.mode = .dowLeDom → rule.day - 7 < day ∧ day ≤ rule.day

/-- The rule counts weeks from the end of its month. -/
def Rule.CountsFromEnd (rule : Rule) : Prop :=
  rule.mode = .dowInMonth ∧ rule.day ≤ 0

/-- The milliseconds of a time of a date from the beginning of its year. -/
def millisOfYear (reckoning : Reckoning) (date : Date) (millis : Int) : Int :=
  dayOfYear reckoning date * oneDay + millis

/-- Daylight saving is on at a standard time: from the start on, and before the end in daylight
time. South of the equator it is on at the beginning and at the end of the year. -/
def InDaylight (southern : Prop) (starts ends standard savings : Int) : Prop :=
  (¬ southern ∧ starts ≤ standard ∧ standard + savings < ends) ∨
    (southern ∧ (starts ≤ standard ∨ standard + savings < ends))

instance (southern : Prop) [Decidable southern] (starts ends standard savings : Int) :
    Decidable (InDaylight southern starts ends standard savings) :=
  inferInstanceAs (Decidable (_ ∨ _))

/-! ## The day that a rule is compared by -/

section Compared

variable {rule : Rule} {reckoning : Reckoning} {year : Int} {month : Nat} {denoted : Int}

/-- A date in the month of a rule says which day the rule denotes, unless the rule counts from the
end of a month whose length is not the one that is given. -/
theorem Rule.Denotes.ruleDayOfMonth_eq
    (denotes : rule.Denotes reckoning year month denoted)
    {monthLen dayOfMonth weekDay : Int}
    (inMonth : 1 ≤ dayOfMonth ∧ dayOfMonth ≤ 31)
    (weekDayEq : weekDay = (dayBeforeMonth reckoning year month + dayOfMonth + 1) % 7 + 1)
    (length : rule.CountsFromEnd → dayOfMonth ≤ monthLen ∧
      (monthLen = monthLength (isLeap reckoning year) month ∨
        monthLen = monthLength (isLeap reckoning year) month + 1 ∧
          denoted ≠ monthLen + 7 * rule.day)) :
    ruleDayOfMonth rule monthLen dayOfMonth weekDay = denoted := by
  have first := denotes.one_le
  have longest : ∀ leap, ∀ month < 12, monthLength leap month ≤ 31 := by decide
  have last := denotes.le_length.trans (longest _ month denotes.month_lt)
  have isWeekDay := denotes.isWeekDay
  rw [dayOfWeek_of_day] at isWeekDay
  generalize dayBeforeMonth reckoning year month = start at *
  rw [ruleDayOfMonth]
  cases mode : rule.mode with
  | unset =>
      exact absurd mode denotes.isUsed
  | dom =>
      exact (denotes.isDom mode).symm
  | dowInMonth =>
      have onThatDay := isWeekDay (by rw [mode]; decide)
      dsimp only
      by_cases fromBeginning : 0 < rule.day
      · have week := denotes.isFromBeginning mode fromBeginning
        rw [if_pos fromBeginning, Int.tmod_eq_emod_of_nonneg (by omega)]
        omega
      · have week := denotes.isFromEnd mode (by omega)
        have ⟨inside, sameLength⟩ := length ⟨mode, by omega⟩
        rw [if_neg fromBeginning, Int.tmod_eq_emod_of_nonneg (by omega)]
        rcases sameLength with isLength | ⟨isLonger, isLater⟩
        · omega
        · omega
  | dowGeDom =>
      have onThatDay := isWeekDay (by rw [mode]; decide)
      have week := denotes.isGe mode
      have fits : signed (49 + rule.dayOfWeek - rule.day - weekDay + dayOfMonth) =
          49 + rule.dayOfWeek - rule.day - weekDay + dayOfMonth :=
        signed_of_inRange ⟨by omega, by omega⟩
      dsimp only
      rw [fits, Int.tmod_eq_emod_of_nonneg (by omega)]
      rw [signed_of_inRange ⟨by omega, by omega⟩]
      omega
  | dowLeDom =>
      have onThatDay := isWeekDay (by rw [mode]; decide)
      have week := denotes.isLe mode
      have fits : signed (49 - rule.dayOfWeek + rule.day + weekDay - dayOfMonth) =
          49 - rule.dayOfWeek + rule.day + weekDay - dayOfMonth :=
        signed_of_inRange ⟨by omega, by omega⟩
      dsimp only
      rw [fits, Int.tmod_eq_emod_of_nonneg (by omega)]
      rw [signed_of_inRange ⟨by omega, by omega⟩]
      omega

theorem Rule.Denotes.dayOfWeek_bounds
    (denotes : rule.Denotes reckoning year month denoted)
    (fromEnd : rule.CountsFromEnd) :
    1 ≤ rule.dayOfWeek ∧ rule.dayOfWeek ≤ 7 := by
  have isWeekDay := denotes.isWeekDay (by rw [fromEnd.1]; decide)
  rw [dayOfWeek_of_day] at isWeekDay
  omega

/-- Before the week of a rule that counts from the end, any length of the month will do. -/
theorem ruleDayOfMonth_gt
    (fromEnd : rule.CountsFromEnd)
    (monthLen dayOfMonth weekDay : Int)
    (isWeekDay : 1 ≤ rule.dayOfWeek ∧ rule.dayOfWeek ≤ 7)
    (weekDayInWeek : 1 ≤ weekDay ∧ weekDay ≤ 7)
    (inside : dayOfMonth ≤ monthLen)
    (before : dayOfMonth ≤ monthLen + 7 * rule.day) :
    dayOfMonth < ruleDayOfMonth rule monthLen dayOfMonth weekDay := by
  rw [ruleDayOfMonth, fromEnd.1]
  dsimp only
  have notBeginning : ¬ 0 < rule.day := Int.not_lt.mpr fromEnd.2
  rw [if_neg notBeginning, Int.tmod_eq_emod_of_nonneg (by omega)]
  omega

/-- A rule is later than a date. -/
theorem compareToRule_neg_iff
    (month' monthLen dayOfMonth weekDay millis : Int) :
    compareToRule month' monthLen dayOfMonth weekDay millis rule < 0 ↔
      month' < rule.month ∨ month' = rule.month ∧
        (dayOfMonth < ruleDayOfMonth rule monthLen dayOfMonth weekDay ∨
          dayOfMonth = ruleDayOfMonth rule monthLen dayOfMonth weekDay ∧ millis < rule.time) := by
  rw [compareToRule]
  generalize ruleDayOfMonth rule monthLen dayOfMonth weekDay = ruleDay
  repeat' split
  all_goals omega

end Compared

/-! ## The date with the savings -/

/-- The loop ends with a time of the day. As long as the days lead into the next month at most,
it counts them. -/
theorem normaliseWall_spec
    {monthLength : Int} {steps : Nat} {wall : WallTime}
    (nonneg : 0 ≤ wall.millis)
    (enough : wall.millis / oneDay ≤ steps)
    (inMonth : wall.day ≤ monthLength)
    (near : wall.day + wall.millis / oneDay ≤ 2 * monthLength)
    (isWeekDay : 1 ≤ wall.dayOfWeek ∧ wall.dayOfWeek ≤ 7) :
    normaliseWall monthLength steps wall =
      { month :=
          if wall.day + wall.millis / oneDay ≤ monthLength then wall.month else wall.month + 1
        day :=
          if wall.day + wall.millis / oneDay ≤ monthLength then wall.day + wall.millis / oneDay
          else wall.day + wall.millis / oneDay - monthLength
        dayOfWeek := (wall.dayOfWeek - 1 + wall.millis / oneDay) % 7 + 1
        millis := wall.millis % oneDay } := by
  induction steps generalizing wall with
  | zero =>
      have isZero : wall.millis / oneDay = 0 := by
        have quotient := Int.ediv_nonneg nonneg (show 0 ≤ oneDay by decide)
        omega
      have small : wall.millis % oneDay = wall.millis := by
        have whole := Int.mul_ediv_add_emod wall.millis oneDay
        rw [isZero] at whole
        omega
      have sameDay : (wall.dayOfWeek - 1 + 0) % 7 + 1 = wall.dayOfWeek := by omega
      rw [normaliseWall, isZero, small, sameDay, Int.add_zero, if_pos inMonth, if_pos inMonth]
  | succ steps inductionHypothesis =>
      rw [normaliseWall]
      by_cases isDay : oneDay ≤ wall.millis
      · have lessDays : (wall.millis - oneDay) / oneDay = wall.millis / oneDay - 1 := by
          simp only [oneDay] at *
          omega
        have sameRest : (wall.millis - oneDay) % oneDay = wall.millis % oneDay := by
          simp only [oneDay] at *
          omega
        have days := Int.ediv_nonneg nonneg (show 0 ≤ oneDay by decide)
        have positive : 1 ≤ wall.millis / oneDay := by
          simp only [oneDay] at *
          omega
        have weekDay : 1 + wall.dayOfWeek.tmod 7 = wall.dayOfWeek % 7 + 1 := by
          rw [Int.tmod_eq_emod_of_nonneg (by omega)]
          omega
        have sameWeekDay : (wall.dayOfWeek % 7 + 1 - 1 + (wall.millis / oneDay - 1)) % 7 + 1 =
            (wall.dayOfWeek - 1 + wall.millis / oneDay) % 7 + 1 := by
          omega
        rw [if_pos isDay, WallTime.next]
        rw [weekDay]
        by_cases isLast : monthLength < wall.day + 1
        · rw [if_pos isLast, if_pos isLast,
            inductionHypothesis (by dsimp only; omega) (by dsimp only; omega)
              (by dsimp only; omega) (by dsimp only; omega) (by dsimp only; omega)]
          dsimp only
          rw [lessDays, sameRest, sameWeekDay, if_pos (by omega), if_pos (by omega),
            if_neg (by omega), if_neg (by omega)]
          congr 1
          omega
        · rw [if_neg isLast, if_neg isLast,
            inductionHypothesis (by dsimp only; omega) (by dsimp only; omega)
              (by dsimp only; omega) (by dsimp only; omega) (by dsimp only; omega)]
          dsimp only
          have sameDay : wall.day + 1 + (wall.millis / oneDay - 1) =
              wall.day + wall.millis / oneDay := by
            omega
          rw [lessDays, sameRest, sameWeekDay, sameDay]
      · have isZero : wall.millis / oneDay = 0 := by
          simp only [oneDay] at *
          omega
        have small : wall.millis % oneDay = wall.millis := by
          simp only [oneDay] at *
          omega
        have sameDay : (wall.dayOfWeek - 1 + 0) % 7 + 1 = wall.dayOfWeek := by omega
        rw [if_neg isDay, isZero, small, sameDay, Int.add_zero, if_pos inMonth, if_pos inMonth]

/-! ## The end of daylight saving -/

section EndOfDaylight

variable {rule : Rule} {reckoning : Reckoning} {date : Date} {endMonth : Nat} {endDay : Int}

/-- Times are compared by the day, and then by the time of the day. The end of a day is as late as
the beginning of the next one. -/
theorem instant_lt_iff
    (day other : Int) {rest time : Int}
    (restInDay : 0 ≤ rest ∧ rest < oneDay)
    (timeInDay : 0 ≤ time ∧ time ≤ oneDay) :
    day * oneDay + rest < other * oneDay + time ↔
      day < other ∨ day = other ∧ rest < time := by
  simp only [oneDay] at *
  omega

theorem staticMonthLength_eq
    (leap : Bool) {month : Nat}
    (inYear : month < 12) :
    28 ≤ monthLength leap month ∧ (29 ≤ staticMonthLength month ∧ staticMonthLength month ≤ 31) ∧
      (staticMonthLength month = monthLength leap month ∨
        month = 1 ∧ leap = false ∧ monthLength leap month = 28 ∧ staticMonthLength month = 29) := by
  have lengths : ∀ leap, ∀ month < 12, 28 ≤ monthLength leap month ∧
      (29 ≤ staticMonthLength month ∧ staticMonthLength month ≤ 31) ∧
      (staticMonthLength month = monthLength leap month ∨
        month = 1 ∧ leap = false ∧ monthLength leap month = 28 ∧
          staticMonthLength month = 29) := by
    decide
  exact lengths leap month inYear

/-- The end rule is later than the date with the savings. In a common year the savings must not
carry a date into March when the rule is in March, and into the month of a rule that counts from
its end they must not carry it as far as the first day that the rule can denote. -/
theorem end_compare_iff
    (isDate : IsDate reckoning date)
    (denotes : rule.Denotes reckoning date.year endMonth endDay)
    (time : 0 ≤ rule.time ∧ rule.time ≤ oneDay)
    {millis savings : Int}
    (millisInDay : 0 ≤ millis ∧ millis < oneDay)
    (positive : 0 < savings)
    (fits : millis + savings < 2147483648)
    (notFebruary : rule.CountsFromEnd → endMonth = 1 →
      isLeap reckoning date.year = false → endDay ≠ 29 + 7 * rule.day)
    (notMarch : isLeap reckoning date.year = false → date.month = 1 → endMonth = 2 →
      date.day + (millis + savings) / oneDay ≤ 28)
    (notFromEnd : rule.CountsFromEnd → endMonth = date.month + 1 →
      staticMonthLength date.month < date.day + (millis + savings) / oneDay →
      date.day + (millis + savings) / oneDay - staticMonthLength date.month ≤
        29 + 7 * rule.day) :
    let wall := daylightWall date.month (staticMonthLength date.month) date.day
      (dayOfWeek (julianDay reckoning date)) millis savings
    compareToRule wall.month (staticMonthLength date.month) wall.day wall.dayOfWeek wall.millis
        rule < 0 ↔
      millisOfYear reckoning date millis + savings <
        millisOfYear reckoning ⟨date.year, endMonth, endDay⟩ rule.time := by
  intro wall
  have first := isDate.one_le_day
  have last := isDate.day_le
  have ⟨shortest, longest, static⟩ :=
    staticMonthLength_eq (isLeap reckoning date.year) isDate.month_lt
  have ⟨endShortest, endLongest, endStatic⟩ :=
    staticMonthLength_eq (isLeap reckoning date.year) denotes.month_lt
  have endInYear := denotes.month_lt
  have endFirst := denotes.one_le
  have endLast := denotes.le_length
  have weekDay := dayOfWeek_of_day reckoning date.year date.month date.day
  have days : 0 ≤ (millis + savings) / oneDay ∧ (millis + savings) / oneDay ≤ 24 := by
    simp only [oneDay] at *
    omega
  have wallEq : wall =
      { month := if date.day + (millis + savings) / oneDay ≤ staticMonthLength date.month then
          (date.month : Int) else date.month + 1
        day := if date.day + (millis + savings) / oneDay ≤ staticMonthLength date.month then
          date.day + (millis + savings) / oneDay
          else date.day + (millis + savings) / oneDay - staticMonthLength date.month
        dayOfWeek :=
          (dayOfWeek (julianDay reckoning date) - 1 + (millis + savings) / oneDay) % 7 + 1
        millis := (millis + savings) % oneDay } := by
    have inRange : signed (millis + savings) = millis + savings :=
      signed_of_inRange ⟨by omega, by omega⟩
    have isWeekDay : 1 ≤ dayOfWeek (julianDay reckoning date) ∧
        dayOfWeek (julianDay reckoning date) ≤ 7 := by
      rw [dayOfWeek]
      omega
    simp only [wall, daylightWall, inRange]
    apply normaliseWall_spec
    · dsimp only
      omega
    · dsimp only
      omega
    · dsimp only
      omega
    · dsimp only
      omega
    · exact isWeekDay
  rw [wallEq, compareToRule_neg_iff, denotes.inMonth, millisOfYear, millisOfYear, dayOfYear,
    dayOfYear]
  clear wallEq wall
  dsimp only
  have whole := Int.mul_ediv_add_emod (millis + savings) oneDay
  have restNonneg := Int.emod_nonneg (millis + savings) (show oneDay ≠ 0 by decide)
  have restBelow := Int.emod_lt_of_pos (millis + savings) (show 0 < oneDay by decide)
  generalize (millis + savings) / oneDay = shift at *
  generalize (millis + savings) % oneDay = rest at *
  have dateMonth : (⟨date.year, date.month, date.day⟩ : Date) = date := rfl
  rw [dateMonth] at weekDay
  have succLength := daysBeforeMonth_succ (isLeap reckoning date.year) date.month
  have nextStart : dayBeforeMonth reckoning date.year (date.month + 1) =
      dayBeforeMonth reckoning date.year date.month +
        monthLength (isLeap reckoning date.year) date.month := by
    rw [dayBeforeMonth, dayBeforeMonth, succLength]
    omega
  have instants := instant_lt_iff
    (daysBeforeMonth (isLeap reckoning date.year) date.month + (date.day - 1) + shift)
    (daysBeforeMonth (isLeap reckoning date.year) endMonth + (endDay - 1))
    ⟨restNonneg, restBelow⟩ time
  have sameInstant : (daysBeforeMonth (isLeap reckoning date.year) date.month +
      (date.day - 1)) * oneDay + millis + savings =
        (daysBeforeMonth (isLeap reckoning date.year) date.month +
          (date.day - 1) + shift) * oneDay + rest := by
    simp only [oneDay] at *
    omega
  rw [sameInstant, instants]
  clear instants sameInstant whole restNonneg restBelow
  by_cases inside : date.day + shift ≤ staticMonthLength date.month
  · rw [if_pos inside, if_pos inside]
    rcases Nat.lt_trichotomy date.month endMonth with earlier | same | later
    · have distance := daysBeforeMonth_le (isLeap reckoning date.year) earlier
      have before : daysBeforeMonth (isLeap reckoning date.year) date.month +
          (date.day - 1) + shift <
            daysBeforeMonth (isLeap reckoning date.year) endMonth + (endDay - 1) := by
        rcases static with isLength | ⟨isFebruary, isCommon, isShort, isLong⟩
        · omega
        · by_cases isMarch : endMonth = 2
          · have stays := notMarch isCommon isFebruary isMarch
            omega
          · have isLater : date.month + 1 < endMonth := by omega
            have distance' := daysBeforeMonth_le (isLeap reckoning date.year) isLater
            have nextInYear : date.month + 1 < 12 := by omega
            have nextLength :=
              (staticMonthLength_eq (isLeap reckoning date.year) nextInYear).1
            omega
      exact iff_of_true (.inl (by omega)) (.inl before)
    · have sameDay : ruleDayOfMonth rule (staticMonthLength date.month) (date.day + shift)
          ((dayOfWeek (julianDay reckoning date) - 1 + shift) % 7 + 1) = endDay := by
        apply denotes.ruleDayOfMonth_eq ⟨by omega, by omega⟩
        · rw [← same]
          omega
        · intro fromEnd
          refine ⟨inside, ?_⟩
          rw [same] at static ⊢
          rcases static with isLength | ⟨isFebruary, isCommon, isShort, isLong⟩
          · exact .inl isLength
          · right
            have notFirst := notFebruary fromEnd isFebruary isCommon
            rw [isShort, isLong]
            exact ⟨by decide, notFirst⟩
      rw [sameDay, same]
      omega
    · have distance := daysBeforeMonth_le (isLeap reckoning date.year) later
      omega
  · rw [if_neg inside, if_neg inside]
    rcases Nat.lt_trichotomy (date.month + 1) endMonth with earlier | same | later
    · have distance := daysBeforeMonth_le (isLeap reckoning date.year) earlier
      have nextInYear : date.month + 1 < 12 := by omega
      have nextLength := (staticMonthLength_eq (isLeap reckoning date.year) nextInYear).1
      omega
    · have isLength : staticMonthLength date.month =
          monthLength (isLeap reckoning date.year) date.month := by
        rcases static with isLength | ⟨isFebruary, isCommon, isShort, isLong⟩
        · exact isLength
        · have stays := notMarch isCommon isFebruary (by omega)
          omega
      have sameOrder : (date.day + shift - staticMonthLength date.month <
            ruleDayOfMonth rule (staticMonthLength date.month)
              (date.day + shift - staticMonthLength date.month)
              ((dayOfWeek (julianDay reckoning date) - 1 + shift) % 7 + 1) ∨
          date.day + shift - staticMonthLength date.month =
            ruleDayOfMonth rule (staticMonthLength date.month)
              (date.day + shift - staticMonthLength date.month)
              ((dayOfWeek (julianDay reckoning date) - 1 + shift) % 7 + 1) ∧ rest < rule.time) ↔
          (date.day + shift - staticMonthLength date.month < endDay ∨
            date.day + shift - staticMonthLength date.month = endDay ∧ rest < rule.time) := by
        by_cases fromEnd : rule.CountsFromEnd
        · have before := notFromEnd fromEnd same.symm (by omega)
          have week := denotes.isFromEnd fromEnd.1 fromEnd.2
          have notFirst := notFebruary fromEnd
          have later := ruleDayOfMonth_gt fromEnd
            (staticMonthLength date.month)
            (date.day + shift - staticMonthLength date.month)
            ((dayOfWeek (julianDay reckoning date) - 1 + shift) % 7 + 1)
            (denotes.dayOfWeek_bounds fromEnd) ⟨by omega, by omega⟩ (by omega) (by omega)
          refine iff_of_true (.inl later) (.inl ?_)
          rcases endStatic with endLength | ⟨isFebruary, isCommon, isShort, isLong⟩
          · omega
          · have isLater := notFirst isFebruary isCommon
            omega
        · have sameDay : ruleDayOfMonth rule (staticMonthLength date.month)
              (date.day + shift - staticMonthLength date.month)
              ((dayOfWeek (julianDay reckoning date) - 1 + shift) % 7 + 1) = endDay := by
            apply denotes.ruleDayOfMonth_eq ⟨by omega, by omega⟩
            · rw [← same, nextStart]
              omega
            · intro counts
              exact absurd counts fromEnd
          rw [sameDay]
      rw [same] at succLength
      rw [sameOrder, isLength, succLength]
      omega
    · have distance := daysBeforeMonth_le (isLeap reckoning date.year) later
      clear notFebruary notMarch notFromEnd endStatic
      exact iff_of_false (by omega) (by omega)

/-- The start rule is not later than the date. -/
theorem start_compare_iff
    (isDate : IsDate reckoning date)
    (denotes : rule.Denotes reckoning date.year endMonth endDay)
    (time : 0 ≤ rule.time ∧ rule.time ≤ oneDay)
    {millis : Int}
    (millisInDay : 0 ≤ millis ∧ millis < oneDay)
    (notFebruary : rule.CountsFromEnd → endMonth = 1 →
      isLeap reckoning date.year = false → endDay ≠ 29 + 7 * rule.day) :
    0 ≤ compareToRule date.month (staticMonthLength date.month) date.day
        (dayOfWeek (julianDay reckoning date)) millis rule ↔
      millisOfYear reckoning ⟨date.year, endMonth, endDay⟩ rule.time ≤
        millisOfYear reckoning date millis := by
  have first := isDate.one_le_day
  have last := isDate.day_le
  have ⟨_, longest, static⟩ :=
    staticMonthLength_eq (isLeap reckoning date.year) isDate.month_lt
  have endFirst := denotes.one_le
  have endLast := denotes.le_length
  have weekDay := dayOfWeek_of_day reckoning date.year date.month date.day
  have dateMonth : (⟨date.year, date.month, date.day⟩ : Date) = date := rfl
  rw [dateMonth] at weekDay
  have instants := instant_lt_iff
    (daysBeforeMonth (isLeap reckoning date.year) date.month + (date.day - 1))
    (daysBeforeMonth (isLeap reckoning date.year) endMonth + (endDay - 1))
    millisInDay time
  rw [← Int.not_lt, ← Int.not_lt, not_iff_not, compareToRule_neg_iff, denotes.inMonth,
    millisOfYear, millisOfYear, dayOfYear, dayOfYear, instants]
  clear instants
  rcases Nat.lt_trichotomy date.month endMonth with earlier | same | later
  · have distance := daysBeforeMonth_le (isLeap reckoning date.year) earlier
    omega
  · have sameDay : ruleDayOfMonth rule (staticMonthLength date.month) date.day
        (dayOfWeek (julianDay reckoning date)) = endDay := by
      apply denotes.ruleDayOfMonth_eq ⟨by omega, by omega⟩
      · rw [← same]
        exact weekDay
      · intro fromEnd
        refine ⟨by omega, ?_⟩
        rw [same] at static ⊢
        rcases static with isLength | ⟨isFebruary, isCommon, isShort, isLong⟩
        · exact .inl isLength
        · right
          have notFirst := notFebruary fromEnd isFebruary isCommon
          rw [isShort, isLong]
          exact ⟨by decide, notFirst⟩
    rw [sameDay, same]
    omega
  · have distance := daysBeforeMonth_le (isLeap reckoning date.year) later
    omega

end EndOfDaylight

/-! ## Zones that are accepted -/

theorem decodeSigns_time (encoded : EncodedRule) : (decodeSigns encoded).time = encoded.time := by
  rw [decodeSigns]
  repeat' split
  all_goals rfl

/-- A rule that is used has passed the check of its time. -/
theorem decodeRule_time
    {encoded : EncodedRule} {rule : Rule}
    (decoded : decodeRule encoded = some rule)
    (isUsed : rule.mode ≠ .unset) :
    encoded.day ≠ 0 ∧ 0 ≤ rule.time ∧ rule.time ≤ oneDay := by
  rw [decodeRule] at decoded
  by_cases isZero : encoded.day = 0
  · rw [if_pos isZero, Option.some.injEq] at decoded
    rw [← decoded] at isUsed
    exact absurd rfl isUsed
  · rw [if_neg isZero, Option.ite_none_left_eq_some, Option.ite_none_left_eq_some] at decoded
    dsimp only at decoded
    have ⟨_, timeInDay, checked⟩ := decoded
    rw [Option.ite_none_left_eq_some] at checked
    have isRule : decodeSigns encoded = rule := by
      have ⟨_, accepted⟩ := checked
      by_cases inMonth : (decodeSigns encoded).mode = .dowInMonth
      · rw [if_pos inMonth, Option.ite_none_left_eq_some] at accepted
        exact Option.some.inj accepted.2
      · rw [if_neg inMonth, Option.ite_none_left_eq_some] at accepted
        exact Option.some.inj accepted.2
    rw [← isRule, decodeSigns_time]
    exact ⟨isZero, by omega, by omega⟩

theorem makeZone_eq_some
    {rawOffset dstSavings : Int} {encodedStart encodedEnd : EncodedRule} {zone : TimeZoneImpl}
    (accepted : makeZone rawOffset encodedStart encodedEnd dstSavings = some zone) :
    decodeRule encodedStart = some zone.startRule ∧ decodeRule encodedEnd = some zone.endRule ∧
      0 < dstSavings ∧ zone.rawOffset = rawOffset ∧ zone.dstSavings = dstSavings ∧
        zone.startYear = 0 ∧
          zone.useDaylight = decide (encodedStart.day ≠ 0 ∧ encodedEnd.day ≠ 0) := by
  rw [makeZone, Option.bind_eq_bind, Option.bind_eq_some_iff] at accepted
  obtain ⟨startRule, decodedStart, accepted⟩ := accepted
  rw [Option.bind_eq_some_iff] at accepted
  obtain ⟨endRule, decodedEnd, accepted⟩ := accepted
  rw [Option.ite_none_left_eq_some, Option.some.injEq] at accepted
  have ⟨positive, isZone⟩ := accepted
  rw [← isZone]
  exact ⟨decodedStart, decodedEnd, by omega, rfl, rfl, rfl, rfl⟩

/-- The two comparisons decide whether daylight saving is on, though the end rule is not always
compared. -/
theorem isDaylight_iff
    {zone : TimeZoneImpl} {month monthLength day weekDay millis starts ends standard : Int}
    (startIff : 0 ≤ compareToRule month monthLength day weekDay millis zone.startRule ↔
      starts ≤ standard)
    (endIff :
      let wall := daylightWall month monthLength day weekDay millis zone.dstSavings
      compareToRule wall.month monthLength wall.day wall.dayOfWeek wall.millis zone.endRule < 0 ↔
        standard + zone.dstSavings < ends) :
    zone.isDaylight month monthLength day weekDay millis = true ↔
      InDaylight (zone.endRule.month < zone.startRule.month) starts ends standard
        zone.dstSavings := by
  dsimp only at endIff
  rw [TimeZoneImpl.isDaylight, InDaylight, ← startIff, ← endIff]
  dsimp only
  generalize compareToRule month monthLength day weekDay millis zone.startRule = startCompare
  generalize compareToRule _ monthLength _ _ _ zone.endRule = endCompare
  by_cases southern : zone.endRule.month < zone.startRule.month
  · by_cases started : 0 ≤ startCompare
    · simp [southern, started]
    · simp [southern, started]
  · by_cases started : 0 ≤ startCompare
    · simp [southern, started]
    · simp [southern, started]

/-- Daylight saving from the last Sunday in March to the last Sunday in October. -/
def centralEurope : TimeZoneImpl where
  rawOffset := 3600000
  useDaylight := true
  startYear := 0
  startRule := ⟨2, -1, 1, 7200000, .dowInMonth⟩
  endRule := ⟨9, -1, 1, 10800000, .dowInMonth⟩
  dstSavings := 3600000

/-- Daylight saving from the last Sunday in February to the last Sunday in October. -/
def fromFebruary : TimeZoneImpl where
  rawOffset := 0
  useDaylight := true
  startYear := 0
  startRule := ⟨1, -1, 1, 0, .dowInMonth⟩
  endRule := ⟨9, -1, 1, 0, .dowInMonth⟩
  dstSavings := 3600000

end PicoJvm.Time
