import PicoJvm.Time.CalendarTime

/-!
# Sequences of calls of a calendar

Setting fields to the values they have keeps the time, for a time in the era AD. Flags that are
left from before the time was set change what later calls return, unless they are only those of
the hours and the calls keep to `AM` and `PM`.
-/

namespace PicoJvm.Time

open PicoJvm.Lib.Calendars
open PicoJvm.Lib.LongInteger
open PicoJvm.Lib.Machine

/-! ## Fields that are set to themselves -/

/-- The fields are those of a time, which is the time of the calendar where it is valid. -/
structure Keeps (fields : Fields) (time : Int) (state : CalendarState) : Prop where
  fields_eq : state.fields = fields
  time_eq : state.isTimeSet = true → state.time = time

section SetToItself

variable {zone : TimeZone} {fields : Fields} {time : Int} {date : Date} {state : CalendarState}

theorem Keeps.ensureTime
    (keeps : Keeps fields time state)
    (isFixed : zone.IsFixed)
    (inRange : InLongRange time)
    (fieldsOf : FieldsOf fields (time + zone.rawOffset) date) :
    ∃ next, ensureTime zone state = (next, true) ∧ next.fields = fields ∧ next.time = time ∧
      next.isTimeSet = true := by
  rw [Time.ensureTime]
  by_cases isTimeSet : state.isTimeSet = true
  · rw [if_pos isTimeSet]
    exact ⟨state, rfl, keeps.fields_eq, keeps.time_eq isTimeSet, isTimeSet⟩
  · have fieldsOf' := fieldsOf
    rw [← keeps.fields_eq] at fieldsOf'
    obtain ⟨isSet, computed⟩ := fieldsOf'.computeTime_eq isFixed inRange
    rw [if_neg isTimeSet, computed]
    exact ⟨_, rfl, keeps.fields_eq, rfl, rfl⟩

theorem Fields.put_at (fields : Fields) (field : Field) :
    fields.put (fields.at field) field = fields := by
  cases field <;> rfl

/-- `get` of a constant of `Calendar`. -/
theorem call_get
    (zone : TimeZone) (state : CalendarState) {field : Field}
    (isField : ∀ index, field ≠ .other index) :
    call zone state (.get field) =
      if Refreshes state.isSet field then
        if (Time.ensureTime zone state).2 then
          match computeFields zone (Time.ensureTime zone state).1.time with
          | none => (none, (Time.ensureTime zone state).1)
          | some fields =>
              (some (fields.at field), { (Time.ensureTime zone state).1 with fields })
        else
          (none, (Time.ensureTime zone state).1)
      else
        (some (state.fields.at field), state) := by
  cases field with
  | other index =>
      exact absurd rfl (isField index)
  | year | month | date | dayOfWeek | amPm | hour | hourOfDay | minute | second | millisecond =>
      rfl

/-- `set(field, get(field))`, with the value that the field has. -/
theorem Keeps.get
    (keeps : Keeps fields time state)
    (isFixed : zone.IsFixed)
    (inRange : InLongRange time)
    (computed : computeFields zone time = some fields)
    (fieldsOf : FieldsOf fields (time + zone.rawOffset) date)
    {field : Field}
    (isField : ∀ index, field ≠ .other index) :
    ∃ next, call zone state (.get field) = (some (fields.at field), next) ∧
      next.fields = fields := by
  rw [call_get zone state isField]
  by_cases refreshes : Refreshes state.isSet field
  · obtain ⟨next, ensured, fieldsEq, timeEq, _⟩ := keeps.ensureTime isFixed inRange fieldsOf
    rw [if_pos refreshes, ensured]
    dsimp only
    rw [if_pos rfl, timeEq, computed]
    exact ⟨_, rfl, rfl⟩
  · rw [if_neg refreshes, keeps.fields_eq]
    exact ⟨state, rfl, keeps.fields_eq⟩

/-- The induction is on the fields that are left to be set. -/
theorem Keeps.setToItself
    (keeps : Keeps fields time state)
    (isFixed : zone.IsFixed)
    (inRange : InLongRange time)
    (computed : computeFields zone time = some fields)
    (fieldsOf : FieldsOf fields (time + zone.rawOffset) date)
    (sequence : List Field)
    (areFields : ∀ field ∈ sequence, ∀ index, field ≠ .other index) :
    ∃ final, setToItself zone sequence state = some final ∧ Keeps fields time final := by
  induction sequence generalizing state with
  | nil =>
      exact ⟨state, rfl, keeps⟩
  | cons field sequence inductionHypothesis =>
      obtain ⟨next, got, fieldsEq⟩ := keeps.get isFixed inRange computed fieldsOf
        (areFields field List.mem_cons_self)
      have setKeeps : Keeps fields time
          (call zone next (.set field (fields.at field))).2 := by
        refine ⟨?_, fun isSet => absurd isSet Bool.false_ne_true⟩
        rw [call]
        dsimp only
        rw [fieldsEq, Fields.put_at]
      rw [Time.setToItself, got]
      exact inductionHypothesis setKeeps
        fun other member => areFields other (List.mem_cons_of_mem field member)

theorem Keeps.getTime
    (keeps : Keeps fields time state)
    (isFixed : zone.IsFixed)
    (inRange : InLongRange time)
    (fieldsOf : FieldsOf fields (time + zone.rawOffset) date) :
    (call zone state .getTime).1 = some time := by
  obtain ⟨next, ensured, _, timeEq, _⟩ := keeps.ensureTime isFixed inRange fieldsOf
  rw [call, ensured]
  dsimp only
  rw [if_pos rfl, timeEq]

end SetToItself

/-! ## What computing the time depends on -/

theorem computeFields_hoursAgree
    {zone : TimeZone} {time : Int} {fields : Fields}
    (inRange : InLongRange time)
    (computed : computeFields zone time = some fields) :
    HoursAgree fields := by
  obtain ⟨shown, _, date, _, localMillis, _, _, _, _, _, computed', shows⟩ :=
    computeFields_showsTime zone inRange
  rw [computed] at computed'
  rw [Option.some.inj computed']
  exact shows.hoursAgree
    ⟨Int.emod_nonneg _ (by decide), Int.emod_lt_of_pos _ (by decide)⟩

/-- What is computed once the hours are correct: the fields, and the time unless there is an
exception. -/
def settledTime (zone : TimeZone) (fields : Fields) (weekDaySet : Bool) : Fields × Option Int :=
  let isGregorian := decide (1582 ≤ fields.year)
  match calculateJulianDay fields isGregorian fields.year with
  | none => (fields, none)
  | some julianDay =>
      let (julianDay, fields) :=
        guessDay ⟨fields, ⟨weekDaySet, false, false, false⟩, 0, false⟩ julianDay
      match settleDay fields isGregorian julianDay with
      | none => (fields, none)
      | some julianDay => (fields, timeOfFields zone fields julianDay)

theorem guessDay_congr
    (state : CalendarState) (julian : Int) :
    guessDay state julian =
      guessDay ⟨state.fields, ⟨state.isSet.dayOfWeek, false, false, false⟩, 0, false⟩ julian :=
  rfl

theorem correctTime_rest (state : CalendarState) :
    (correctTime state).time = state.time ∧ (correctTime state).isTimeSet = state.isTimeSet ∧
      (correctTime state).isSet.dayOfWeek = state.isSet.dayOfWeek ∧
      (correctTime state).isSet.hourOfDay = false := by
  rw [correctTime]
  by_cases hourOfDaySet : state.isSet.hourOfDay = true
  · rw [if_pos hourOfDaySet]
    exact ⟨rfl, rfl, rfl, rfl⟩
  · have notSet := Bool.not_eq_true _ ▸ hourOfDaySet
    rw [if_neg hourOfDaySet]
    split
    · exact ⟨rfl, rfl, rfl, notSet⟩
    · exact ⟨rfl, rfl, rfl, notSet⟩

theorem computeTime_settled (zone : TimeZone) (state : CalendarState) :
    let settled :=
      settledTime zone (correctTime state).fields (correctTime state).isSet.dayOfWeek
    computeTime zone state =
      ({ correctTime state with
          fields := settled.1, time := settled.2.getD (correctTime state).time },
        settled.2.isSome) := by
  dsimp only
  rw [computeTime, settledTime]
  generalize correctTime state = corrected
  dsimp only
  cases calculateJulianDay corrected.fields (decide (1582 ≤ corrected.fields.year))
      corrected.fields.year with
  | none =>
      rfl
  | some julianDay =>
      dsimp only
      rw [← guessDay_congr]
      generalize guessDay corrected julianDay = guess
      cases settleDay guess.2 (decide (1582 ≤ corrected.fields.year)) guess.1 with
      | none =>
          rfl
      | some day =>
          dsimp only
          cases timeOfFields zone guess.2 day with
          | none =>
              rfl
          | some time =>
              rfl

theorem guessDay_hours (state : CalendarState) (julian : Int) :
    (guessDay state julian).2.hourOfDay = state.fields.hourOfDay ∧
      (guessDay state julian).2.amPm = state.fields.amPm ∧
      (guessDay state julian).2.hour = state.fields.hour := by
  rw [guessDay]
  split
  · exact ⟨rfl, rfl, rfl⟩
  · exact ⟨rfl, rfl, rfl⟩

theorem inLongRange_timeOfFields
    {zone : TimeZone} {fields : Fields} {julianDay time : Int}
    (computed : timeOfFields zone fields julianDay = some time) :
    InLongRange time := by
  rw [timeOfFields] at computed
  split at computed
  · cases computed
  · rw [← Option.some.inj computed]
    exact inLongRange_signedLong _

/-- The hours stay, and a time that is computed fits. -/
theorem settledTime_spec (zone : TimeZone) (fields : Fields) (weekDaySet : Bool) :
    (settledTime zone fields weekDaySet).1.hourOfDay = fields.hourOfDay ∧
      (settledTime zone fields weekDaySet).1.amPm = fields.amPm ∧
      (settledTime zone fields weekDaySet).1.hour = fields.hour ∧
      ∀ time, (settledTime zone fields weekDaySet).2 = some time → InLongRange time := by
  rw [settledTime]
  dsimp only
  cases calculateJulianDay fields (decide (1582 ≤ fields.year)) fields.year with
  | none =>
      refine ⟨rfl, rfl, rfl, ?_⟩
      intro time computed
      cases computed
  | some julianDay =>
      dsimp only
      have ⟨hourOfDay, amPm, hour⟩ :=
        guessDay_hours ⟨fields, ⟨weekDaySet, false, false, false⟩, 0, false⟩ julianDay
      generalize
        guessDay ⟨fields, ⟨weekDaySet, false, false, false⟩, 0, false⟩ julianDay = guess at *
      cases settleDay guess.2 (decide (1582 ≤ fields.year)) guess.1 with
      | none =>
          refine ⟨hourOfDay, amPm, hour, ?_⟩
          intro time computed
          cases computed
      | some day =>
          exact ⟨hourOfDay, amPm, hour, fun time computed => inLongRange_timeOfFields computed⟩

/-! ## Calendars with different flags -/

/-- The flags of the hours have the same effect. -/
def SameHours (left right : Flags) : Prop :=
  left.hourOfDay = right.hourOfDay ∧ (left.hour || left.amPm) = (right.hour || right.amPm)

/-- No hour has been set. -/
def NoHourSet (isSet : Flags) : Prop :=
  isSet.hourOfDay = false ∧ isSet.hour = false ∧ isSet.amPm = false

/-- Two calendars that differ in flags of hours at most. Where the flags may differ in effect, the
hours belong together, and the field of the half day is only set to one of its values while the
hour of the day is flagged in one calendar only. -/
structure Alike (legal : Prop) (left right : CalendarState) : Prop where
  fields_eq : left.fields = right.fields
  time_eq : left.time = right.time
  isTimeSet_eq : left.isTimeSet = right.isTimeSet
  dayOfWeek_eq : left.isSet.dayOfWeek = right.isSet.dayOfWeek
  inRange : InLongRange left.time
  hours : SameHours left.isSet right.isSet ∨
    HoursAgree right.fields ∧ NoHourSet right.isSet ∧ (left.isSet.hourOfDay = true → legal)

section Alike

variable {legal : Prop} (zone : TimeZone) {left right : CalendarState}

theorem SameHours.correctTime
    (sameHours : SameHours left.isSet right.isSet)
    (sameFields : left.fields = right.fields) :
    (correctTime left).fields = (correctTime right).fields ∧
      SameHours (correctTime left).isSet (correctTime right).isSet := by
  have ⟨hourOfDay, halves⟩ := sameHours
  rw [Time.correctTime, Time.correctTime, sameFields]
  by_cases hourOfDaySet : right.isSet.hourOfDay = true
  · rw [if_pos (hourOfDay.trans hourOfDaySet), if_pos hourOfDaySet]
    exact ⟨rfl, rfl, halves⟩
  · rw [if_neg (hourOfDay ▸ hourOfDaySet), if_neg hourOfDaySet]
    by_cases halfSet : right.isSet.hour = true ∨ right.isSet.amPm = true
    · have halfSet' : left.isSet.hour = true ∨ left.isSet.amPm = true := by
        rw [← Bool.or_eq_true, halves, Bool.or_eq_true]
        exact halfSet
      rw [if_pos halfSet', if_pos halfSet]
      exact ⟨rfl, hourOfDay, rfl⟩
    · have halfSet' : ¬ (left.isSet.hour = true ∨ left.isSet.amPm = true) := by
        rw [← Bool.or_eq_true, halves, Bool.or_eq_true]
        exact halfSet
      rw [if_neg halfSet', if_neg halfSet]
      exact ⟨sameFields, sameHours⟩

theorem NoHourSet.correctTime
    (noHourSet : NoHourSet right.isSet) :
    correctTime right = right := by
  have ⟨hourOfDay, hour, amPm⟩ := noHourSet
  rw [Time.correctTime, if_neg (by simp [hourOfDay]), if_neg (by simp [hour, amPm])]

theorem Alike.correctTime
    (alike : Alike legal left right) :
    Alike legal (correctTime left) (correctTime right) := by
  have ⟨leftTime, leftTimeSet, leftWeekDay, leftHour⟩ := correctTime_rest left
  have ⟨rightTime, rightTimeSet, rightWeekDay, _⟩ := correctTime_rest right
  have corrected : (Time.correctTime left).fields = (Time.correctTime right).fields ∧
      (SameHours (Time.correctTime left).isSet (Time.correctTime right).isSet ∨
        HoursAgree (Time.correctTime right).fields ∧
          NoHourSet (Time.correctTime right).isSet ∧
            ((Time.correctTime left).isSet.hourOfDay = true → legal)) := by
    rcases alike.hours with sameHours | ⟨hoursAgree, noHourSet, _⟩
    · have ⟨fieldsEq, hours⟩ := sameHours.correctTime alike.fields_eq
      exact ⟨fieldsEq, .inl hours⟩
    · have hoursAgree' := hoursAgree
      rw [← alike.fields_eq] at hoursAgree'
      obtain ⟨isSet, leftCorrected⟩ := correctTime_of_hoursAgree hoursAgree'
      rw [noHourSet.correctTime]
      refine ⟨?_, .inr ⟨hoursAgree, noHourSet, ?_⟩⟩
      · rw [leftCorrected]
        exact alike.fields_eq
      · intro isSet'
        rw [leftHour] at isSet'
        cases isSet'
  refine ⟨corrected.1, ?_, ?_, ?_, ?_, corrected.2⟩
  · rw [leftTime, rightTime, alike.time_eq]
  · rw [leftTimeSet, rightTimeSet, alike.isTimeSet_eq]
  · rw [leftWeekDay, rightWeekDay, alike.dayOfWeek_eq]
  · rw [leftTime]
    exact alike.inRange

theorem Alike.computeTime
    (alike : Alike legal left right) :
    (computeTime zone left).2 = (computeTime zone right).2 ∧
      Alike legal (computeTime zone left).1 (computeTime zone right).1 := by
  have corrected := alike.correctTime
  have ⟨hourOfDay, amPm, hour, inRange⟩ :=
    settledTime_spec zone (Time.correctTime right).fields
      (Time.correctTime right).isSet.dayOfWeek
  rw [computeTime_settled, computeTime_settled, corrected.fields_eq, corrected.dayOfWeek_eq,
    corrected.time_eq]
  generalize settledTime zone (Time.correctTime right).fields
    (Time.correctTime right).isSet.dayOfWeek = settled at *
  refine ⟨rfl, rfl, rfl, corrected.isTimeSet_eq, corrected.dayOfWeek_eq, ?_, ?_⟩
  · cases computed : settled.2 with
    | none =>
        rw [← corrected.time_eq]
        exact corrected.inRange
    | some time =>
        exact inRange time computed
  · rcases corrected.hours with sameHours | ⟨hoursAgree, noHourSet, legality⟩
    · exact .inl sameHours
    · refine .inr ⟨?_, noHourSet, legality⟩
      dsimp only [HoursAgree] at hoursAgree ⊢
      rw [hourOfDay, amPm, hour]
      exact hoursAgree

theorem Alike.ensureTime
    (alike : Alike legal left right) :
    (ensureTime zone left).2 = (ensureTime zone right).2 ∧
      Alike legal (ensureTime zone left).1 (ensureTime zone right).1 := by
  rw [Time.ensureTime, Time.ensureTime]
  by_cases isTimeSet : right.isTimeSet = true
  · rw [if_pos (alike.isTimeSet_eq.trans isTimeSet), if_pos isTimeSet]
    exact ⟨rfl, alike⟩
  · rw [if_neg (alike.isTimeSet_eq ▸ isTimeSet), if_neg isTimeSet]
    have ⟨sameReturn, computed⟩ := alike.computeTime zone
    dsimp only
    rw [sameReturn]
    by_cases returned : (Time.computeTime zone right).2 = true
    · rw [if_pos returned, if_pos returned]
      exact ⟨rfl, computed.fields_eq, computed.time_eq, rfl, computed.dayOfWeek_eq,
        computed.inRange, computed.hours⟩
    · rw [if_neg returned, if_neg returned]
      exact ⟨rfl, computed⟩

/-- A call that sets the field of the half day to a value it can have, if it sets it. -/
def Call.SetsHalfDay : Call → Prop
  | .set .amPm value => value = 0 ∨ value = 1
  | _ => True

theorem Alike.set
    (alike : Alike legal left right)
    (field : Field) (value : Int)
    (setsHalfDay : legal → (Call.set field value).SetsHalfDay) :
    Alike legal (call zone left (.set field value)).2 (call zone right (.set field value)).2 := by
  have fieldsEq : left.fields.put value field = right.fields.put value field := by
    rw [alike.fields_eq]
  have weekDayEq : (left.isSet.afterSet value field).dayOfWeek =
      (right.isSet.afterSet value field).dayOfWeek := by
    cases field with
    | date =>
        rfl
    | dayOfWeek =>
        rfl
    | amPm =>
        rw [Flags.afterSet, Flags.afterSet]
        split
        · exact alike.dayOfWeek_eq
        · exact alike.dayOfWeek_eq
    | year | month | hour | hourOfDay | minute | second | millisecond | other =>
        exact alike.dayOfWeek_eq
  refine ⟨fieldsEq, alike.time_eq, rfl, weekDayEq, alike.inRange, ?_⟩
  rcases alike.hours with ⟨hourOfDay, halves⟩ | ⟨hoursAgree, noHourSet, legality⟩
  · left
    cases field with
    | hourOfDay =>
        exact ⟨rfl, rfl⟩
    | hour =>
        exact ⟨rfl, rfl⟩
    | amPm =>
        rw [call, call]
        dsimp only [Flags.afterSet]
        split
        · exact ⟨rfl, by simp⟩
        · exact ⟨hourOfDay, by simp⟩
    | year | month | date | dayOfWeek | minute | second | millisecond | other =>
        exact ⟨hourOfDay, halves⟩
  · have ⟨rightHourOfDay, rightHour, rightAmPm⟩ := noHourSet
    cases field with
    | hourOfDay =>
        exact .inl ⟨rfl, rfl⟩
    | hour =>
        exact .inl ⟨rfl, rfl⟩
    | amPm =>
        left
        rw [call, call]
        dsimp only [Flags.afterSet]
        by_cases isHalf : value = 0 ∨ value = 1
        · rw [if_pos isHalf, if_pos isHalf]
          exact ⟨rfl, by simp⟩
        · rw [if_neg isHalf, if_neg isHalf]
          refine ⟨?_, by simp⟩
          have notSet : left.isSet.hourOfDay = false := by
            rw [Bool.eq_false_iff]
            exact fun isSet => isHalf (setsHalfDay (legality isSet))
          exact notSet.trans rightHourOfDay.symm
    | year | month | date | dayOfWeek | minute | second | millisecond | other =>
        exact .inr ⟨hoursAgree, noHourSet, legality⟩

/-- A call returns the same, and leaves calendars that are alike. -/
theorem Alike.call
    (alike : Alike legal left right)
    (next : Call)
    (setsHalfDay : legal → next.SetsHalfDay) :
    (call zone left next).1 = (call zone right next).1 ∧
      Alike legal (call zone left next).2 (call zone right next).2 := by
  cases next with
  | getTime =>
      have ⟨sameReturn, ensured⟩ := alike.ensureTime zone
      rw [Time.call, Time.call]
      dsimp only
      rw [sameReturn, ensured.time_eq]
      exact ⟨rfl, ensured⟩
  | set field value =>
      exact ⟨rfl, alike.set zone field value setsHalfDay⟩
  | get field =>
      by_cases isOther : ∃ index, field = .other index
      · obtain ⟨index, isOther⟩ := isOther
        rw [isOther]
        exact ⟨rfl, alike⟩
      · have isField : ∀ index, field ≠ .other index :=
          fun index isIndex => isOther ⟨index, isIndex⟩
        rw [call_get zone left isField, call_get zone right isField]
        have refreshes_iff : Refreshes left.isSet field ↔ Refreshes right.isSet field := by
          cases field <;> simp [Refreshes, alike.dayOfWeek_eq]
        by_cases refreshes : Refreshes right.isSet field
        · rw [if_pos (refreshes_iff.mpr refreshes), if_pos refreshes]
          have ⟨sameReturn, ensured⟩ := alike.ensureTime zone
          rw [sameReturn, ensured.time_eq]
          by_cases returned : (Time.ensureTime zone right).2 = true
          · rw [if_pos returned, if_pos returned]
            cases computed : computeFields zone (Time.ensureTime zone right).1.time with
            | none =>
                exact ⟨rfl, ensured⟩
            | some fields =>
                have inRange := ensured.inRange
                rw [ensured.time_eq] at inRange
                have hoursAgree := computeFields_hoursAgree inRange computed
                refine ⟨rfl, rfl, ensured.time_eq, ensured.isTimeSet_eq, ensured.dayOfWeek_eq,
                  ensured.inRange, ?_⟩
                rcases ensured.hours with sameHours | ⟨_, noHourSet, legality⟩
                · exact .inl sameHours
                · exact .inr ⟨hoursAgree, noHourSet, legality⟩
          · rw [if_neg returned, if_neg returned]
            exact ⟨rfl, ensured⟩
        · rw [if_neg (mt refreshes_iff.mp refreshes), if_neg refreshes, alike.fields_eq]
          exact ⟨rfl, alike⟩

/-- The induction is on the calls. -/
theorem Alike.returns_eq
    (alike : Alike legal left right)
    (calls : List Call)
    (setsHalfDay : legal → ∀ next ∈ calls, next.SetsHalfDay) :
    returns zone calls left = returns zone calls right := by
  induction calls generalizing left right with
  | nil =>
      rfl
  | cons next calls inductionHypothesis =>
      have ⟨sameReturn, after⟩ := alike.call zone next
        fun isLegal => setsHalfDay isLegal next List.mem_cons_self
      rw [returns, returns, sameReturn,
        inductionHypothesis after
          fun isLegal other member =>
            setsHalfDay isLegal other (List.mem_cons_of_mem next member)]

end Alike

/-! ## Calendars whose time has been set -/

/-- A calendar on which no field has been set. -/
def Flags.none : Flags :=
  ⟨false, false, false, false⟩

/-- The fields of a time in a zone without savings. -/
theorem computeFields_of_isFixed
    {zone : TimeZone}
    (isFixed : zone.IsFixed)
    {time : Int}
    (inRange : InLongRange time)
    (localInRange : InLongRange (time + zone.rawOffset))
    {fields : Fields}
    (computed : computeFields zone time = some fields) :
    ∃ date, ShowsTime fields (dayOf (time + zone.rawOffset))
      ((time + zone.rawOffset) % oneDay) date := by
  obtain ⟨shown, standardDate, date, savings, localMillis, isHybrid, offset, savingsNonneg,
    savingsBelow, localEq, computed', shows⟩ := computeFields_showsTime zone inRange
  have notPinned : max longMinValue (min longMaxValue (time + zone.rawOffset)) =
      time + zone.rawOffset := by
    unfold InLongRange at localInRange
    simp only [longMinValue, longMaxValue]
    omega
  rw [notPinned] at isHybrid offset localEq
  obtain ⟨inYear, first, last, weekFirst, weekLast⟩ := hybridDate_arguments isHybrid
  have fixedOffset := isFixed (shownYear standardDate.year) standardDate.day
    (dayOfWeek (dayOf (time + zone.rawOffset))) ((time + zone.rawOffset) % oneDay)
    standardDate.month inYear first last weekFirst weekLast (Int.emod_nonneg _ (by decide))
    (Int.emod_lt_of_pos _ (by decide))
  have sameOffset := Option.some.inj (offset.symm.trans fixedOffset)
  have noSavings : savings = 0 := by
    have rawInRange := zone.inRange
    simp only [signed, Int.bmod, oneDay] at sameOffset savingsBelow
    unfold InRange at rawInRange
    split at sameOffset <;> omega
  rw [noSavings, Int.add_zero] at localEq
  have sameLocal : min longMaxValue localMillis = time + zone.rawOffset := by
    unfold InLongRange at localInRange
    rw [localEq]
    simp only [longMaxValue]
    omega
  rw [sameLocal, localEq] at shows
  rw [computed] at computed'
  rw [Option.some.inj computed']
  exact ⟨date, shows⟩

/-- Setting the time, where no day of the week is flagged: fields that are set to themselves keep a
time in the era AD, and later calls return what they return of a calendar on which no field has
been set, provided that they set the half day to one of its values while the hour of the day is
flagged from before. -/
theorem setTime_runs
    (zone : TimeZone)
    (isFixed : zone.IsFixed)
    {time : Int}
    (inRange : InLongRange time)
    (state : CalendarState) :
    ∃ after, setTimeInMillis zone time state = some after ∧
      (∀ date sequence,
        (∀ field ∈ sequence, ∀ index, field ≠ Field.other index) →
        sequence = [] ∨
          IsHybridDate cutoverDay (dayOf (time + zone.rawOffset)) date ∧ 1 ≤ date.year ∧
            InLongRange (time + zone.rawOffset) →
        ∃ final, setToItself zone sequence after = some final ∧
          (call zone final .getTime).1 = some time) ∧
      (state.isSet.dayOfWeek = false →
        ∀ (unset unsetAfter : CalendarState), unset.isSet = Flags.none →
          setTimeInMillis zone time unset = some unsetAfter →
          ∀ calls : List Call,
            (state.isSet.hourOfDay = true → ∀ next ∈ calls, next.SetsHalfDay) →
            returns zone calls after = returns zone calls unsetAfter) := by
  obtain ⟨fields, _, _, _, _, _, _, _, _, _, computed, _⟩ := computeFields_showsTime zone inRange
  have setTime : ∀ state, setTimeInMillis zone time state =
      some { state with fields, time, isTimeSet := true } := by
    intro state
    rw [setTimeInMillis, computed]
  refine ⟨_, setTime state, ?_, ?_⟩
  · intro date sequence areFields eraAD
    rcases eraAD with isEmpty | ⟨isHybrid, isAD, localInRange⟩
    · rw [isEmpty]
      exact ⟨_, rfl, rfl⟩
    · obtain ⟨shownDate, shows⟩ := computeFields_of_isFixed isFixed inRange localInRange computed
      have sameDate := shows.isHybridDate.unique isHybrid
      rw [← sameDate] at isAD
      have fieldsOf : FieldsOf fields (time + zone.rawOffset) shownDate :=
        ⟨shows, localInRange, isAD⟩
      have keeps : Keeps fields time { state with fields, time, isTimeSet := true } :=
        ⟨rfl, fun _ => rfl⟩
      obtain ⟨final, setAll, keepsFinal⟩ :=
        keeps.setToItself isFixed inRange computed fieldsOf sequence areFields
      exact ⟨final, setAll, keepsFinal.getTime isFixed inRange fieldsOf⟩
  · intro noWeekDay unset unsetAfter noneSet unsetTime calls setsHalfDay
    rw [setTime unset] at unsetTime
    rw [← Option.some.inj unsetTime]
    have alike : Alike (∀ next ∈ calls, next.SetsHalfDay)
        { state with fields, time, isTimeSet := true }
        { unset with fields, time, isTimeSet := true } := by
      refine ⟨rfl, rfl, rfl, ?_, inRange, .inr ⟨?_, ?_, setsHalfDay⟩⟩
      · dsimp only
        rw [noWeekDay, noneSet]
        rfl
      · exact computeFields_hoursAgree inRange computed
      · dsimp only
        rw [noneSet]
        exact ⟨rfl, rfl, rfl⟩
    exact alike.returns_eq zone calls fun isLegal => isLegal

/-! ## A zone, and calendars that fail -/

theorem fixedZone_isFixed
    {rawOffset : Int}
    (inRange : InRange (fixedZone rawOffset).rawOffset)
    (small : (fixedZone rawOffset).useDaylight = true →
      0 ≤ (fixedZone rawOffset).dstSavings ∧ (fixedZone rawOffset).dstSavings < oneDay) :
    ((fixedZone rawOffset).timeZone inRange small).IsFixed := by
  intro year day dayOfWeek millis month inYear first last weekFirst weekLast nonneg below
  obtain ⟨savings, _, _, returned⟩ := (fixedZone rawOffset).getOffset_offsets inRange small year
    day dayOfWeek millis inYear ⟨first, last⟩ ⟨weekFirst, weekLast⟩ ⟨nonneg, below⟩
  have unused : (fixedZone rawOffset).useDaylight = false ∨ year < (fixedZone rawOffset).startYear ∨
      (1 : Int) ≠ 1 :=
    .inl rfl
  change (fixedZone rawOffset).getOffset 1 year month day dayOfWeek millis = some rawOffset
  rw [TimeZoneImpl.getOffset] at returned ⊢
  split at returned
  · cases returned
  · split at returned
    · cases returned
    · rw [if_neg (by omega), if_neg (by assumption), if_pos unused]
      rfl

/-- The zone of Greenwich. -/
def greenwich : TimeZone :=
  (fixedZone 0).timeZone (by decide) (by decide)

/-- A calendar of the beginning of 1970 on which no field has been set. -/
def newCalendar : CalendarState where
  fields := ⟨1970, 0, 1, 5, 0, 0, 0, 0, 0, 0⟩
  isSet := .none
  time := 0
  isTimeSet := true

theorem greenwich_setTime_runs :
    ∃ after, setTimeInMillis greenwich 86399999 newCalendar = some after ∧
      (∀ date sequence,
        (∀ field ∈ sequence, ∀ index, field ≠ Field.other index) →
        sequence = [] ∨
          IsHybridDate cutoverDay (dayOf (86399999 + greenwich.rawOffset)) date ∧
            1 ≤ date.year ∧ InLongRange (86399999 + greenwich.rawOffset) →
        ∃ final, setToItself greenwich sequence after = some final ∧
          (call greenwich final .getTime).1 = some 86399999) ∧
      (newCalendar.isSet.dayOfWeek = false →
        ∀ (unset unsetAfter : CalendarState), unset.isSet = Flags.none →
          setTimeInMillis greenwich 86399999 unset = some unsetAfter →
          ∀ calls : List Call,
            (newCalendar.isSet.hourOfDay = true → ∀ next ∈ calls, next.SetsHalfDay) →
            returns greenwich calls after = returns greenwich calls unsetAfter) :=
  setTime_runs greenwich (fixedZone_isFixed (by decide) (by decide))
    (show InLongRange 86399999 by decide) newCalendar

/-- Setting the minute of a time in the year 1 BC to itself gives a time in the year 1 AD; and a
day of the week that was set before the time moves the first of February 1970. -/
theorem setTime_forgets_era_and_keeps_flags :
    ((setTimeInMillis greenwich (-62135769600001) newCalendar).bind fun after =>
        (setToItself greenwich [.minute] after).map fun final =>
          (call greenwich final .getTime).1) ≠ some (some (-62135769600001)) ∧
      ((setTimeInMillis greenwich 0 (call greenwich newCalendar (.set .dayOfWeek 2)).2).map
          (returns greenwich [.set .month 1, .getTime])) ≠
        (setTimeInMillis greenwich 0 newCalendar).map
          (returns greenwich [.set .month 1, .getTime]) := by
  constructor
  · decide
  · decide

end PicoJvm.Time
