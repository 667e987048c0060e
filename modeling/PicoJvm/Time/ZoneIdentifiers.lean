import Mathlib.Data.List.Basic
import Mathlib.Tactic.Ring
import PicoJvm.Lib.Machine

/-!
# Identifiers of custom time zones

`TimeZoneImpl` makes a zone of an identifier such as `GMT+1:30`, and gives such a zone an identifier
of a fixed form.
-/

namespace PicoJvm.Time

open PicoJvm.Lib.Machine

/-! ## Zones -/

/-- What is used of a `TimeZoneImpl` without daylight saving. -/
structure Zone where
  rawOffset : Int
  ID : List UInt16
  isCustom : Bool
  deriving DecidableEq, Repr

/-- `GMT_ID`. -/
def gmtId : List UInt16 :=
  [71, 77, 84]

/-- `zones`. -/
def zones : List Zone :=
  [{ rawOffset := 0, ID := gmtId, isCustom := false },
    { rawOffset := 0, ID := [85, 84, 67], isCustom := false }]

/-! ## Parsing -/

/-- The variables of the loop of `parseCustomTimeZone`. -/
structure Counts where
  hours : Int
  num : Int
  countDelim : Nat
  len : Nat
  deriving DecidableEq, Repr

/-- The loop of `parseCustomTimeZone`. -/
def countDigits : List UInt16 → Counts → Option Counts
  | [], counts => some counts
  | c :: rest, counts =>
      if c = 58 then
        if 0 < counts.countDelim then none
        else if 2 < counts.len then none
        else countDigits rest { hours := counts.num, num := 0, countDelim := 1, len := 0 }
      else if c < 48 ∨ 57 < c then
        none
      else
        countDigits rest
          { counts with
            num := signed (signed (counts.num * 10) + (c.toNat - 48))
            len := counts.len + 1 }

/-- The hours and the minutes that have been counted, when the numbers of digits are accepted. -/
def Counts.hoursAndMinutes (counts : Counts) : Option (Int × Int) :=
  if counts.countDelim ≠ 0 ∧ counts.len ≠ 2 then none
  else if 4 < counts.len then none
  else if counts.countDelim ≠ 0 then some (counts.hours, counts.num)
  else if counts.len ≤ 2 then some (counts.num, 0)
  else some (counts.num.tdiv 100, counts.num.tmod 100)

/-- The zone of an accepted identifier. -/
def customZone (id : List UInt16) (negative : Bool) (hours num : Int) : Option Zone :=
  if 23 < hours ∨ 59 < num then
    none
  else
    let gmtOffset := signed (signed (signed (hours * 60) + num) * signed (60 * 1000))
    some
      { rawOffset := if negative then signed (-gmtOffset) else gmtOffset
        ID := id
        isCustom := true }

/-- `parseCustomTimeZone`, once the sign has been read. -/
def parseOffset (id rest : List UInt16) (negative : Bool) : Option Zone :=
  match countDigits rest { hours := 0, num := 0, countDelim := 0, len := 0 } with
  | none => none
  | some counts =>
      match counts.hoursAndMinutes with
      | none => none
      | some (hours, num) => customZone id negative hours num

/-- `parseCustomTimeZone`. -/
def parseCustomTimeZone (id : List UInt16) : Option Zone :=
  if id.length < 5 ∨ ¬ gmtId <+: id then
    none
  else
    match id.drop 3 with
    | [] => none
    | c :: rest =>
        if c = 45 then parseOffset id rest true
        else if c = 43 then parseOffset id rest false
        else none

/-- `getInstance`, of an identifier that is not null. -/
def getInstance (id : List UInt16) : Option Zone :=
  match zones.find? fun zone => decide (zone.ID = id) with
  | some zone => some zone
  | none => parseCustomTimeZone id

/-! ## Identifiers -/

/-- The digits of `StringBuffer.append(int)`, for a number that is not negative. -/
def decimal (number : Nat) : List UInt16 :=
  if number < 10 then [48 + UInt16.ofNat number]
  else decimal (number / 10) ++ [48 + UInt16.ofNat (number % 10)]

/-- `appendTwoDigits`. -/
def twoDigits (number : Nat) : List UInt16 :=
  (if number < 10 then [48] else []) ++ decimal number

/-- The minutes of the offset, without its sign. -/
def Zone.offsetMinutes (zone : Zone) : Nat :=
  let minutes := zone.rawOffset.tdiv (60 * 1000)
  (if minutes < 0 then signed (-minutes) else minutes).toNat

/-- `getID`. -/
def Zone.getID (zone : Zone) : List UInt16 :=
  if zone.isCustom = false then
    zone.ID
  else
    gmtId ++ [if zone.rawOffset < 0 then 45 else 43] ++ twoDigits (zone.offsetMinutes / 60) ++
      [58] ++ twoDigits (zone.offsetMinutes % 60)

/-! ## The form of an identifier -/

def IsDigit (c : UInt16) : Prop :=
  48 ≤ c.toNat ∧ c.toNat ≤ 57

def Digits (chars : List UInt16) : Prop :=
  ∀ c ∈ chars, IsDigit c

/-- The number that digits are, behind a number that has been read. -/
def valueFrom (number : Nat) (digits : List UInt16) : Nat :=
  digits.foldl (fun number c => number * 10 + (c.toNat - 48)) number

def value (digits : List UInt16) : Nat :=
  valueFrom 0 digits

/-- What may follow the sign, with the hours and the minutes. In front of a colon there are `fewest`
digits at least. -/
inductive Body (fewest : Nat) : List UInt16 → Nat → Nat → Prop
  | hours {h : List UInt16}
      (hDigits : Digits h)
      (count : h.length = 1 ∨ h.length = 2) :
      Body fewest h (value h) 0
  | together {h m : List UInt16}
      (hDigits : Digits h)
      (mDigits : Digits m)
      (count : h.length = 1 ∨ h.length = 2)
      (two : m.length = 2) :
      Body fewest (h ++ m) (value h) (value m)
  | apart {h m : List UInt16}
      (hDigits : Digits h)
      (mDigits : Digits m)
      (count : fewest ≤ h.length ∧ h.length ≤ 2)
      (two : m.length = 2) :
      Body fewest (h ++ 58 :: m) (value h) (value m)

/-- `GMT`, a sign, and what denotes an offset. -/
def Denotes (fewest : Nat) (id : List UInt16) (offset : Int) : Prop :=
  ∃ sign body hours minutes,
    id = gmtId ++ sign :: body ∧ Body fewest body hours minutes ∧ hours ≤ 23 ∧ minutes ≤ 59 ∧
      (sign = 43 ∧ offset = (hours * 60 + minutes : Nat) * 60000 ∨
        sign = 45 ∧ offset = -((hours * 60 + minutes : Nat) * 60000))

/-! ## Reading digits -/

/-- The wrapping number of the loop. -/
def numberFrom (num : Int) (digits : List UInt16) : Int :=
  digits.foldl (fun num c => signed (signed (num * 10) + (c.toNat - 48))) num

theorem digits_or_split (chars : List UInt16) :
    Digits chars ∨
      ∃ digits c rest, chars = digits ++ c :: rest ∧ Digits digits ∧ ¬ IsDigit c := by
  induction chars with
  | nil =>
      exact Or.inl fun _ impossible => absurd impossible List.not_mem_nil
  | cons first rest inductionHypothesis =>
      by_cases isDigit : IsDigit first
      · rcases inductionHypothesis with digits | ⟨digits, c, behind, split, areDigits, other⟩
        · exact Or.inl (List.forall_mem_cons.mpr ⟨isDigit, digits⟩)
        · refine Or.inr ⟨first :: digits, c, behind, ?_, ?_, other⟩
          · rw [split, List.cons_append]
          · exact List.forall_mem_cons.mpr ⟨isDigit, areDigits⟩
      · exact Or.inr ⟨[], first, rest, rfl, fun _ impossible => absurd impossible List.not_mem_nil,
          isDigit⟩

theorem isDigit_iff (c : UInt16) : IsDigit c ↔ ¬ (c < 48 ∨ 57 < c) := by
  simp only [IsDigit, UInt16.lt_iff_toNat_lt, UInt16.reduceToNat]
  omega

theorem not_isDigit_colon : ¬ IsDigit 58 := by
  simp [IsDigit]

theorem countDigits_nil (counts : Counts) : countDigits [] counts = some counts :=
  rfl

theorem countDigits_cons (c : UInt16) (rest : List UInt16) (counts : Counts) :
    countDigits (c :: rest) counts =
      if c = 58 then
        if 0 < counts.countDelim then none
        else if 2 < counts.len then none
        else countDigits rest { hours := counts.num, num := 0, countDelim := 1, len := 0 }
      else if c < 48 ∨ 57 < c then
        none
      else
        countDigits rest
          { counts with
            num := signed (signed (counts.num * 10) + (c.toNat - 48))
            len := counts.len + 1 } :=
  rfl

theorem countDigits_append
    {digits : List UInt16}
    (areDigits : Digits digits)
    (rest : List UInt16)
    (counts : Counts) :
    countDigits (digits ++ rest) counts =
      countDigits rest
        { counts with
          num := numberFrom counts.num digits
          len := counts.len + digits.length } := by
  induction digits generalizing counts with
  | nil =>
      rfl
  | cons first digits inductionHypothesis =>
      obtain ⟨isDigit, areDigits⟩ := List.forall_mem_cons.mp areDigits
      have notColon : first ≠ 58 := fun colon => not_isDigit_colon (colon ▸ isDigit)
      have inRange := (isDigit_iff first).mp isDigit
      rw [List.cons_append, countDigits_cons, if_neg notColon, if_neg inRange,
        inductionHypothesis areDigits]
      simp only [numberFrom, List.foldl_cons, List.length_cons]
      rw [Nat.add_assoc, Nat.add_comm 1]

theorem countDigits_other
    {c : UInt16}
    (other : ¬ IsDigit c)
    (notColon : c ≠ 58)
    (rest : List UInt16)
    (counts : Counts) :
    countDigits (c :: rest) counts = none := by
  rw [isDigit_iff, not_not] at other
  rw [countDigits_cons, if_neg notColon, if_pos other]

/-- Behind a colon only digits are accepted. -/
theorem countDigits_behind_colon_iff
    {chars : List UInt16} {hours : Int} {counts : Counts} :
    countDigits chars { hours := hours, num := 0, countDelim := 1, len := 0 } = some counts ↔
      Digits chars ∧
        counts =
          { hours := hours, num := numberFrom 0 chars, countDelim := 1, len := chars.length } := by
  rcases digits_or_split chars with digits | ⟨digits, c, rest, rfl, areDigits, other⟩
  · have read := countDigits_append digits []
      { hours := hours, num := 0, countDelim := 1, len := 0 }
    rw [List.append_nil, countDigits_nil, Nat.zero_add] at read
    rw [read, Option.some.injEq]
    exact ⟨fun same => ⟨digits, same.symm⟩, fun facts => facts.2.symm⟩
  · have refused :
        countDigits (digits ++ c :: rest) { hours := hours, num := 0, countDelim := 1, len := 0 } =
          none := by
      rw [countDigits_append areDigits]
      by_cases colon : c = 58
      · rw [countDigits_cons, if_pos colon, if_pos Nat.one_pos]
      · exact countDigits_other other colon _ _
    rw [refused]
    constructor
    · intro impossible
      cases impossible
    · rintro ⟨areAllDigits, _⟩
      exact absurd (areAllDigits c (by simp)) other

/-- What the loop accepts: digits, with at most one colon behind two digits at most. -/
theorem countDigits_eq_some_iff {chars : List UInt16} {counts : Counts} :
    countDigits chars { hours := 0, num := 0, countDelim := 0, len := 0 } = some counts ↔
      (Digits chars ∧
          counts =
            { hours := 0, num := numberFrom 0 chars, countDelim := 0, len := chars.length }) ∨
        ∃ h m, chars = h ++ 58 :: m ∧ Digits h ∧ Digits m ∧ h.length ≤ 2 ∧
          counts =
            { hours := numberFrom 0 h, num := numberFrom 0 m, countDelim := 1, len := m.length } := by
  constructor
  · intro accepted
    rcases digits_or_split chars with digits | ⟨h, c, m, rfl, hDigits, other⟩
    · have read := countDigits_append digits []
        { hours := 0, num := 0, countDelim := 0, len := 0 }
      rw [List.append_nil, accepted, countDigits_nil, Option.some.injEq] at read
      exact Or.inl ⟨digits, by rw [read, Nat.zero_add]⟩
    · rw [countDigits_append hDigits] at accepted
      by_cases colon : c = 58
      · rw [countDigits_cons, if_pos colon, if_neg (Nat.lt_irrefl 0), Nat.zero_add] at accepted
        split at accepted
        · cases accepted
        · next short =>
            obtain ⟨mDigits, same⟩ := countDigits_behind_colon_iff.1 accepted
            exact Or.inr ⟨h, m, by rw [colon], hDigits, mDigits, Nat.le_of_not_lt short, same⟩
      · rw [countDigits_other other colon] at accepted
        cases accepted
  · rintro (⟨digits, rfl⟩ | ⟨h, m, rfl, hDigits, mDigits, short, rfl⟩)
    · have read := countDigits_append digits []
        { hours := 0, num := 0, countDelim := 0, len := 0 }
      rw [List.append_nil, countDigits_nil, Nat.zero_add] at read
      exact read
    · rw [countDigits_append hDigits, countDigits_cons, if_pos rfl, if_neg (Nat.lt_irrefl 0),
        Nat.zero_add, if_neg (Nat.not_lt.mpr short)]
      exact countDigits_behind_colon_iff.2 ⟨mDigits, rfl⟩

/-! ## Values -/

theorem valueFrom_lt
    {digits : List UInt16}
    (areDigits : Digits digits)
    (number : Nat) :
    valueFrom number digits < (number + 1) * 10 ^ digits.length := by
  induction digits generalizing number with
  | nil =>
      simp [valueFrom]
  | cons first digits inductionHypothesis =>
      obtain ⟨isDigit, areDigits⟩ := List.forall_mem_cons.mp areDigits
      have below := inductionHypothesis areDigits (number * 10 + (first.toNat - 48))
      have upper := isDigit.2
      calc
        valueFrom number (first :: digits) =
            valueFrom (number * 10 + (first.toNat - 48)) digits := rfl
        _ < (number * 10 + (first.toNat - 48) + 1) * 10 ^ digits.length := below
        _ ≤ ((number + 1) * 10) * 10 ^ digits.length :=
            Nat.mul_le_mul_right _ (by omega)
        _ = (number + 1) * 10 ^ (first :: digits).length := by
            rw [List.length_cons, Nat.pow_succ]
            ring

theorem value_lt {digits : List UInt16} (areDigits : Digits digits) :
    value digits < 10 ^ digits.length := by
  have below := valueFrom_lt areDigits 0
  rwa [Nat.zero_add, Nat.one_mul] at below

theorem valueFrom_append (number : Nat) (digits digits' : List UInt16) :
    valueFrom number (digits ++ digits') = valueFrom (valueFrom number digits) digits' :=
  List.foldl_append

/-- Two more digits. -/
theorem value_append_two
    {h m : List UInt16}
    (two : m.length = 2) :
    value (h ++ m) = value h * 100 + value m := by
  rw [value, valueFrom_append]
  obtain ⟨tens, units, rfl⟩ := List.length_eq_two.mp two
  simp only [value, valueFrom, List.foldl_cons, List.foldl_nil]
  omega

/-- Few digits do not wrap. -/
theorem numberFrom_eq
    {digits : List UInt16}
    (areDigits : Digits digits)
    {number : Nat}
    (small : (number + 1) * 10 ^ digits.length ≤ 1000000000) :
    numberFrom number digits = valueFrom number digits := by
  induction digits generalizing number with
  | nil =>
      rfl
  | cons first digits inductionHypothesis =>
      obtain ⟨isDigit, areDigits⟩ := List.forall_mem_cons.mp areDigits
      obtain ⟨lower, upper⟩ := isDigit
      have power : 1 ≤ 10 ^ digits.length := Nat.one_le_pow _ _ (by decide)
      rw [List.length_cons, Nat.pow_succ] at small
      have grown : (number * 10 + (first.toNat - 48) + 1) * 10 ^ digits.length ≤ 1000000000 :=
        calc
          (number * 10 + (first.toNat - 48) + 1) * 10 ^ digits.length ≤
              ((number + 1) * 10) * 10 ^ digits.length := Nat.mul_le_mul_right _ (by omega)
          _ = (number + 1) * (10 ^ digits.length * 10) := by ring
          _ ≤ 1000000000 := small
      have bounded : number * 10 + (first.toNat - 48) + 1 ≤ 1000000000 :=
        Nat.le_trans (Nat.le_mul_of_pos_right _ power) grown
      have product : signed ((number : Int) * 10) = (number : Int) * 10 :=
        signed_of_inRange ⟨by omega, by omega⟩
      have step :
          signed (signed ((number : Int) * 10) + (first.toNat - 48)) =
            ((number * 10 + (first.toNat - 48) : Nat) : Int) := by
        rw [product, signed_of_inRange ⟨by omega, by omega⟩]
        omega
      rw [numberFrom, List.foldl_cons, step]
      exact inductionHypothesis areDigits grown

theorem numberFrom_zero_eq
    {digits : List UInt16}
    (areDigits : Digits digits)
    (short : digits.length ≤ 4) :
    numberFrom 0 digits = value digits := by
  apply numberFrom_eq areDigits
  have power : 10 ^ digits.length ≤ 10 ^ 4 := Nat.pow_le_pow_right (by decide) short
  rw [Nat.zero_add, Nat.one_mul]
  exact Nat.le_trans power (by decide)

/-! ## What is accepted -/

/-- What is made of the hours and the minutes. -/
theorem customZone_eq_some_iff
    {id : List UInt16} {negative : Bool} {hours minutes : Nat} {zone : Zone}
    (hoursBelow : hours < 100)
    (minutesBelow : minutes < 100) :
    customZone id negative hours minutes = some zone ↔
      hours ≤ 23 ∧ minutes ≤ 59 ∧
        zone =
          { rawOffset :=
              if negative then -((hours * 60 + minutes : Nat) * 60000)
              else (hours * 60 + minutes : Nat) * 60000
            ID := id
            isCustom := true } := by
  have factor : signed (60 * 1000) = 60000 := by decide
  have product : signed ((hours : Int) * 60) = (hours : Int) * 60 :=
    signed_of_inRange ⟨by omega, by omega⟩
  have sum : signed ((hours : Int) * 60 + minutes) = ((hours * 60 + minutes : Nat) : Int) := by
    rw [signed_of_inRange ⟨by omega, by omega⟩]
    omega
  have offset :
      signed (((hours * 60 + minutes : Nat) : Int) * 60000) =
        ((hours * 60 + minutes : Nat) : Int) * 60000 :=
    signed_of_inRange ⟨by omega, by omega⟩
  have negated :
      signed (-(((hours * 60 + minutes : Nat) : Int) * 60000)) =
        -(((hours * 60 + minutes : Nat) : Int) * 60000) :=
    signed_of_inRange ⟨by omega, by omega⟩
  simp only [customZone, factor, product, sum, offset, negated]
  split
  · constructor
    · intro impossible
      cases impossible
    · omega
  · rw [Option.some.injEq]
    constructor
    · intro same
      exact ⟨by omega, by omega, same.symm⟩
    · exact fun facts => facts.2.2.symm

/-- The numbers of digits that are accepted, and what they are taken for. -/
theorem hoursAndMinutes_iff {body : List UInt16} {hours minutes : Int} :
    (∃ counts,
        countDigits body { hours := 0, num := 0, countDelim := 0, len := 0 } = some counts ∧
          counts.hoursAndMinutes = some (hours, minutes)) ↔
      (Digits body ∧ body = [] ∧ hours = 0 ∧ minutes = 0) ∨
        ∃ h m, Body 0 body h m ∧ hours = h ∧ minutes = m := by
  constructor
  · rintro ⟨counts, read, result⟩
    rcases countDigits_eq_some_iff.1 read with
      ⟨digits, rfl⟩ | ⟨h, m, rfl, hDigits, mDigits, short, rfl⟩
    · simp only [Counts.hoursAndMinutes, ne_eq, not_true_eq_false, false_and, if_false] at result
      split at result
      · cases result
      · next atMostFour =>
          have isValue := numberFrom_zero_eq digits (Nat.le_of_not_lt atMostFour)
          rw [isValue] at result
          split at result
          · next atMostTwo =>
              cases result
              cases body with
              | nil => exact Or.inl ⟨digits, rfl, rfl, rfl⟩
              | cons first rest =>
                  rw [List.length_cons] at atMostTwo
                  exact Or.inr ⟨_, _, .hours digits (by rw [List.length_cons]; omega), rfl, rfl⟩
          · next moreThanTwo =>
              right
              let front := body.take (body.length - 2)
              let last := body.drop (body.length - 2)
              have rejoined : front ++ last = body := List.take_append_drop _ _
              have two : last.length = 2 := by
                rw [List.length_drop]
                omega
              have frontDigits : Digits front := fun c listed => digits c (List.mem_of_mem_take listed)
              have lastDigits : Digits last := fun c listed => digits c (List.mem_of_mem_drop listed)
              have isBody : Body 0 (front ++ last) (value front) (value last) :=
                .together frontDigits lastDigits (by
                  rw [List.length_take]
                  omega) two
              have below : value last < 100 := by
                have bounded := value_lt lastDigits
                rwa [two] at bounded
              have sum : value body = value front * 100 + value last := by
                rw [← rejoined, value_append_two two]
              rw [rejoined] at isBody
              have quotient : ((value body : Nat) : Int).tdiv 100 = value front := by
                rw [sum, Int.tdiv_eq_ediv_of_nonneg (by omega)]
                omega
              have remainder : ((value body : Nat) : Int).tmod 100 = value last := by
                rw [sum, Int.tmod_eq_emod_of_nonneg (by omega)]
                omega
              rw [quotient, remainder] at result
              cases result
              exact ⟨_, _, isBody, rfl, rfl⟩
    · simp only [Counts.hoursAndMinutes] at result
      split at result
      · cases result
      · next two =>
          have isTwo : m.length = 2 := by
            by_contra other
            exact two ⟨by decide, other⟩
          rw [if_neg (by omega), if_pos (by decide), numberFrom_zero_eq hDigits (by omega),
            numberFrom_zero_eq mDigits (by omega)] at result
          cases result
          exact Or.inr ⟨_, _, .apart hDigits mDigits ⟨Nat.zero_le _, short⟩ isTwo, rfl, rfl⟩
  · rintro (⟨digits, rfl, rfl, rfl⟩ | ⟨h, m, isBody, rfl, rfl⟩)
    · exact ⟨_, rfl, rfl⟩
    · cases isBody with
      | hours hDigits count =>
          refine ⟨_, countDigits_eq_some_iff.2 (Or.inl ⟨hDigits, rfl⟩), ?_⟩
          simp only [Counts.hoursAndMinutes, ne_eq, not_true_eq_false, false_and, if_false]
          rw [if_neg (by omega), if_pos (by omega), numberFrom_zero_eq hDigits (by omega)]
          rfl
      | together hDigits mDigits count two =>
          have digits : Digits (_ ++ _) := fun c listed =>
            (List.mem_append.mp listed).elim (hDigits c) (mDigits c)
          refine ⟨_, countDigits_eq_some_iff.2 (Or.inl ⟨digits, rfl⟩), ?_⟩
          have below := value_lt mDigits
          rw [two] at below
          simp only [Counts.hoursAndMinutes, ne_eq, not_true_eq_false, false_and, if_false,
            List.length_append, two]
          rw [if_neg (by omega), if_neg (by omega),
            numberFrom_zero_eq digits (by rw [List.length_append]; omega), value_append_two two,
            Int.tdiv_eq_ediv_of_nonneg (by omega), Int.tmod_eq_emod_of_nonneg (by omega)]
          congr 2 <;> omega
      | apart hDigits mDigits count two =>
          refine ⟨_, countDigits_eq_some_iff.2
            (Or.inr ⟨_, _, rfl, hDigits, mDigits, count.2, rfl⟩), ?_⟩
          simp only [Counts.hoursAndMinutes, two]
          rw [numberFrom_zero_eq hDigits (by omega), numberFrom_zero_eq mDigits (by omega)]
          rfl

theorem Body.lt_hundred
    {fewest : Nat} {body : List UInt16} {hours minutes : Nat}
    (isBody : Body fewest body hours minutes) :
    hours < 100 ∧ minutes < 100 := by
  have two_digits : ∀ {digits : List UInt16}, Digits digits → digits.length ≤ 2 →
      value digits < 100 := by
    intro digits areDigits short
    have power : 10 ^ digits.length ≤ 10 ^ 2 := Nat.pow_le_pow_right (by decide) short
    exact Nat.lt_of_lt_of_le (value_lt areDigits) power
  cases isBody with
  | hours hDigits count => exact ⟨two_digits hDigits (by omega), by decide⟩
  | together hDigits mDigits count two =>
      exact ⟨two_digits hDigits (by omega), two_digits mDigits (by omega)⟩
  | apart hDigits mDigits count two =>
      exact ⟨two_digits hDigits count.2, two_digits mDigits (by omega)⟩

/-- With something behind the sign, the zone is that of the hours and the minutes. -/
theorem parseOffset_eq_some_iff
    {id body : List UInt16} {negative : Bool} {zone : Zone}
    (notEmpty : body ≠ []) :
    parseOffset id body negative = some zone ↔
      ∃ hours minutes, Body 0 body hours minutes ∧ hours ≤ 23 ∧ minutes ≤ 59 ∧
        zone =
          { rawOffset :=
              if negative then -((hours * 60 + minutes : Nat) * 60000)
              else (hours * 60 + minutes : Nat) * 60000
            ID := id
            isCustom := true } := by
  constructor
  · intro parsed
    simp only [parseOffset] at parsed
    split at parsed
    · cases parsed
    · next counts read =>
        split at parsed
        · cases parsed
        · next hours minutes result =>
            rcases hoursAndMinutes_iff.1 ⟨counts, read, result⟩ with
              ⟨_, empty, _⟩ | ⟨h, m, isBody, rfl, rfl⟩
            · exact absurd empty notEmpty
            · obtain ⟨hoursBelow, minutesBelow⟩ := isBody.lt_hundred
              exact ⟨h, m, isBody, (customZone_eq_some_iff hoursBelow minutesBelow).mp parsed⟩
  · rintro ⟨h, m, isBody, zoneIs⟩
    obtain ⟨hoursBelow, minutesBelow⟩ := isBody.lt_hundred
    obtain ⟨counts, read, result⟩ := hoursAndMinutes_iff.2 (Or.inr ⟨h, m, isBody, rfl, rfl⟩)
    simp only [parseOffset, read, result]
    exact (customZone_eq_some_iff hoursBelow minutesBelow).mpr zoneIs

theorem Body.length_pos
    {fewest : Nat} {body : List UInt16} {hours minutes : Nat}
    (isBody : Body fewest body hours minutes) :
    0 < body.length := by
  cases isBody with
  | hours hDigits count => omega
  | together hDigits mDigits count two =>
      rw [List.length_append]
      omega
  | apart hDigits mDigits count two =>
      rw [List.length_append, List.length_cons]
      omega

/-- What `parseCustomTimeZone` makes of an identifier. The hours may be missing in front of a
colon. -/
theorem parseCustomTimeZone_eq_some_iff {id : List UInt16} {zone : Zone} :
    parseCustomTimeZone id = some zone ↔
      Denotes 0 id zone.rawOffset ∧ zone.ID = id ∧ zone.isCustom = true := by
  constructor
  · intro parsed
    rw [parseCustomTimeZone] at parsed
    split at parsed
    · cases parsed
    · next accepted =>
        rw [not_or, Nat.not_lt, not_not] at accepted
        obtain ⟨long, rest, rfl⟩ := accepted
        rw [show (gmtId ++ rest).drop 3 = rest from rfl] at parsed
        cases rest with
        | nil => cases parsed
        | cons sign body =>
            have notEmpty : body ≠ [] := by
              rintro rfl
              exact absurd long (by simp [gmtId])
            simp only at parsed
            split at parsed
            · next minus =>
                obtain ⟨hours, minutes, isBody, hoursLe, minutesLe, rfl⟩ :=
                  (parseOffset_eq_some_iff notEmpty).mp parsed
                exact ⟨⟨sign, body, hours, minutes, rfl, isBody, hoursLe, minutesLe,
                  Or.inr ⟨minus, rfl⟩⟩, rfl, rfl⟩
            · split at parsed
              · next plus =>
                  obtain ⟨hours, minutes, isBody, hoursLe, minutesLe, rfl⟩ :=
                    (parseOffset_eq_some_iff notEmpty).mp parsed
                  exact ⟨⟨sign, body, hours, minutes, rfl, isBody, hoursLe, minutesLe,
                    Or.inl ⟨plus, rfl⟩⟩, rfl, rfl⟩
              · cases parsed
  · rintro ⟨⟨sign, body, hours, minutes, rfl, isBody, hoursLe, minutesLe, isSign⟩, isID, custom⟩
    have positive := isBody.length_pos
    have notEmpty : body ≠ [] := List.ne_nil_of_length_pos positive
    have accepted :
        ¬ ((gmtId ++ sign :: body).length < 5 ∨ ¬ gmtId <+: gmtId ++ sign :: body) := by
      rw [not_or, not_not, List.length_append, List.length_cons]
      exact ⟨by simp only [gmtId, List.length_cons, List.length_nil]; omega,
        List.prefix_append _ _⟩
    rw [parseCustomTimeZone, if_neg accepted]
    rcases isSign with ⟨rfl, offset⟩ | ⟨rfl, offset⟩
    · refine (parseOffset_eq_some_iff notEmpty).mpr
        ⟨hours, minutes, isBody, hoursLe, minutesLe, ?_⟩
      cases zone
      simp only at isID custom offset
      rw [isID, custom, offset]
      rfl
    · refine (parseOffset_eq_some_iff notEmpty).mpr
        ⟨hours, minutes, isBody, hoursLe, minutesLe, ?_⟩
      cases zone
      simp only at isID custom offset
      rw [isID, custom, offset]
      rfl

/-! ## The identifier of a zone -/

theorem twoDigits_eq {number : Nat} (below : number < 100) :
    twoDigits number = [48 + UInt16.ofNat (number / 10), 48 + UInt16.ofNat (number % 10)] := by
  rw [twoDigits, decimal]
  by_cases small : number < 10
  · rw [if_pos small, if_pos small, Nat.div_eq_of_lt small, Nat.mod_eq_of_lt small]
    rfl
  · rw [if_neg small, if_neg small, decimal, if_pos (by omega)]
    rfl

theorem toNat_digit {digit : Nat} (below : digit < 10) :
    (48 + UInt16.ofNat digit).toNat = 48 + digit := by
  rw [UInt16.toNat_add, UInt16.toNat_ofNat']
  simp only [UInt16.reduceToNat]
  omega

theorem digits_twoDigits {number : Nat} (below : number < 100) : Digits (twoDigits number) := by
  rw [twoDigits_eq below]
  intro c listed
  simp only [List.mem_cons, List.not_mem_nil, or_false] at listed
  rcases listed with rfl | rfl
  · rw [IsDigit, toNat_digit (by omega)]
    omega
  · rw [IsDigit, toNat_digit (by omega)]
    omega

theorem value_twoDigits {number : Nat} (below : number < 100) :
    value (twoDigits number) = number := by
  rw [twoDigits_eq below]
  simp only [value, valueFrom, List.foldl_cons, List.foldl_nil]
  rw [toNat_digit (by omega), toNat_digit (by omega)]
  omega

/-- The identifier of a custom zone denotes its offset. -/
theorem denotes_getID
    {id : List UInt16} {fewest : Nat} {zone : Zone}
    (denotes : Denotes fewest id zone.rawOffset)
    (isCustom : zone.isCustom = true) :
    Denotes 1 zone.getID zone.rawOffset := by
  obtain ⟨sign, body, hours, minutes, _, _, hoursLe, minutesLe, offset⟩ := denotes
  generalize isTotal : hours * 60 + minutes = total at offset
  have small : total < 1440 := by omega
  have inMinutes : zone.offsetMinutes = total := by
    have quotient : zone.rawOffset.tdiv 60000 = total ∨ zone.rawOffset.tdiv 60000 = -total := by
      rcases offset with ⟨_, same⟩ | ⟨_, same⟩
      · left
        rw [same]
        exact Int.mul_tdiv_cancel _ (by decide)
      · right
        rw [same, Int.neg_tdiv, Int.mul_tdiv_cancel _ (by decide)]
    simp only [Zone.offsetMinutes, show (60 * 1000 : Int) = 60000 by decide]
    rcases quotient with same | same
    · rw [same, if_neg (by omega), Int.toNat_natCast]
    · rw [same]
      split
      · rw [signed_of_inRange ⟨by omega, by omega⟩, Int.neg_neg, Int.toNat_natCast]
      · omega
  have isID :
      zone.getID =
        gmtId ++ (if zone.rawOffset < 0 then 45 else 43) ::
          (twoDigits (total / 60) ++ 58 :: twoDigits (total % 60)) := by
    simp [Zone.getID, isCustom, inMinutes]
  have hoursBelow : total / 60 < 100 := by omega
  have minutesBelow : total % 60 < 100 := by omega
  have isBody : Body 1 (twoDigits (total / 60) ++ 58 :: twoDigits (total % 60)) _ _ :=
    .apart (digits_twoDigits hoursBelow) (digits_twoDigits minutesBelow)
      (by simp [twoDigits_eq hoursBelow]) (by simp [twoDigits_eq minutesBelow])
  rw [value_twoDigits hoursBelow, value_twoDigits minutesBelow] at isBody
  refine ⟨_, _, _, _, isID, isBody, by omega, by omega, ?_⟩
  rw [show total / 60 * 60 + total % 60 = total by omega]
  by_cases west : zone.rawOffset < 0
  · rw [if_pos west]
    rcases offset with ⟨_, same⟩ | ⟨_, same⟩
    · omega
    · exact Or.inr ⟨rfl, same⟩
  · rw [if_neg west]
    rcases offset with ⟨_, same⟩ | ⟨_, same⟩
    · exact Or.inl ⟨rfl, same⟩
    · exact Or.inl ⟨rfl, by omega⟩

theorem Body.weaken
    {body : List UInt16} {hours minutes : Nat}
    (isBody : Body 1 body hours minutes) :
    Body 0 body hours minutes := by
  cases isBody with
  | hours hDigits count => exact .hours hDigits count
  | together hDigits mDigits count two => exact .together hDigits mDigits count two
  | apart hDigits mDigits count two =>
      exact .apart hDigits mDigits ⟨Nat.zero_le _, count.2⟩ two

theorem Denotes.weaken
    {id : List UInt16} {offset : Int}
    (denotes : Denotes 1 id offset) :
    Denotes 0 id offset := by
  obtain ⟨sign, body, hours, minutes, isID, isBody, bounds⟩ := denotes
  exact ⟨sign, body, hours, minutes, isID, isBody.weaken, bounds⟩

/-- The identifier of a custom zone is none of the table's. -/
theorem find_getID
    {zone : Zone}
    (denotes : Denotes 1 zone.getID zone.rawOffset) :
    (zones.find? fun listed => decide (listed.ID = zone.getID)) = none := by
  obtain ⟨sign, body, hours, minutes, isID, _⟩ := denotes
  rw [isID]
  apply List.find?_eq_none.mpr
  intro listed isListed
  simp only [zones, List.mem_cons, List.not_mem_nil, or_false] at isListed
  rcases isListed with rfl | rfl <;> simp [gmtId]

/-- An accepted identifier and the identifier of its zone denote the same offset. -/
theorem getInstance_getID
    {id : List UInt16} {zone : Zone}
    (parsed : parseCustomTimeZone id = some zone) :
    (getInstance zone.getID).map Zone.rawOffset = some zone.rawOffset := by
  obtain ⟨denotes, _, custom⟩ := parseCustomTimeZone_eq_some_iff.1 parsed
  have again := denotes_getID denotes custom
  have reparsed :
      parseCustomTimeZone zone.getID =
        some { rawOffset := zone.rawOffset, ID := zone.getID, isCustom := true } :=
    parseCustomTimeZone_eq_some_iff.2 ⟨again.weaken, rfl, rfl⟩
  rw [getInstance, find_getID again]
  simp [reparsed]

/-! ## The custom form -/

/-- `GMT`, a sign, a colon and two digits for the minutes, with no digit for the hours. -/
def EmptyHours (id : List UInt16) : Prop :=
  ∃ sign minutes,
    (sign = 43 ∨ sign = 45) ∧ id = gmtId ++ sign :: 58 :: minutes ∧
      Digits minutes ∧ minutes.length = 2 ∧ value minutes ≤ 59

theorem digits_of_body_one
    {body : List UInt16} {hours minutes : Nat}
    (isBody : Body 1 body hours minutes) :
    ∃ first rest, body = first :: rest ∧ IsDigit first := by
  have front : ∀ (rest : List UInt16) {digits : List UInt16}, Digits digits → 1 ≤ digits.length →
      ∃ first behind, digits ++ rest = first :: behind ∧ IsDigit first := by
    intro rest digits areDigits positive
    obtain ⟨first, behind, rfl⟩ := List.exists_cons_of_length_pos positive
    exact ⟨first, behind ++ rest, rfl, areDigits first List.mem_cons_self⟩
  cases isBody with
  | hours hDigits count =>
      obtain ⟨first, behind, split, isDigit⟩ := front [] hDigits (by omega)
      rw [List.append_nil] at split
      exact ⟨first, behind, split, isDigit⟩
  | together hDigits mDigits count two => exact front _ hDigits (by omega)
  | apart hDigits mDigits count two => exact front _ hDigits count.1

/-- Without an hour digit the identifier is not of the custom form. -/
theorem not_denotes_of_emptyHours
    {id : List UInt16} {offset : Int}
    (empty : EmptyHours id) :
    ¬ Denotes 1 id offset := by
  obtain ⟨sign, minutes, _, rfl, _⟩ := empty
  rintro ⟨sign', body, hours, minutes', same, isBody, _⟩
  have tails := List.append_cancel_left same
  rw [List.cons.injEq] at tails
  obtain ⟨first, behind, split, isDigit⟩ := digits_of_body_one isBody
  rw [← tails.2, List.cons.injEq] at split
  exact not_isDigit_colon (split.1 ▸ isDigit)

/-- What the loop allows beyond the custom form. -/
theorem denotes_zero_iff {id : List UInt16} :
    (∃ offset, Denotes 0 id offset) ↔ (∃ offset, Denotes 1 id offset) ∨ EmptyHours id := by
  constructor
  · rintro ⟨offset, sign, body, hours, minutes, isID, isBody, hoursLe, minutesLe, isOffset⟩
    cases isBody with
    | hours hDigits count =>
        exact Or.inl ⟨offset, sign, _, _, _, isID, .hours hDigits count, hoursLe, minutesLe,
          isOffset⟩
    | together hDigits mDigits count two =>
        exact Or.inl ⟨offset, sign, _, _, _, isID, .together hDigits mDigits count two, hoursLe,
          minutesLe, isOffset⟩
    | apart hDigits mDigits count two =>
        next h m =>
        cases h with
        | nil =>
            exact Or.inr ⟨sign, m, isOffset.imp And.left And.left, isID, mDigits, two, minutesLe⟩
        | cons first rest =>
            have positive : 1 ≤ (first :: rest).length := Nat.succ_le_succ (Nat.zero_le _)
            exact Or.inl ⟨offset, sign, _, _, _, isID,
              .apart hDigits mDigits ⟨positive, count.2⟩ two, hoursLe, minutesLe, isOffset⟩
  · rintro (⟨offset, denotes⟩ | ⟨sign, m, isSign, isID, mDigits, two, minutesLe⟩)
    · exact ⟨offset, denotes.weaken⟩
    · have noDigits : Digits [] := fun _ impossible => absurd impossible List.not_mem_nil
      have isBody : Body 0 ([] ++ 58 :: m) (value []) (value m) :=
        .apart noDigits mDigits ⟨Nat.le_refl _, Nat.zero_le _⟩ two
      rcases isSign with plus | minus
      · exact ⟨_, sign, _, _, _, isID, isBody, by decide, minutesLe, Or.inl ⟨plus, rfl⟩⟩
      · exact ⟨_, sign, _, _, _, isID, isBody, by decide, minutesLe, Or.inr ⟨minus, rfl⟩⟩

/-- An identifier is accepted exactly when it has the custom form, and its zone's own identifier has
the same offset. -/
def ReadsCustomForm (id : List UInt16) : Prop :=
  ((parseCustomTimeZone id).isSome ↔ ∃ offset, Denotes 1 id offset) ∧
    ∀ zone, parseCustomTimeZone id = some zone →
      (getInstance zone.getID).map Zone.rawOffset = some zone.rawOffset

theorem isSome_parseCustomTimeZone_iff {id : List UInt16} :
    (parseCustomTimeZone id).isSome ↔ ∃ offset, Denotes 0 id offset := by
  rw [Option.isSome_iff_exists]
  constructor
  · rintro ⟨zone, parsed⟩
    exact ⟨zone.rawOffset, (parseCustomTimeZone_eq_some_iff.1 parsed).1⟩
  · rintro ⟨offset, denotes⟩
    exact ⟨{ rawOffset := offset, ID := id, isCustom := true },
      parseCustomTimeZone_eq_some_iff.2 ⟨denotes, rfl, rfl⟩⟩

theorem not_readsCustomForm {id : List UInt16} (empty : EmptyHours id) : ¬ ReadsCustomForm id := by
  rw [ReadsCustomForm, isSome_parseCustomTimeZone_iff, denotes_zero_iff]
  intro reads
  obtain ⟨offset, denotes⟩ := reads.1.mp (Or.inr empty)
  exact not_denotes_of_emptyHours empty denotes

/-- The identifiers that are read as they should be. -/
theorem readsCustomForm_iff (id : List UInt16) : ReadsCustomForm id ↔ ¬ EmptyHours id := by
  constructor
  · intro reads empty
    exact not_readsCustomForm empty reads
  · intro notEmpty
    rw [ReadsCustomForm, isSome_parseCustomTimeZone_iff, denotes_zero_iff]
    exact ⟨or_iff_left notEmpty, fun zone parsed => getInstance_getID parsed⟩

/-- `GMT+:30` is accepted. -/
theorem emptyHours_accepted : ¬ ∀ id, ReadsCustomForm id := by
  intro always
  have empty : EmptyHours [71, 77, 84, 43, 58, 51, 48] :=
    ⟨43, [51, 48], Or.inl rfl, rfl, by simp [Digits, IsDigit], rfl, by decide⟩
  exact not_readsCustomForm empty (always _)

end PicoJvm.Time
