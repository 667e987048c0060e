import Mathlib.Data.Nat.Digits.Defs
import PicoJvm.Lib.LongInteger

/-!
# Integers as text

`Integer` and `Long` write a number in a radix and read it back. Both directions go over values
that are not positive, of which each type has one more than it has values that are not negative.
-/

namespace PicoJvm.Text

open PicoJvm.Lib.Machine PicoJvm.Lib.LongInteger

/-! ## Digits -/

/-- `DefaultCaseConverter.isUpperCase`. -/
def isUpperCase (ch : UInt16) : Bool :=
  (0x41 ≤ ch && ch ≤ 0x5A) || (0xC0 ≤ ch && ch ≤ 0xD6) || (0xD8 ≤ ch && ch ≤ 0xDE)

/-- `DefaultCaseConverter.isLowerCase`. -/
def isLowerCase (ch : UInt16) : Bool :=
  (0x61 ≤ ch && ch ≤ 0x7A) || (0xDF ≤ ch && ch ≤ 0xF6) || (0xF8 ≤ ch && ch ≤ 0xFF)

/-- `DefaultCaseConverter.isDigit`. -/
def isDigit (ch : UInt16) : Bool :=
  0x30 ≤ ch && ch ≤ 0x39

/-- The value that `DefaultCaseConverter.digit` gives a character, before it is compared with the
radix. -/
def digitValue (ch : UInt16) : Int :=
  if isDigit ch then ch.toNat - 0x30
  else if isUpperCase ch || isLowerCase ch then (ch &&& 0x1F).toNat + 9
  else -1

/-- `Character.digit`. -/
def digit (ch : UInt16) (radix : Int) : Int :=
  let value := if 2 ≤ radix ∧ radix ≤ 36 then digitValue ch else -1
  if value < radix then value else -1

/-- `Integer.digits`. -/
def digits : List UInt16 :=
  [48, 49, 50, 51, 52, 53, 54, 55, 56, 57, 97, 98, 99, 100, 101, 102, 103, 104, 105, 106, 107, 108,
    109, 110, 111, 112, 113, 114, 115, 116, 117, 118, 119, 120, 121, 122]

theorem digit_lt
    {ch : UInt16} {radix : Int} (isRadix : 2 ≤ radix) :
    digit ch radix < radix := by
  simp only [digit]
  split <;> omega

theorem digit_minus (radix : Int) : digit 45 radix = -1 := by
  have minus : digitValue 45 = -1 := by
    decide
  simp [digit, minus]

theorem digits_value :
    ∀ number : Nat, number < 36 → digits[number]?.map digitValue = some (number : Int) := by
  decide

/-- The digit written for a number is the digit that is read as the number. -/
theorem digits_digit
    {radix : Int} {number : Nat}
    (isRadix : 2 ≤ radix ∧ radix ≤ 36)
    (below : (number : Int) < radix) :
    ∃ ch, digits[number]? = some ch ∧ digit ch radix = number := by
  obtain ⟨ch, written, value⟩ := Option.map_eq_some_iff.mp (digits_value number (by omega))
  exact ⟨ch, written, by simp [digit, isRadix, value, below]⟩

/-! ## The two types -/

/-- A type of integers: its bounds, how a number is cut to it, and the length of the buffer that
its `toString` writes into. -/
structure IntegerType where
  minValue : Int
  maxValue : Int
  wrap : Int → Int
  buffer : Nat
  minValue_eq : minValue = -maxValue - 1
  radix_fits : 36 ≤ maxValue
  wrap_of_fits : ∀ value, minValue ≤ value → value ≤ maxValue → wrap value = value
  buffer_fits : maxValue.toNat + 1 < 2 ^ (buffer - 1)

theorem signed_of_fits
    (value : Int)
    (above : -2147483648 ≤ value)
    (below : value ≤ 2147483647) :
    signed value = value :=
  signed_of_inRange ⟨above, by omega⟩

theorem signedLong_of_fits
    (value : Int)
    (above : -9223372036854775808 ≤ value)
    (below : value ≤ 9223372036854775807) :
    signedLong value = value :=
  signedLong_of_inLongRange ⟨above, by omega⟩

/-- `int`. -/
def intType : IntegerType where
  minValue := -2147483648
  maxValue := 2147483647
  wrap := signed
  buffer := 33
  minValue_eq := rfl
  radix_fits := by decide
  wrap_of_fits := signed_of_fits
  buffer_fits := by decide

/-- `long`. -/
def longType : IntegerType where
  minValue := -9223372036854775808
  maxValue := 9223372036854775807
  wrap := signedLong
  buffer := 65
  minValue_eq := rfl
  radix_fits := by decide
  wrap_of_fits := signedLong_of_fits
  buffer_fits := by decide

/-! ## Writing -/

/-- The loop of `toString` over a number that is not positive, and the digit after it. The places
of the buffer that are left are at its front; when none is left, the next write is outside. -/
def writeDigits (radix : Int) : Nat → Int → List UInt16 → Option (Nat × List UInt16)
  | 0, _, _ => none
  | charPos + 1, i, written =>
      if i ≤ -radix then
        match digits[(-(i.tmod radix)).toNat]? with
        | none => none
        | some ch => writeDigits radix charPos (i.tdiv radix) (ch :: written)
      else
        match digits[(-i).toNat]? with
        | none => none
        | some ch => some (charPos, ch :: written)

/-- `toString` of a type. -/
def IntegerType.toString (type : IntegerType) (i radix : Int) : Option (List UInt16) :=
  let radix := if radix < 2 ∨ 36 < radix then 10 else radix
  match writeDigits radix type.buffer (if i < 0 then i else type.wrap (-i)) [] with
  | none => none
  | some (charPos, written) =>
      if i < 0 then
        if charPos = 0 then none else some (45 :: written)
      else
        some written

/-- `Integer.toString`. -/
def integerToString : Int → Int → Option (List UInt16) :=
  intType.toString

/-- `Long.toString`. -/
def longToString : Int → Int → Option (List UInt16) :=
  longType.toString

/-! ## Reading -/

/-- The loop of `parseInt` and of `parseLong`. -/
def accumulate (type : IntegerType) (radix limit multmin : Int) : List UInt16 → Int → Option Int
  | [], result => some result
  | ch :: rest, result =>
      if digit ch radix < 0 then none
      else if result < multmin then none
      else if type.wrap (result * radix) < type.wrap (limit + digit ch radix) then none
      else
        accumulate type radix limit multmin rest
          (type.wrap (type.wrap (result * radix) - digit ch radix))

/-- The first digit, and the loop over the others. -/
def parseDigits (type : IntegerType) (radix limit : Int) : List UInt16 → Option Int
  | [] => some 0
  | ch :: rest =>
      if digit ch radix < 0 then none
      else
        accumulate type radix limit (type.wrap (limit.tdiv radix)) rest
          (type.wrap (-digit ch radix))

/-- `parseInt` and `parseLong`, of a text that may be null. -/
def IntegerType.parse (type : IntegerType) (s : Option (List UInt16)) (radix : Int) :
    Option Int :=
  match s with
  | none => none
  | some s =>
      if radix < 2 then none
      else if 36 < radix then none
      else
        match s with
        | [] => none
        | first :: rest =>
            if first = 45 then
              (parseDigits type radix type.minValue rest).bind fun result =>
                if rest = [] then none else some result
            else
              (parseDigits type radix (type.wrap (-type.maxValue)) (first :: rest)).map fun result =>
                type.wrap (-result)

/-- `Integer.parseInt`. -/
def parseInt : Option (List UInt16) → Int → Option Int :=
  intType.parse

/-- `Long.parseLong`. -/
def parseLong : Option (List UInt16) → Int → Option Int :=
  longType.parse

/-! ## Numerals -/

/-- Characters that are digits of a radix, and the number that they are. -/
def IsNumeral (radix : Int) (chars : List UInt16) (number : Nat) : Prop :=
  ∃ values : List Nat,
    (chars.map fun ch => digit ch radix) = values.map Nat.cast ∧
      number = Nat.ofDigits radix.toNat values.reverse

/-- An optional minus sign and at least one digit of a radix, and the number that they are. -/
def Denotes (radix : Int) (text : List UInt16) (value : Int) : Prop :=
  ∃ chars number,
    chars ≠ [] ∧ IsNumeral radix chars number ∧
      (text = chars ∧ value = number ∨ text = 45 :: chars ∧ value = -number)

/-- Digits read behind a number, and the number they make of it. -/
inductive ReadsFrom (radix : Int) : Nat → List UInt16 → Nat → Prop
  | nil (number : Nat) : ReadsFrom radix number [] number
  | cons {ch : UInt16} {rest : List UInt16} {before value number : Nat}
      (head : digit ch radix = value)
      (tail : ReadsFrom radix (before * radix.toNat + value) rest number) :
      ReadsFrom radix before (ch :: rest) number

theorem readsFrom_iff
    {radix : Int} {before number : Nat} {chars : List UInt16} :
    ReadsFrom radix before chars number ↔
      ∃ values : List Nat,
        (chars.map fun ch => digit ch radix) = values.map Nat.cast ∧
          number = values.foldl (fun sum value => sum * radix.toNat + value) before := by
  constructor
  · intro reads
    induction reads with
    | nil number =>
        exact ⟨[], by simp⟩
    | @cons ch rest before value number head _tail inductionHypothesis =>
        obtain ⟨values, mapped, sum⟩ := inductionHypothesis
        exact ⟨value :: values, by simp [head, mapped], by simpa using sum⟩
  · intro numeral
    obtain ⟨values, mapped, sum⟩ := numeral
    induction values generalizing chars before with
    | nil =>
        have empty : chars = [] := by
          simpa using mapped
        simp only [List.foldl_nil] at sum
        rw [empty, sum]
        exact .nil before
    | cons value values inductionHypothesis =>
        cases chars with
        | nil =>
            simp at mapped
        | cons ch rest =>
            simp only [List.map_cons, List.cons.injEq] at mapped
            exact .cons mapped.1 (inductionHypothesis mapped.2 sum)

/-- Reading from zero is the value of the digits. -/
theorem readsFrom_zero
    {radix : Int} {number : Nat} {chars : List UInt16} :
    ReadsFrom radix 0 chars number ↔ IsNumeral radix chars number := by
  rw [readsFrom_iff, IsNumeral]
  simp only [Nat.ofDigits_eq_foldr, List.foldr_reverse, Nat.cast_id, Nat.add_comm, Nat.mul_comm]

theorem ReadsFrom.append
    {radix : Int} {before middle number : Nat} {chars chars' : List UInt16}
    (first : ReadsFrom radix before chars middle)
    (second : ReadsFrom radix middle chars' number) :
    ReadsFrom radix before (chars ++ chars') number := by
  induction first with
  | nil number =>
      exact second
  | cons head _tail inductionHypothesis =>
      exact .cons head (inductionHypothesis second)

/-- A number does not get smaller by digits read behind it. -/
theorem ReadsFrom.le
    {radix : Int} {before number : Nat} {chars : List UInt16}
    (isRadix : 2 ≤ radix)
    (reads : ReadsFrom radix before chars number) :
    before ≤ number := by
  induction reads with
  | nil number =>
      exact Nat.le_refl number
  | @cons ch rest before value number _head _tail inductionHypothesis =>
      have larger : before ≤ before * radix.toNat :=
        Nat.le_mul_of_pos_right before (by omega)
      omega

/-! ## The reading loop -/

/-- What the loop makes of a number within the limit: the number read behind it, when it is within
the limit too. -/
theorem accumulate_eq_some_iff
    (type : IntegerType) {radix : Int} {limit before : Nat} {chars : List UInt16} {result : Int}
    (isRadix : 2 ≤ radix ∧ radix ≤ 36)
    (limited : (limit : Int) ≤ type.maxValue + 1)
    (within : before ≤ limit) :
    accumulate type radix (-limit) (type.wrap ((-limit : Int).tdiv radix)) chars (-before) =
        some result ↔
      ∃ number : Nat, ReadsFrom radix before chars number ∧ number ≤ limit ∧ result = -number := by
  have least := type.minValue_eq
  have radixFits := type.radix_fits
  have quotient : (-limit : Int).tdiv radix = -((limit : Int) / radix) := by
    rw [Int.neg_tdiv, Int.tdiv_eq_ediv_of_nonneg (by omega)]
  have quotientLe : (limit : Int) / radix ≤ limit := Int.ediv_le_self radix (by omega)
  have quotientNonneg : 0 ≤ (limit : Int) / radix := Int.ediv_nonneg (by omega) (by omega)
  have radixCast : (radix.toNat : Int) = radix := by
    omega
  rw [quotient, type.wrap_of_fits _ (by omega) (by omega)]
  induction chars generalizing before with
  | nil =>
      simp only [accumulate, Option.some.injEq]
      constructor
      · intro same
        exact ⟨before, .nil before, within, same.symm⟩
      · intro reads
        obtain ⟨number, reads, _limited, same⟩ := reads
        cases reads
        exact same.symm
  | cons ch rest inductionHypothesis =>
      rw [accumulate]
      have below := @digit_lt ch radix isRadix.1
      by_cases notDigit : digit ch radix < 0
      · rw [if_pos notDigit]
        constructor
        · intro absent
          simp at absent
        · intro reads
          obtain ⟨number, reads, _⟩ := reads
          cases reads with
          | cons head tail =>
              omega
      · obtain ⟨value, head⟩ := Int.eq_ofNat_of_zero_le (not_lt.mp notDigit)
        have readsIff : ∀ number : Nat, ReadsFrom radix before (ch :: rest) number ↔
            ReadsFrom radix (before * radix.toNat + value) rest number := by
          intro number
          constructor
          · intro reads
            cases reads with
            | @cons _ _ _ value' _ head' tail =>
                have same : value' = value := by
                  omega
                rwa [same] at tail
          · intro reads
            exact .cons head reads
        simp only [readsIff]
        -- what has been read with one digit more, as the loop computes it
        have stepCast : ((before * radix.toNat + value : Nat) : Int) = before * radix + value := by
          push_cast
          rw [radixCast]
        rw [if_neg notDigit]
        by_cases tooLarge : (-before : Int) < -((limit : Int) / radix)
        · rw [if_pos tooLarge]
          have exceeds : (limit : Int) < before * radix :=
            (Int.ediv_lt_iff_lt_mul (by omega)).mp (by omega)
          constructor
          · intro absent
            simp at absent
          · intro reads
            obtain ⟨number, reads, numberLe, _same⟩ := reads
            have larger := reads.le isRadix.1
            omega
        · rw [if_neg tooLarge]
          have product : (before : Int) * radix ≤ limit :=
            (Int.le_ediv_iff_mul_le (by omega)).mp (by omega)
          have productNonneg : 0 ≤ (before : Int) * radix :=
            Int.mul_nonneg (by omega) (by omega)
          have negated : (-before : Int) * radix = -(before * radix) :=
            Int.neg_mul before radix
          rw [negated, type.wrap_of_fits (-(before * radix)) (by omega) (by omega),
            type.wrap_of_fits (-limit + digit ch radix) (by omega) (by omega)]
          by_cases exceeds : (-(before * radix) : Int) < -limit + digit ch radix
          · rw [if_pos exceeds]
            constructor
            · intro absent
              simp at absent
            · intro reads
              obtain ⟨number, reads, numberLe, _same⟩ := reads
              have larger := reads.le isRadix.1
              omega
          · rw [if_neg exceeds]
            rw [type.wrap_of_fits _ (by omega) (by omega)]
            have stepped : (-(before * radix) - digit ch radix : Int) =
                -((before * radix.toNat + value : Nat) : Int) := by
              omega
            rw [stepped]
            exact inductionHypothesis (by omega)

/-- The digits of a text are accepted when their number is within the limit. -/
theorem parseDigits_eq_some_iff
    (type : IntegerType) {radix : Int} {limit : Nat} {chars : List UInt16} {result : Int}
    (isRadix : 2 ≤ radix ∧ radix ≤ 36)
    (limited : (limit : Int) ≤ type.maxValue + 1)
    (large : 36 ≤ limit) :
    parseDigits type radix (-limit) chars = some result ↔
      ∃ number : Nat, IsNumeral radix chars number ∧ number ≤ limit ∧ result = -number := by
  have least := type.minValue_eq
  have radixFits := type.radix_fits
  simp only [← readsFrom_zero]
  cases chars with
  | nil =>
      simp only [parseDigits, Option.some.injEq]
      constructor
      · intro same
        exact ⟨0, .nil 0, Nat.zero_le limit, by simp [← same]⟩
      · intro reads
        obtain ⟨number, reads, _limited, same⟩ := reads
        cases reads
        simp [same]
  | cons ch rest =>
      have below := @digit_lt ch radix isRadix.1
      rw [parseDigits]
      by_cases notDigit : digit ch radix < 0
      · rw [if_pos notDigit]
        constructor
        · intro absent
          simp at absent
        · intro reads
          obtain ⟨number, reads, _⟩ := reads
          cases reads with
          | cons head tail =>
              omega
      · obtain ⟨value, head⟩ := Int.eq_ofNat_of_zero_le (not_lt.mp notDigit)
        rw [if_neg notDigit, type.wrap_of_fits (-digit ch radix) (by omega) (by omega), head,
          accumulate_eq_some_iff type isRadix limited (by omega)]
        apply exists_congr
        intro number
        apply and_congr_left
        intro _
        constructor
        · intro reads
          exact .cons head (by simpa using reads)
        · intro reads
          cases reads with
          | @cons _ _ _ value' _ head' tail =>
              have same : value' = value := by
                omega
              simpa [same] using tail

/-! ## What is accepted -/

theorem not_isNumeral_minus (radix : Int) (chars : List UInt16) (number : Nat) :
    ¬ IsNumeral radix (45 :: chars) number := by
  intro numeral
  obtain ⟨values, mapped, _⟩ := numeral
  cases values with
  | nil =>
      simp at mapped
  | cons value values =>
      simp only [List.map_cons, digit_minus, List.cons.injEq] at mapped
      omega

/-- Behind a minus sign, what is accepted is a number up to the least one of the type. -/
theorem IntegerType.parse_negative
    (type : IntegerType) {radix value : Int} {rest : List UInt16}
    (isRadix : 2 ≤ radix ∧ radix ≤ 36) :
    ((parseDigits type radix type.minValue rest).bind fun result =>
        if rest = [] then none else some result) = some value ↔
      Denotes radix (45 :: rest) value ∧ type.minValue ≤ value ∧ value ≤ type.maxValue := by
  have least := type.minValue_eq
  have radixFits := type.radix_fits
  obtain ⟨limit, limitEq⟩ := Int.eq_ofNat_of_zero_le (show 0 ≤ type.maxValue + 1 by omega)
  have minValueEq : type.minValue = -(limit : Int) := by
    omega
  have parsed : ∀ result, parseDigits type radix type.minValue rest = some result ↔
      ∃ number : Nat, IsNumeral radix rest number ∧ number ≤ limit ∧ result = -number := by
    intro result
    rw [minValueEq]
    exact parseDigits_eq_some_iff type isRadix (by omega) (by omega)
  simp only [Option.bind_eq_some_iff, parsed, Option.ite_none_left_eq_some, Option.some.injEq]
  constructor
  · intro accepted
    obtain ⟨result, ⟨number, numeral, within, same⟩, nonempty, returned⟩ := accepted
    exact ⟨⟨rest, number, nonempty, numeral, .inr ⟨rfl, by omega⟩⟩, by omega⟩
  · intro denoted
    obtain ⟨⟨chars, number, nonempty, numeral, text⟩, fits⟩ := denoted
    rcases text with ⟨unsigned, _⟩ | ⟨signed, valueEq⟩
    · rw [← unsigned] at numeral
      exact absurd numeral (not_isNumeral_minus radix rest number)
    · have same : rest = chars := by
        simpa using signed
      rw [same]
      exact ⟨value, ⟨number, numeral, by omega, valueEq⟩, nonempty, rfl⟩

/-- Without a minus sign, what is accepted is a number up to the greatest one of the type. -/
theorem IntegerType.parse_nonnegative
    (type : IntegerType) {radix value : Int} {first : UInt16} {rest : List UInt16}
    (isRadix : 2 ≤ radix ∧ radix ≤ 36)
    (notMinus : first ≠ 45) :
    ((parseDigits type radix (type.wrap (-type.maxValue)) (first :: rest)).map fun result =>
        type.wrap (-result)) = some value ↔
      Denotes radix (first :: rest) value ∧ type.minValue ≤ value ∧ value ≤ type.maxValue := by
  have least := type.minValue_eq
  have radixFits := type.radix_fits
  obtain ⟨limit, limitEq⟩ := Int.eq_ofNat_of_zero_le (show 0 ≤ type.maxValue by omega)
  have limitCut : type.wrap (-type.maxValue) = -(limit : Int) := by
    rw [type.wrap_of_fits _ (by omega) (by omega), limitEq]
  have parsed : ∀ result,
      parseDigits type radix (type.wrap (-type.maxValue)) (first :: rest) = some result ↔
        ∃ number : Nat, IsNumeral radix (first :: rest) number ∧ number ≤ limit ∧
          result = -number := by
    intro result
    rw [limitCut]
    exact parseDigits_eq_some_iff type isRadix (by omega) (by omega)
  simp only [Option.map_eq_some_iff, parsed]
  constructor
  · intro accepted
    obtain ⟨result, ⟨number, numeral, within, same⟩, returned⟩ := accepted
    rw [type.wrap_of_fits _ (by omega) (by omega)] at returned
    exact ⟨⟨first :: rest, number, by simp, numeral, .inl ⟨rfl, by omega⟩⟩, by omega⟩
  · intro denoted
    obtain ⟨⟨chars, number, nonempty, numeral, text⟩, fits⟩ := denoted
    rcases text with ⟨unsigned, valueEq⟩ | ⟨signed, _⟩
    · rw [← unsigned] at numeral
      refine ⟨-number, ⟨number, numeral, by omega, rfl⟩, ?_⟩
      rw [type.wrap_of_fits _ (by omega) (by omega)]
      omega
    · exact absurd (List.cons.inj signed).1 notMinus

/-- A text is accepted exactly when it is a numeral of the radix whose value is one of the type,
and that value is returned. -/
theorem IntegerType.parse_eq_some_iff
    (type : IntegerType) (s : Option (List UInt16)) (radix value : Int) :
    type.parse s radix = some value ↔
      2 ≤ radix ∧ radix ≤ 36 ∧
        ∃ text, s = some text ∧ Denotes radix text value ∧
          type.minValue ≤ value ∧ value ≤ type.maxValue := by
  cases s with
  | none =>
      simp [parse]
  | some text =>
      simp only [Option.some.injEq, exists_eq_left']
      by_cases small : radix < 2
      · simp [parse, small]
      · by_cases large : 36 < radix
        · simp [parse, small, large]
        · have isRadix : 2 ≤ radix ∧ radix ≤ 36 := by
            omega
          simp only [parse, if_neg small, if_neg large, isRadix, true_and]
          cases text with
          | nil =>
              simp [Denotes]
          | cons first rest =>
              by_cases minus : first = 45
              · rw [minus]
                exact type.parse_negative isRadix
              · dsimp only
                rw [if_neg minus]
                exact type.parse_nonnegative isRadix minus

/-! ## What is written -/

theorem writeDigits_last
    {radix : Int} {number : Nat} (charPos : Nat) (written : List UInt16)
    (isRadix : 2 ≤ radix ∧ radix ≤ 36)
    (below : (number : Int) < radix) :
    ∃ ch, writeDigits radix (charPos + 1) (-number) written = some (charPos, ch :: written) ∧
      digit ch radix = number := by
  obtain ⟨ch, char, value⟩ := digits_digit isRadix below
  refine ⟨ch, ?_, value⟩
  rw [writeDigits, if_neg (by omega)]
  simp [char]

/-- One round of the loop writes the last digit and goes on with the others. -/
theorem writeDigits_step
    {radix : Int} {number : Nat} (charPos : Nat) (written : List UInt16)
    (isRadix : 2 ≤ radix ∧ radix ≤ 36)
    (notBelow : radix ≤ number) :
    ∃ ch, writeDigits radix (charPos + 1) (-number) written =
        writeDigits radix charPos (-(number / radix.toNat : Nat)) (ch :: written) ∧
      digit ch radix = (number % radix.toNat : Nat) := by
  have radixCast : (radix.toNat : Int) = radix := by
    omega
  have remainder : -((-number : Int).tmod radix) = (number % radix.toNat : Nat) := by
    rw [Int.neg_tmod, Int.tmod_eq_emod_of_nonneg (by omega), Int.neg_neg, Int.natCast_emod,
      radixCast]
  have quotient : (-number : Int).tdiv radix = -((number / radix.toNat : Nat) : Int) := by
    rw [Int.neg_tdiv, Int.tdiv_eq_ediv_of_nonneg (by omega), Int.natCast_ediv, radixCast]
  have below : ((number % radix.toNat : Nat) : Int) < radix := by
    have := Nat.mod_lt number (show 0 < radix.toNat by omega)
    omega
  obtain ⟨ch, char, value⟩ := digits_digit isRadix below
  refine ⟨ch, ?_, value⟩
  rw [writeDigits, if_pos (by omega), remainder, quotient, Int.toNat_natCast, char]

/-- The loop writes the digits of the number, as many as it has. -/
theorem writeDigits_spec
    {radix : Int} (isRadix : 2 ≤ radix ∧ radix ≤ 36) (more : Nat) :
    ∀ (charPos number : Nat) (written : List UInt16),
      more < charPos → number < radix.toNat ^ (more + 1) →
        ∃ left chars, writeDigits radix charPos (-number) written =
            some (left, chars ++ written) ∧
          chars ≠ [] ∧ charPos ≤ left + (more + 1) ∧ ReadsFrom radix 0 chars number := by
  induction more with
  | zero =>
      intro charPos number written room below
      obtain ⟨left, rfl⟩ := Nat.exists_eq_succ_of_ne_zero (show charPos ≠ 0 by omega)
      rw [Nat.zero_add, Nat.pow_one] at below
      obtain ⟨ch, wrote, value⟩ :=
        writeDigits_last left written isRadix (show (number : Int) < radix by omega)
      refine ⟨left, [ch], wrote, by simp, by omega, .cons value ?_⟩
      rw [Nat.zero_mul, Nat.zero_add]
      exact .nil number
  | succ more inductionHypothesis =>
      intro charPos number written room below
      obtain ⟨left, rfl⟩ := Nat.exists_eq_succ_of_ne_zero (show charPos ≠ 0 by omega)
      by_cases single : (number : Int) < radix
      · obtain ⟨ch, wrote, value⟩ := writeDigits_last left written isRadix single
        refine ⟨left, [ch], wrote, by simp, by omega, .cons value ?_⟩
        rw [Nat.zero_mul, Nat.zero_add]
        exact .nil number
      · obtain ⟨ch, wrote, value⟩ :=
          writeDigits_step left written isRadix (show radix ≤ number by omega)
        have quotientBelow : number / radix.toNat < radix.toNat ^ (more + 1) := by
          apply Nat.div_lt_of_lt_mul
          rwa [← Nat.pow_succ']
        obtain ⟨left', chars, others, nonempty, used, reads⟩ :=
          inductionHypothesis left (number / radix.toNat) (ch :: written) (by omega) quotientBelow
        refine ⟨left', chars ++ [ch], ?_, by simp, by omega, reads.append (.cons value ?_)⟩
        · rw [wrote, others]
          simp
        · rw [Nat.div_add_mod']
          exact .nil number

/-- What `toString` writes is a numeral whose value is the number. -/
theorem IntegerType.toString_denotes
    (type : IntegerType) {i radix : Int}
    (isRadix : 2 ≤ radix ∧ radix ≤ 36)
    (fits : type.minValue ≤ i ∧ i ≤ type.maxValue) :
    ∃ text, type.toString i radix = some text ∧ Denotes radix text i := by
  have least := type.minValue_eq
  have radixFits := type.radix_fits
  have enough := type.buffer_fits
  have magnitude : (if i < 0 then i else type.wrap (-i)) = -(i.natAbs : Int) := by
    split
    · omega
    · rw [type.wrap_of_fits _ (by omega) (by omega)]
      omega
  have buffer : 2 ≤ type.buffer := by
    by_contra short
    have none : type.buffer - 1 = 0 := by
      omega
    rw [none, Nat.pow_zero] at enough
    omega
  have below : i.natAbs < radix.toNat ^ (type.buffer - 2 + 1) := by
    calc
      i.natAbs < 2 ^ (type.buffer - 1) := by omega
      _ ≤ radix.toNat ^ (type.buffer - 1) := Nat.pow_le_pow_left (by omega) _
      _ = radix.toNat ^ (type.buffer - 2 + 1) := by
        congr 1
        omega
  obtain ⟨left, chars, wrote, nonempty, used, reads⟩ :=
    writeDigits_spec isRadix (type.buffer - 2) type.buffer i.natAbs [] (by omega) below
  rw [List.append_nil] at wrote
  have numeral := readsFrom_zero.1 reads
  simp only [IntegerType.toString, if_neg (show ¬ (radix < 2 ∨ 36 < radix) by omega), magnitude,
    wrote]
  by_cases negative : i < 0
  · rw [if_pos negative, if_neg (by omega)]
    exact ⟨45 :: chars, rfl, chars, i.natAbs, nonempty, numeral, .inr ⟨rfl, by omega⟩⟩
  · rw [if_neg negative]
    exact ⟨chars, rfl, chars, i.natAbs, nonempty, numeral, .inl ⟨rfl, by omega⟩⟩

/-- A number that is written and read back in a radix is the number again. -/
theorem IntegerType.parse_toString
    (type : IntegerType) {i radix : Int}
    (isRadix : 2 ≤ radix ∧ radix ≤ 36)
    (fits : type.minValue ≤ i ∧ i ≤ type.maxValue) :
    ∃ text, type.toString i radix = some text ∧ type.parse (some text) radix = some i := by
  obtain ⟨text, written, denotes⟩ := type.toString_denotes isRadix fits
  refine ⟨text, written, ?_⟩
  exact (type.parse_eq_some_iff _ radix i).mpr ⟨isRadix.1, isRadix.2, text, rfl, denotes, fits⟩

/-! ## Both types -/

/-- For each radix and each value, what `toString` writes is parsed as the value again; and a text
is parsed exactly when it is an optional minus sign and at least one digit of the radix whose
value is one of the type, as that value. -/
theorem integers_asText :
    (∀ radix value : Int, 2 ≤ radix → radix ≤ 36 → InRange value →
        ∃ text, integerToString value radix = some text ∧
          parseInt (some text) radix = some value) ∧
      (∀ radix value : Int, 2 ≤ radix → radix ≤ 36 → InLongRange value →
        ∃ text, longToString value radix = some text ∧
          parseLong (some text) radix = some value) ∧
      (∀ s radix value, parseInt s radix = some value ↔
        2 ≤ radix ∧ radix ≤ 36 ∧
          ∃ text, s = some text ∧ Denotes radix text value ∧ InRange value) ∧
      (∀ s radix value, parseLong s radix = some value ↔
        2 ≤ radix ∧ radix ≤ 36 ∧
          ∃ text, s = some text ∧ Denotes radix text value ∧ InLongRange value) := by
  have intRange : ∀ value, InRange value ↔
      intType.minValue ≤ value ∧ value ≤ intType.maxValue := by
    intro value
    simp only [InRange, intType]
    omega
  have longRange : ∀ value, InLongRange value ↔
      longType.minValue ≤ value ∧ value ≤ longType.maxValue := by
    intro value
    simp only [InLongRange, longType]
    omega
  refine ⟨?_, ?_, ?_, ?_⟩
  · intro radix value least greatest fits
    exact intType.parse_toString ⟨least, greatest⟩ ((intRange value).mp fits)
  · intro radix value least greatest fits
    exact longType.parse_toString ⟨least, greatest⟩ ((longRange value).mp fits)
  · intro s radix value
    simp only [intRange]
    exact intType.parse_eq_some_iff s radix value
  · intro s radix value
    simp only [longRange]
    exact longType.parse_eq_some_iff s radix value

/-- The least `int` in radix 16, which has more digits below zero than above. -/
theorem integers_asText_least :
    InRange (-2147483648) ∧
      ∃ text, integerToString (-2147483648) 16 = some text ∧
        parseInt (some text) 16 = some (-2147483648) :=
  ⟨by decide, integers_asText.1 16 (-2147483648) (by decide) (by decide) (by decide)⟩

end PicoJvm.Text
