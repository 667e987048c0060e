import Mathlib.Data.Int.Basic
import Mathlib.Tactic.NormNum

/-!
# Integer arithmetic of C

Signed operations are undefined when the exact result does not fit, and so are divisions by
zero and shifts by a whole word. Unsigned operations wrap, and a computation remembers whether
one of them did.
-/

namespace PicoJvm.Lib.CInteger

variable {bits : Nat}

/-- A value of the signed type of so many bits. -/
def Representable (bits : Nat) (value : Int) : Prop :=
  -2 ^ (bits - 1) ≤ value ∧ value < 2 ^ (bits - 1)

instance (bits : Nat) (value : Int) : Decidable (Representable bits value) :=
  inferInstanceAs (Decidable (_ ∧ _))

/-- A signed result, unless it does not fit. -/
def represent (bits : Nat) (value : Int) : Option (BitVec bits) :=
  if Representable bits value then
    some (BitVec.ofInt bits value)
  else
    none

/-! ## Signed operations -/

def add (left right : BitVec bits) : Option (BitVec bits) :=
  represent bits (left.toInt + right.toInt)

def sub (left right : BitVec bits) : Option (BitVec bits) :=
  represent bits (left.toInt - right.toInt)

def mul (left right : BitVec bits) : Option (BitVec bits) :=
  represent bits (left.toInt * right.toInt)

def neg (operand : BitVec bits) : Option (BitVec bits) :=
  represent bits (-operand.toInt)

def div (left right : BitVec bits) : Option (BitVec bits) :=
  if right = 0 then
    none
  else
    represent bits (left.toInt.tdiv right.toInt)

/-- The remainder is undefined where the quotient is. -/
def rem (left right : BitVec bits) : Option (BitVec bits) :=
  if right = 0 then
    none
  else if Representable bits (left.toInt.tdiv right.toInt) then
    represent bits (left.toInt.tmod right.toInt)
  else
    none

/-- A negative value has no defined left shift. -/
def shiftLeft (operand : BitVec bits) (count : Nat) : Option (BitVec bits) :=
  if bits ≤ count ∨ operand.toInt < 0 then
    none
  else
    represent bits (operand.toInt * 2 ^ count)

/-- The compilers at hand shift in the sign. -/
def shiftRight (operand : BitVec bits) (count : Nat) : Option (BitVec bits) :=
  if bits ≤ count then
    none
  else
    some (BitVec.ofInt bits (operand.toInt / 2 ^ count))

def unsignedShiftRight (operand : BitVec bits) (count : Nat) : Option (BitVec bits) :=
  if bits ≤ count then
    none
  else
    some (BitVec.ofNat bits (operand.toNat / 2 ^ count))

theorem add_comm (left right : BitVec bits) : add left right = add right left := by
  rw [add, Int.add_comm]
  rfl

theorem represent_eq_iff (value : Int) :
    represent bits value = some (BitVec.ofInt bits value) ↔ Representable bits value := by
  rw [represent]
  split <;> simp_all

theorem represent_of_representable
    {value : Int}
    (fits : Representable bits value) :
    represent bits value = some (BitVec.ofInt bits value) :=
  (represent_eq_iff value).mpr fits

theorem represent_of_not_representable
    {value : Int}
    (overflows : ¬ Representable bits value) :
    represent bits value = none :=
  if_neg overflows

/-- Every value of the type fits it. -/
theorem toInt_representable (operand : BitVec bits) :
    Representable bits operand.toInt :=
  ⟨BitVec.le_toInt operand, BitVec.toInt_lt⟩

/-- A value that fits is the one it is stored as. -/
theorem toInt_ofInt_of_representable
    {value : Int}
    (positive : 0 < bits)
    (fits : Representable bits value) :
    (BitVec.ofInt bits value).toInt = value := by
  have doubled : (2 : Int) ^ bits = 2 * 2 ^ (bits - 1) := by
    rw [← pow_succ', Nat.sub_add_cancel positive]
  rw [BitVec.toInt_ofInt]
  apply Int.bmod_eq_of_le
  · have lower := fits.1
    push_cast
    omega
  · have upper := fits.2
    push_cast
    omega

theorem represent_eq_some_iff
    (positive : 0 < bits)
    {value : Int} {result : BitVec bits} :
    represent bits value = some result ↔ result.toInt = value := by
  constructor
  · intro represented
    by_cases fits : Representable bits value
    · rw [represent_of_representable fits] at represented
      cases represented
      exact toInt_ofInt_of_representable positive fits
    · rw [represent_of_not_representable fits] at represented
      cases represented
  · rintro rfl
    rw [represent_of_representable (toInt_representable result), BitVec.ofInt_toInt]

/-- A quotient by something other than one and minus one is far from the bounds. -/
theorem quotient_small
    {left right : Int}
    (fits : Representable bits left)
    (large : 2 ≤ right.natAbs) :
    Representable bits (left.tdiv right) := by
  have positive : 0 < 2 ^ (bits - 1) := Nat.two_pow_pos (bits - 1)
  have cast : ((2 ^ (bits - 1) : Nat) : Int) = 2 ^ (bits - 1) := by
    push_cast
    rfl
  have lower := fits.1
  have upper := fits.2
  have halved : (left.tdiv right).natAbs ≤ left.natAbs / 2 := by
    rw [Int.natAbs_tdiv]
    exact Nat.div_le_div_left large (by decide)
  constructor <;> omega

/-- The quotient fits, unless the smallest value is divided by minus one. -/
theorem quotient_representable_iff
    {left right : Int}
    (fits : Representable bits left)
    (nonzero : right ≠ 0) :
    Representable bits (left.tdiv right) ↔
      ¬ (left = -2 ^ (bits - 1) ∧ right = -1) := by
  rcases eq_or_ne right (-1) with rfl | notMinusOne
  · have lower := fits.1
    have upper := fits.2
    rw [Int.tdiv_neg, Int.tdiv_one, Representable]
    constructor
    · intro negated smallest
      omega
    · intro notSmallest
      constructor
      · omega
      · have different : left ≠ -2 ^ (bits - 1) := fun same => notSmallest ⟨same, rfl⟩
        omega
  · have quotientFits : Representable bits (left.tdiv right) := by
      rcases eq_or_ne right 1 with rfl | notOne
      · rw [Int.tdiv_one]
        exact fits
      · exact quotient_small fits (by omega)
    exact iff_of_true quotientFits fun both => notMinusOne both.2

/-- A remainder lies between zero and the dividend. -/
theorem remainder_representable
    {left right : Int}
    (fits : Representable bits left) :
    Representable bits (left.tmod right) := by
  have bounded : (left.tmod right).natAbs ≤ left.natAbs := by
    rw [Int.natAbs_tmod]
    exact Nat.mod_le _ _
  have lower := fits.1
  have upper := fits.2
  rcases Int.le_total 0 left with nonnegative | nonpositive
  · have sign := Int.tmod_nonneg right nonnegative
    constructor <;> omega
  · have sign : left.tmod right ≤ 0 := by
      have negated := Int.tmod_nonneg right (a := -left) (by omega)
      rw [Int.neg_tmod] at negated
      omega
    constructor <;> omega

theorem nonzero_toInt
    {operand : BitVec bits}
    (nonzero : operand ≠ 0) :
    operand.toInt ≠ 0 := by
  intro zero
  apply nonzero
  apply BitVec.eq_of_toInt_eq
  rw [zero, BitVec.ofNat_eq_ofNat, BitVec.toInt_zero]

theorem div_eq_some_iff
    {left right : BitVec bits}
    (nonzero : right ≠ 0) :
    div left right = some (BitVec.ofInt bits (left.toInt.tdiv right.toInt)) ↔
      ¬ (left.toInt = -2 ^ (bits - 1) ∧ right.toInt = -1) := by
  rw [div, if_neg nonzero, represent_eq_iff]
  exact quotient_representable_iff (toInt_representable left) (nonzero_toInt nonzero)

theorem rem_eq_some_iff
    {left right : BitVec bits}
    (nonzero : right ≠ 0) :
    rem left right = some (BitVec.ofInt bits (left.toInt.tmod right.toInt)) ↔
      ¬ (left.toInt = -2 ^ (bits - 1) ∧ right.toInt = -1) := by
  rw [rem, if_neg nonzero,
    ← quotient_representable_iff (toInt_representable left) (nonzero_toInt nonzero),
    represent_of_representable (remainder_representable (toInt_representable left))]
  split <;> simp_all

theorem neg_eq_some_iff
    {operand : BitVec bits} :
    neg operand = some (BitVec.ofInt bits (-operand.toInt)) ↔
      operand.toInt ≠ -2 ^ (bits - 1) := by
  have lower := BitVec.le_toInt operand
  have upper := BitVec.toInt_lt (x := operand)
  rw [neg, represent_eq_iff, Representable]
  constructor
  · intro fits smallest
    omega
  · intro notSmallest
    constructor <;> omega

theorem shiftLeft_eq_some_iff
    {operand : BitVec bits} {count : Nat}
    (inside : count < bits) :
    shiftLeft operand count = some (BitVec.ofInt bits (operand.toInt * 2 ^ count)) ↔
      0 ≤ operand.toInt ∧ Representable bits (operand.toInt * 2 ^ count) := by
  rw [shiftLeft]
  split
  · next undefined =>
      have negative : operand.toInt < 0 := by omega
      constructor
      · intro impossible
        cases impossible
      · intro both
        omega
  · next defined =>
      have nonnegative : 0 ≤ operand.toInt := by omega
      rw [represent_eq_iff]
      exact ⟨fun fits => ⟨nonnegative, fits⟩, And.right⟩

theorem shiftRight_eq
    {operand : BitVec bits} {count : Nat}
    (inside : count < bits) :
    shiftRight operand count = some (BitVec.ofInt bits (operand.toInt / 2 ^ count)) :=
  if_neg (by omega)

theorem unsignedShiftRight_eq
    {operand : BitVec bits} {count : Nat}
    (inside : count < bits) :
    unsignedShiftRight operand count =
      some (BitVec.ofInt bits (operand.toInt % 2 ^ bits / 2 ^ count)) := by
  have unsigned : operand.toInt % 2 ^ bits = operand.toNat := by
    have cast : (2 : Int) ^ bits = (2 ^ bits : Nat) := by
      push_cast
      rfl
    rw [cast, BitVec.toInt_eq_toNat_bmod, Int.bmod_emod]
    exact_mod_cast Nat.mod_eq_of_lt operand.isLt
  have quotient : (operand.toNat : Int) / 2 ^ count = (operand.toNat / 2 ^ count : Nat) := by
    push_cast
    rfl
  rw [unsignedShiftRight, if_neg (by omega), unsigned, quotient, BitVec.ofInt_natCast]

/-! ## Unsigned operations -/

universe u

/-- What a computation comes to, and whether an operation in it wrapped. -/
inductive Computation (value : Type u)
  | undefined
  | done (result : value) (wrapped : Bool)
  deriving DecidableEq, Repr

namespace Computation

/-- A computation that has come to a value without wrapping. -/
abbrev exactly {value : Type u} (result : value) : Computation value :=
  .done result false

/-- The computation goes on with its value. -/
def andThen {value value' : Type u} (first : Computation value)
    (next : value → Computation value') : Computation value' :=
  match first with
  | .undefined => .undefined
  | .done result wrapped =>
      match next result with
      | .undefined => .undefined
      | .done result' wrapped' => .done result' (wrapped || wrapped')

instance : Monad Computation where
  pure := exactly
  bind := andThen

end Computation

/-- The value of a signed expression. -/
def signed {value : Type u} (expression : Option value) : Computation value :=
  match expression with
  | none => .undefined
  | some result => .exactly result

def unsignedAdd (left right : BitVec bits) : Computation (BitVec bits) :=
  .done (left + right) (2 ^ bits ≤ left.toNat + right.toNat)

def unsignedSub (left right : BitVec bits) : Computation (BitVec bits) :=
  .done (left - right) (left.toNat < right.toNat)

def unsignedMul (left right : BitVec bits) : Computation (BitVec bits) :=
  .done (left * right) (2 ^ bits ≤ left.toNat * right.toNat)

def unsignedDiv (left right : BitVec bits) : Computation (BitVec bits) :=
  if right = 0 then
    .undefined
  else
    .exactly (left / right)

def unsignedMod (left right : BitVec bits) : Computation (BitVec bits) :=
  if right = 0 then
    .undefined
  else
    .exactly (left % right)

variable {value value' : Type u}

theorem exactly_inj {result result' : value} :
    Computation.exactly result = .exactly result' ↔ result = result' := by
  rw [Computation.done.injEq, and_iff_left rfl]

theorem pure_eq_exactly_iff {result result' : value} :
    (pure result : Computation value) = .exactly result' ↔ result = result' :=
  exactly_inj

theorem bind_eq_exactly_iff
    {first : Computation value} {next : value → Computation value'} {result : value'} :
    first >>= next = .exactly result ↔
      ∃ middle, first = .exactly middle ∧ next middle = .exactly result := by
  change first.andThen next = _ ↔ _
  cases first with
  | undefined =>
      simp [Computation.andThen]
  | done middle wrapped =>
      cases after : next middle with
      | undefined =>
          simp [Computation.andThen, after]
      | done result' wrapped' =>
          simp only [Computation.andThen, after, Computation.done.injEq, Bool.or_eq_false_iff]
          constructor
          · rintro ⟨rfl, rfl, rfl⟩
            exact ⟨middle, ⟨rfl, rfl⟩, after⟩
          · rintro ⟨middle, ⟨rfl, rfl⟩, same⟩
            rw [after, Computation.done.injEq] at same
            exact ⟨same.1, rfl, same.2⟩

theorem signed_eq_exactly_iff {expression : Option value} {result : value} :
    signed expression = .exactly result ↔ expression = some result := by
  cases expression <;> simp [signed]

theorem unsignedAdd_eq_exactly_iff {left right result : BitVec bits} :
    unsignedAdd left right = .exactly result ↔ result.toNat = left.toNat + right.toNat := by
  have small := result.isLt
  rw [unsignedAdd, Computation.done.injEq, decide_eq_false_iff_not, BitVec.toNat_eq, BitVec.toNat_add]
  constructor
  · rintro ⟨same, fits⟩
    rw [← same, Nat.mod_eq_of_lt (by omega)]
  · intro same
    have fits : left.toNat + right.toNat < 2 ^ bits := by
      omega
    exact ⟨(Nat.mod_eq_of_lt fits).trans same.symm, by omega⟩

theorem unsignedSub_eq_exactly_iff {left right result : BitVec bits} :
    unsignedSub left right = .exactly result ↔ result.toNat + right.toNat = left.toNat := by
  have inverse : left - right + right = left := BitVec.sub_add_cancel left right
  have small := left.isLt
  rw [unsignedSub, Computation.done.injEq, decide_eq_false_iff_not]
  constructor
  · rintro ⟨rfl, ordered⟩
    have difference := BitVec.toNat_sub_of_le (x := left) (y := right)
      (by rw [BitVec.le_def]; omega)
    omega
  · intro same
    have ordered : right ≤ left := by
      rw [BitVec.le_def]
      omega
    have difference := BitVec.toNat_sub_of_le ordered
    refine ⟨BitVec.eq_of_toNat_eq ?_, ?_⟩ <;> omega

theorem unsignedMul_eq_exactly_iff {left right result : BitVec bits} :
    unsignedMul left right = .exactly result ↔ result.toNat = left.toNat * right.toNat := by
  have small := result.isLt
  rw [unsignedMul, Computation.done.injEq, decide_eq_false_iff_not, BitVec.toNat_eq, BitVec.toNat_mul]
  constructor
  · rintro ⟨same, fits⟩
    rw [← same, Nat.mod_eq_of_lt (by omega)]
  · intro same
    have fits : left.toNat * right.toNat < 2 ^ bits := by
      omega
    exact ⟨(Nat.mod_eq_of_lt fits).trans same.symm, by omega⟩

theorem unsignedDiv_eq_exactly_iff {left right result : BitVec bits} :
    unsignedDiv left right = .exactly result ↔
      right.toNat ≠ 0 ∧ result.toNat = left.toNat / right.toNat := by
  have zero : right = 0 ↔ right.toNat = 0 := by
    rw [BitVec.toNat_eq]
    rfl
  rw [unsignedDiv]
  split
  · next undefined =>
      constructor
      · intro impossible
        cases impossible
      · intro both
        exact absurd (zero.mp undefined) both.1
  · next defined =>
      rw [exactly_inj, BitVec.toNat_eq, BitVec.toNat_udiv]
      exact ⟨fun same => ⟨fun none => defined (zero.mpr none), same.symm⟩,
        fun both => both.2.symm⟩

theorem unsignedMod_eq_exactly_iff {left right result : BitVec bits} :
    unsignedMod left right = .exactly result ↔
      right.toNat ≠ 0 ∧ result.toNat = left.toNat % right.toNat := by
  have zero : right = 0 ↔ right.toNat = 0 := by
    rw [BitVec.toNat_eq]
    rfl
  rw [unsignedMod]
  split
  · next undefined =>
      constructor
      · intro impossible
        cases impossible
      · intro both
        exact absurd (zero.mp undefined) both.1
  · next defined =>
      rw [exactly_inj, BitVec.toNat_eq, BitVec.toNat_umod]
      exact ⟨fun same => ⟨fun none => defined (zero.mpr none), same.symm⟩,
        fun both => both.2.symm⟩

end PicoJvm.Lib.CInteger
