import PicoJvm.Lib.CInteger
import Mathlib.Tactic.Linarith
import Mathlib.Tactic.Ring

/-!
# PWM channels

`pwm_init` works out, in 32 bits, a divider and a wrap value for the frequency of a channel.
The functions of the SDK that it calls take them as bytes and half words.
-/

namespace PicoJvm.Hardware

open PicoJvm.Lib

/-- What the SDK is told about a slice: `pwm_set_clkdiv_int_frac`, `pwm_set_wrap` and
`pwm_set_chan_level`. -/
structure PwmSlice where
  dividerInt : BitVec 8
  dividerFrac : BitVec 8
  wrap : BitVec 16
  level : BitVec 16
  deriving DecidableEq, Repr

/-- The divider in sixteenths. -/
def PwmSlice.divider16 (slice : PwmSlice) : Nat :=
  slice.dividerInt.toNat * 16 + slice.dividerFrac.toNat

/-- `pwm_init`, with what it returns. -/
def pwmInit (clock freqHz dutyPercent : BitVec 32) :
    CInteger.Computation (PwmSlice × Int) := do
  let hertz ← CInteger.unsignedDiv clock freqHz
  let cycles ← CInteger.unsignedDiv hertz 4096
  let step ← CInteger.signed (CInteger.mul freqHz 4096)
  let remainder ← CInteger.unsignedMod clock step
  let rounded ← CInteger.unsignedAdd cycles (if remainder ≠ 0 then 1 else 0)
  let divider16 := if rounded / 16 = 0 then 16 else rounded
  let scaled ← CInteger.unsignedMul clock 16
  let divided ← CInteger.unsignedDiv scaled divider16
  let quotient ← CInteger.unsignedDiv divided freqHz
  let wrap ← CInteger.unsignedSub quotient 1
  let product ← CInteger.unsignedMul wrap dutyPercent
  let level ← CInteger.unsignedDiv product 100
  return (
    { dividerInt := (divider16 / 16).setWidth 8
      dividerFrac := (divider16 &&& 0xF).setWidth 8
      wrap := wrap.setWidth 16
      level := level.setWidth 16 },
    0)

/-! ## The frequency that is asked for -/

/-- The divider and the wrap value are ones of the hardware, and the wrap value is the last one
with which the frequency is reached. -/
structure PwmSlice.Provides (slice : PwmSlice) (clock freqHz : Nat) : Prop where
  one_le_divider : 16 ≤ slice.divider16
  divider_le : slice.divider16 ≤ 255 * 16 + 15
  one_le_wrap : 1 ≤ slice.wrap.toNat
  reached : freqHz * (slice.divider16 * (slice.wrap.toNat + 1)) ≤ 16 * clock
  last : 16 * clock < freqHz * (slice.divider16 * (slice.wrap.toNat + 2))

/-- Nothing is undefined, nothing wraps, and the frequency is provided or rejected. -/
def PwmInitSucceeds (clock freqHz dutyPercent : BitVec 32) : Prop :=
  ∃ slice result, pwmInit clock freqHz dutyPercent = .exactly (slice, result) ∧
    (result < 0 ∨ slice.Provides clock.toNat freqHz.toNat)

/-- A frequency that the clock can be brought down to, with a clock and a frequency that leave
room for a factor. -/
structure Attainable (clock freqHz : Nat) : Prop where
  clock_lt : clock < 2 ^ 28
  freqHz_lt : freqHz < 2 ^ 19
  twice_le : 2 * freqHz ≤ clock
  le_largest : clock ≤ 4095 * 4096 * freqHz

/-! ## The steps in natural numbers -/

/-- The clock cycles that 4096 steps take, rounded up. -/
def roundedCycles (clock freqHz : Nat) : Nat :=
  clock / freqHz / 4096 + if clock % (freqHz * 4096) ≠ 0 then 1 else 0

/-- The divider that comes out, in sixteenths. -/
def dividerFor (clock freqHz : Nat) : Nat :=
  if roundedCycles clock freqHz / 16 = 0 then 16 else roundedCycles clock freqHz

/-- What has to fit, and the wrap value that comes out. -/
structure PwmSteps (clock freqHz dutyPercent wrap : Nat) : Prop where
  step_lt : freqHz * 4096 < 2 ^ 31
  clock_lt : clock * 16 < 2 ^ 32
  wrap_eq : wrap + 1 = clock * 16 / dividerFor clock freqHz / freqHz
  product_lt : wrap * dutyPercent < 2 ^ 32

/-- The slice for a divider in sixteenths and a wrap value. -/
def sliceFor (divider16 wrap dutyPercent : Nat) : PwmSlice where
  dividerInt := BitVec.ofNat 8 (divider16 / 16)
  dividerFrac := BitVec.ofNat 8 (divider16 % 16)
  wrap := BitVec.ofNat 16 wrap
  level := BitVec.ofNat 16 (wrap * dutyPercent / 100)

variable {clock freqHz : Nat}

theorem roundedCycles_bounds
    (positive : 0 < freqHz)
    (clock : Nat) :
    clock ≤ freqHz * 4096 * roundedCycles clock freqHz ∧
      freqHz * 4096 * roundedCycles clock freqHz < clock + freqHz * 4096 := by
  have whole := Nat.div_add_mod clock (freqHz * 4096)
  have below := Nat.mod_lt clock (show 0 < freqHz * 4096 by omega)
  rw [roundedCycles, Nat.div_div_eq_div_mul, Nat.mul_add]
  split <;> omega

theorem dividerFor_bounds (clock freqHz : Nat) :
    16 ≤ dividerFor clock freqHz ∧ roundedCycles clock freqHz ≤ dividerFor clock freqHz ∧
      dividerFor clock freqHz ≤ roundedCycles clock freqHz + 16 := by
  rw [dividerFor]
  split <;> omega

theorem toNat_of_positive
    {freqHz : BitVec 32}
    (positive : 0 < freqHz.toInt) :
    freqHz.toInt = freqHz.toNat ∧ 0 < freqHz.toNat ∧ freqHz.toNat < 2 ^ 31 := by
  have signed := BitVec.toInt_eq_toNat_cond freqHz
  have small := freqHz.isLt
  split at signed <;> omega

/-- The factor is a signed product. -/
theorem step_eq_some_iff
    {freqHz step : BitVec 32}
    (positive : 0 < freqHz.toInt) :
    CInteger.mul freqHz 4096 = some step ↔
      step.toNat = freqHz.toNat * 4096 ∧ freqHz.toNat * 4096 < 2 ^ 31 := by
  have nonnegative := toNat_of_positive positive
  have signed := BitVec.toInt_eq_toNat_cond step
  have small := step.isLt
  have factor : (4096 : BitVec 32).toInt = 4096 := rfl
  rw [CInteger.mul, CInteger.represent_eq_some_iff (by decide), factor]
  split at signed <;> omega

theorem toNat_word
    {number : Nat}
    (small : number < 2 ^ 32) :
    (BitVec.ofNat 32 number).toNat = number := by
  rw [BitVec.toNat_ofNat, Nat.mod_eq_of_lt small]

/-- The divider as a word. -/
theorem divider_toNat
    {clock freqHz : Nat} {rounded : BitVec 32}
    (same : rounded.toNat = roundedCycles clock freqHz) :
    (if rounded / 16 = 0 then 16 else rounded).toNat = dividerFor clock freqHz := by
  have whole : rounded / 16 = 0 ↔ rounded.toNat / 16 = 0 := by
    rw [BitVec.toNat_eq, BitVec.toNat_udiv]
    rfl
  rw [dividerFor, ← same]
  simp only [whole]
  split <;> rfl

/-- The rounding as a word. -/
theorem carry_toNat
    {clock freqHz : Nat} {remainder : BitVec 32}
    (same : remainder.toNat = clock % (freqHz * 4096)) :
    (if remainder ≠ 0 then 1 else 0 : BitVec 32).toNat =
      if clock % (freqHz * 4096) ≠ 0 then 1 else 0 := by
  have zero : remainder = 0 ↔ remainder.toNat = 0 := BitVec.toNat_eq
  rw [← same]
  simp only [ne_eq, zero]
  split <;> rfl

theorem slice_eq_sliceFor
    {divider wrap level : BitVec 32} {divider16 wrap' duty : Nat}
    (dividerEq : divider.toNat = divider16)
    (wrapEq : wrap.toNat = wrap')
    (levelEq : level.toNat = wrap' * duty / 100) :
    PwmSlice.mk ((divider / 16).setWidth 8) ((divider &&& 0xF).setWidth 8)
        (wrap.setWidth 16) (level.setWidth 16) =
      sliceFor divider16 wrap' duty := by
  have nibble : (divider &&& 0xF).toNat = divider.toNat % 16 := by
    rw [BitVec.toNat_and]
    exact Nat.and_two_pow_sub_one_eq_mod divider.toNat 4
  have whole : (divider / 16).toNat = divider.toNat / 16 := BitVec.toNat_udiv
  rw [sliceFor, PwmSlice.mk.injEq]
  refine ⟨?_, ?_, ?_, ?_⟩ <;> apply BitVec.eq_of_toNat_eq
  · rw [BitVec.toNat_setWidth, BitVec.toNat_ofNat, whole, dividerEq]
  · rw [BitVec.toNat_setWidth, BitVec.toNat_ofNat, nibble, dividerEq]
  · rw [BitVec.toNat_setWidth, BitVec.toNat_ofNat, wrapEq]
  · rw [BitVec.toNat_setWidth, BitVec.toNat_ofNat, levelEq]

theorem pwmInit_steps
    {clock freqHz dutyPercent : BitVec 32} {slice : PwmSlice} {result : Int}
    (positive : 0 < freqHz.toInt)
    (runs : pwmInit clock freqHz dutyPercent = .exactly (slice, result)) :
    ∃ wrap, PwmSteps clock.toNat freqHz.toNat dutyPercent.toNat wrap ∧
      slice = sliceFor (dividerFor clock.toNat freqHz.toNat) wrap dutyPercent.toNat ∧
      result = 0 := by
  simp only [pwmInit, CInteger.bind_eq_exactly_iff, CInteger.unsignedDiv_eq_exactly_iff,
    CInteger.unsignedMod_eq_exactly_iff, CInteger.unsignedAdd_eq_exactly_iff,
    CInteger.unsignedMul_eq_exactly_iff, CInteger.unsignedSub_eq_exactly_iff,
    CInteger.signed_eq_exactly_iff, step_eq_some_iff positive, CInteger.pure_eq_exactly_iff]
    at runs
  obtain ⟨hertz, ⟨-, hertzEq⟩, cycles, ⟨-, cyclesEq⟩, step, ⟨stepEq, stepFits⟩, remainder,
    ⟨-, remainderEq⟩, rounded, roundedEq, scaled, scaledEq, divided, ⟨-, dividedEq⟩, quotient,
    ⟨-, quotientEq⟩, wrap, wrapEq, product, productEq, level, ⟨-, levelEq⟩, same⟩ := runs
  have roundedNat : rounded.toNat = roundedCycles clock.toNat freqHz.toNat := by
    rw [roundedEq, carry_toNat (remainderEq.trans (by rw [stepEq])), cyclesEq, hertzEq]
    rfl
  have dividerNat := divider_toNat roundedNat
  have wrapNat : wrap.toNat + 1 =
      clock.toNat * 16 / dividerFor clock.toNat freqHz.toNat / freqHz.toNat := by
    rw [← dividerNat]
    have one : (1 : BitVec 32).toNat = 1 := rfl
    have sixteen : (16 : BitVec 32).toNat = 16 := rfl
    rw [one] at wrapEq
    rw [sixteen] at scaledEq
    rw [wrapEq, quotientEq, dividedEq, scaledEq]
  have scaledFits := scaled.isLt
  have productFits := product.isLt
  refine ⟨wrap.toNat, ⟨stepFits, ?_, wrapNat, ?_⟩, ?_, ?_⟩
  · rw [scaledEq] at scaledFits
    exact scaledFits
  · rw [productEq] at productFits
    exact productFits
  · apply (congrArg Prod.fst same).symm.trans
    apply slice_eq_sliceFor dividerNat rfl
    rw [levelEq, productEq]
    rfl
  · exact (congrArg Prod.snd same).symm

/-- The values that the steps come to. -/
theorem pwmInit_of_steps
    {clock freqHz dutyPercent : BitVec 32} {wrap : Nat}
    (positive : 0 < freqHz.toInt)
    (steps : PwmSteps clock.toNat freqHz.toNat dutyPercent.toNat wrap) :
    pwmInit clock freqHz dutyPercent =
      .exactly (sliceFor (dividerFor clock.toNat freqHz.toNat) wrap dutyPercent.toNat, 0) := by
  simp only [pwmInit, CInteger.bind_eq_exactly_iff, CInteger.unsignedDiv_eq_exactly_iff,
    CInteger.unsignedMod_eq_exactly_iff, CInteger.unsignedAdd_eq_exactly_iff,
    CInteger.unsignedMul_eq_exactly_iff, CInteger.unsignedSub_eq_exactly_iff,
    CInteger.signed_eq_exactly_iff, step_eq_some_iff positive, CInteger.pure_eq_exactly_iff]
  have nonzero : freqHz.toNat ≠ 0 := by
    have := (toNat_of_positive positive).2.1
    omega
  have stepFits := steps.step_lt
  have scaledFits := steps.clock_lt
  have wrapBound : wrap + 1 ≤ clock.toNat * 16 := by
    rw [steps.wrap_eq]
    exact (Nat.div_le_self _ _).trans (Nat.div_le_self _ _)
  have roundedBound : roundedCycles clock.toNat freqHz.toNat < 2 ^ 32 := by
    have small := clock.isLt
    have first := Nat.div_le_self clock.toNat freqHz.toNat
    rw [roundedCycles]
    split <;> omega
  have stepNat := toNat_word (show freqHz.toNat * 4096 < 2 ^ 32 by omega)
  have roundedNat := toNat_word roundedBound
  have scaledNat := toNat_word steps.clock_lt
  have wrapNat := toNat_word (show wrap < 2 ^ 32 by omega)
  have productNat := toNat_word steps.product_lt
  have dividerNat := divider_toNat roundedNat
  have dividerBound := (dividerFor_bounds clock.toNat freqHz.toNat).1
  refine ⟨clock / freqHz, ⟨nonzero, BitVec.toNat_udiv⟩, clock / freqHz / 4096,
    ⟨by decide, BitVec.toNat_udiv⟩, BitVec.ofNat 32 (freqHz.toNat * 4096), ⟨stepNat, stepFits⟩,
    clock % BitVec.ofNat 32 (freqHz.toNat * 4096), ⟨?_, BitVec.toNat_umod⟩,
    BitVec.ofNat 32 (roundedCycles clock.toNat freqHz.toNat), ?_,
    BitVec.ofNat 32 (clock.toNat * 16), scaledNat, _, ⟨?_, BitVec.toNat_udiv⟩,
    _, ⟨nonzero, BitVec.toNat_udiv⟩, BitVec.ofNat 32 wrap, ?_,
    BitVec.ofNat 32 (wrap * dutyPercent.toNat), ?_, _, ⟨by decide, BitVec.toNat_udiv⟩, ?_⟩
  · rw [stepNat]
    omega
  · rw [roundedNat, carry_toNat (by rw [BitVec.toNat_umod, stepNat]), BitVec.toNat_udiv,
      BitVec.toNat_udiv]
    rfl
  · rw [dividerNat]
    omega
  · rw [wrapNat, BitVec.toNat_udiv, BitVec.toNat_udiv, scaledNat, dividerNat, ← steps.wrap_eq]
    rfl
  · rw [productNat, wrapNat]
  · apply congrArg (·, (0 : Int))
    apply slice_eq_sliceFor dividerNat wrapNat
    rw [BitVec.toNat_udiv, productNat]
    rfl

/-! ## What the slice provides -/

theorem sliceFor_divider16 (divider16 wrap duty : Nat) :
    (sliceFor divider16 wrap duty).divider16 = divider16 % 4096 := by
  rw [PwmSlice.divider16, sliceFor, BitVec.toNat_ofNat, BitVec.toNat_ofNat]
  omega

theorem sliceFor_wrap (divider16 wrap duty : Nat) :
    (sliceFor divider16 wrap duty).wrap.toNat = wrap % 65536 :=
  BitVec.toNat_ofNat _ _

/-- A quotient is rounded down. -/
theorem quotient_bounds
    {total divider quotient : Nat}
    (positive : 0 < freqHz)
    (dividerPositive : 0 < divider)
    (same : quotient = total / divider / freqHz) :
    freqHz * (divider * quotient) ≤ total ∧ total < freqHz * (divider * (quotient + 1)) := by
  have whole := Nat.div_add_mod total (divider * freqHz)
  have below := Nat.mod_lt total (Nat.mul_pos dividerPositive positive)
  rw [Nat.div_div_eq_div_mul] at same
  rw [← same] at whole
  have product : freqHz * (divider * quotient) = divider * freqHz * quotient := by
    ring
  have next : freqHz * (divider * (quotient + 1)) =
      divider * freqHz * quotient + divider * freqHz := by
    ring
  constructor <;> omega

/-- The wrap value is one of the hardware. -/
theorem quotient_le (positive : 0 < freqHz) :
    clock * 16 / dividerFor clock freqHz / freqHz ≤ 65536 := by
  have divider := dividerFor_bounds clock freqHz
  have quotient : freqHz * (dividerFor clock freqHz *
      (clock * 16 / dividerFor clock freqHz / freqHz)) ≤ clock * 16 :=
    (quotient_bounds positive (by omega) rfl).1
  have cycles := (roundedCycles_bounds positive clock).1
  have scaled : freqHz * 4096 * roundedCycles clock freqHz ≤
      freqHz * 4096 * dividerFor clock freqHz :=
    Nat.mul_le_mul_left _ divider.2.1
  have bounded : freqHz * (dividerFor clock freqHz *
      (clock * 16 / dividerFor clock freqHz / freqHz)) ≤
        freqHz * (dividerFor clock freqHz * 65536) := by
    linarith
  have cancelled := Nat.le_of_mul_le_mul_left bounded positive
  exact Nat.le_of_mul_le_mul_left cancelled (by omega)

/-- Only small frequencies make the divider large. -/
theorem dividerFor_le
    (positive : 0 < freqHz)
    (largest : clock ≤ 4095 * 4096 * freqHz) :
    dividerFor clock freqHz ≤ 4095 := by
  have cycles := (roundedCycles_bounds positive clock).2
  have few : roundedCycles clock freqHz < 4096 := by
    by_contra many
    have least : freqHz * 4096 * 4096 ≤ freqHz * 4096 * roundedCycles clock freqHz :=
      Nat.mul_le_mul_left _ (by omega)
    omega
  rw [dividerFor]
  split <;> omega

/-- The divider leaves room for two steps. -/
theorem twice_le_of_twice_le
    (positive : 0 < freqHz)
    (twice : 2 * freqHz ≤ clock) :
    2 * (freqHz * dividerFor clock freqHz) ≤ clock * 16 := by
  have cycles := (roundedCycles_bounds positive clock).2
  have factored : freqHz * 4096 * roundedCycles clock freqHz =
      freqHz * roundedCycles clock freqHz * 4096 := by
    ring
  rw [dividerFor]
  split <;> omega

/-- With a divider that is too large, the one that is programmed makes the frequency wrong. -/
theorem largest_of_last
    {wrap : Nat}
    (positive : 0 < freqHz)
    (clockFits : clock * 16 < 2 ^ 32)
    (reached : freqHz * (dividerFor clock freqHz * (wrap + 1)) ≤ clock * 16)
    (before : clock * 16 < freqHz * (dividerFor clock freqHz * (wrap + 2)))
    (last : clock * 16 < freqHz * (dividerFor clock freqHz % 4096 * (wrap + 2))) :
    clock ≤ 4095 * 4096 * freqHz := by
  by_contra small
  have cycles := roundedCycles_bounds positive clock
  have many : 4096 ≤ roundedCycles clock freqHz := by
    by_contra few
    have most : freqHz * 4096 * roundedCycles clock freqHz ≤ freqHz * 4096 * 4095 :=
      Nat.mul_le_mul_left _ (by omega)
    omega
  have same : dividerFor clock freqHz = roundedCycles clock freqHz := by
    rw [dividerFor, if_neg (by omega)]
  rw [same] at reached before last
  generalize roundedCycles clock freqHz = divider at *
  have cut : divider % 4096 ≤ divider - 4096 := by
    omega
  have product : freqHz * 4096 ≤ freqHz * divider := Nat.mul_le_mul_left _ many
  have dividerSmall : divider < 65537 := by
    by_contra large
    have least : freqHz * 4096 * 65537 ≤ freqHz * 4096 * divider :=
      Nat.mul_le_mul_left _ (by omega)
    omega
  have wrapLarge : 65518 < wrap := by
    by_contra narrow
    have most : freqHz * (divider * (wrap + 2)) ≤ freqHz * (divider * 65520) :=
      Nat.mul_le_mul_left _ (Nat.mul_le_mul_left _ (by omega))
    have ordered : freqHz * (divider * 65520) = freqHz * divider * 65520 := by
      ring
    have factored : freqHz * 4096 * divider = freqHz * divider * 4096 := by
      ring
    omega
  have programmed : freqHz * (divider % 4096 * (wrap + 2)) ≤
      freqHz * ((divider - 4096) * (wrap + 2)) :=
    Nat.mul_le_mul_left _ (Nat.mul_le_mul_right _ cut)
  have missing : freqHz * ((divider - 4096) * (wrap + 2)) + freqHz * (4096 * (wrap + 2)) =
      freqHz * (divider * (wrap + 2)) := by
    rw [← Nat.mul_add, ← Nat.add_mul, Nat.sub_add_cancel many]
  have next : freqHz * (divider * (wrap + 2)) =
      freqHz * (divider * (wrap + 1)) + freqHz * divider := by
    ring
  have excess : freqHz * divider ≤ freqHz * (4096 * (wrap + 2)) :=
    Nat.mul_le_mul_left _ (by omega)
  omega

theorem provides_iff
    {wrap duty : Nat}
    (positive : 0 < freqHz)
    (steps : PwmSteps clock freqHz duty wrap) :
    (sliceFor (dividerFor clock freqHz) wrap duty).Provides clock freqHz ↔
      2 * freqHz ≤ clock ∧ clock ≤ 4095 * 4096 * freqHz := by
  have divider := dividerFor_bounds clock freqHz
  have quotient := quotient_bounds positive (by omega) steps.wrap_eq
  have clockFits := steps.clock_lt
  have wrapFits : wrap + 1 ≤ 65536 := by
    rw [steps.wrap_eq]
    exact quotient_le positive
  have wrapKept : (sliceFor (dividerFor clock freqHz) wrap duty).wrap.toNat = wrap := by
    rw [sliceFor_wrap]
    omega
  constructor
  · intro provides
    have oneLeWrap := provides.one_le_wrap
    have last := provides.last
    rw [wrapKept] at oneLeWrap last
    rw [sliceFor_divider16] at last
    constructor
    · have least : freqHz * (16 * 2) ≤ freqHz * (dividerFor clock freqHz * (wrap + 1)) :=
        Nat.mul_le_mul_left _ (Nat.mul_le_mul divider.1 (by omega))
      omega
    · exact largest_of_last positive clockFits quotient.1 quotient.2 (by linarith)
  · rintro ⟨twice, largest⟩
    have dividerFits := dividerFor_le positive largest
    have dividerKept : (sliceFor (dividerFor clock freqHz) wrap duty).divider16 =
        dividerFor clock freqHz := by
      rw [sliceFor_divider16]
      omega
    have oneLeWrap : 1 ≤ wrap := by
      by_contra none
      have zero : wrap = 0 := by omega
      have room := twice_le_of_twice_le positive twice
      rw [zero] at quotient
      have double : freqHz * (dividerFor clock freqHz * (0 + 1 + 1)) =
          2 * (freqHz * dividerFor clock freqHz) := by
        ring
      omega
    constructor
    · rw [dividerKept]
      exact divider.1
    · rw [dividerKept]
      exact dividerFits
    · rw [wrapKept]
      exact oneLeWrap
    · rw [dividerKept, wrapKept]
      linarith [quotient.1]
    · rw [dividerKept, wrapKept]
      linarith [quotient.2]

/-! ## When `pwm_init` succeeds -/

/-- The steps go through for a clock and a frequency that leave room for a factor. -/
theorem pwmSteps_of_attainable
    {duty : Nat}
    (positive : 0 < freqHz)
    (percent : duty ≤ 100)
    (attainable : Attainable clock freqHz) :
    ∃ wrap, PwmSteps clock freqHz duty wrap := by
  have clockFits := attainable.clock_lt
  have freqFits := attainable.freqHz_lt
  have divider := (dividerFor_bounds clock freqHz).1
  have most : clock * 16 / dividerFor clock freqHz / freqHz ≤ 65536 := quotient_le positive
  have least : 2 ≤ clock * 16 / dividerFor clock freqHz / freqHz := by
    have room := twice_le_of_twice_le positive attainable.twice_le
    rw [Nat.div_div_eq_div_mul, Nat.le_div_iff_mul_le (Nat.mul_pos (by omega) positive)]
    linarith
  have product : (clock * 16 / dividerFor clock freqHz / freqHz - 1) * duty ≤ 65535 * 100 :=
    Nat.mul_le_mul (by omega) percent
  exact ⟨clock * 16 / dividerFor clock freqHz / freqHz - 1, by omega, by omega, by omega,
    by omega⟩

/-- The documented range of the duty cycle. -/
theorem percent_toNat
    {dutyPercent : BitVec 32}
    (percent : 0 ≤ dutyPercent.toInt ∧ dutyPercent.toInt ≤ 100) :
    dutyPercent.toNat ≤ 100 := by
  have signed := BitVec.toInt_eq_toNat_cond dutyPercent
  split at signed <;> omega

theorem pwmInit_succeeds_iff
    {clock freqHz dutyPercent : BitVec 32}
    (positive : 0 < freqHz.toInt)
    (percent : 0 ≤ dutyPercent.toInt ∧ dutyPercent.toInt ≤ 100) :
    PwmInitSucceeds clock freqHz dutyPercent ↔ Attainable clock.toNat freqHz.toNat := by
  have nonzero := (toNat_of_positive positive).2.1
  constructor
  · rintro ⟨slice, result, runs, rejected | provides⟩
    · obtain ⟨wrap, -, -, rfl⟩ := pwmInit_steps positive runs
      cases rejected
    · obtain ⟨wrap, steps, rfl, -⟩ := pwmInit_steps positive runs
      have bounds := (provides_iff nonzero steps).mp provides
      have stepFits := steps.step_lt
      have clockFits := steps.clock_lt
      exact ⟨by omega, by omega, bounds.1, bounds.2⟩
  · intro attainable
    obtain ⟨wrap, steps⟩ :=
      pwmSteps_of_attainable nonzero (percent_toNat percent) attainable
    have provides := (provides_iff nonzero steps).mpr
      ⟨attainable.twice_le, attainable.le_largest⟩
    exact ⟨_, 0, pwmInit_of_steps positive steps, .inr provides⟩

/-- A kilohertz from a clock of 125 megahertz. -/
theorem kilohertz_succeeds : PwmInitSucceeds 125000000 1000 50 :=
  (pwmInit_succeeds_iff (by decide) (by decide)).mpr
    ⟨by decide, by decide, by decide, by decide⟩

/-- One hertz would need a divider that does not fit into its byte. -/
theorem oneHertz_fails : ¬ PwmInitSucceeds 125000000 1 50 := by
  have value : pwmInit 125000000 1 50 =
      .exactly ({ dividerInt := 115, dividerFrac := 6, wrap := 65534, level := 32767 }, 0) := by
    decide
  rintro ⟨slice, result, runs, rejected | provides⟩
  · rw [value] at runs
    cases runs
    cases rejected
  · rw [value] at runs
    cases runs
    exact absurd provides.last (by decide)

end PicoJvm.Hardware
