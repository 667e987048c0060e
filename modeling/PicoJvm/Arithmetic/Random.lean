import Mathlib.SetTheory.Cardinal.Finite
import PicoJvm.Lib.Congruential
import PicoJvm.Lib.Polling
import PicoJvm.Lib.ResidueSampling

/-!
# Random numbers

`Random` draws numbers from a seed of 48 bits that each draw replaces by the next of a congruential
sequence. `nextInt(n)` draws until the number is not in the last block of `n`, which would make
small residues more frequent than others.
-/

namespace PicoJvm.Pseudorandom

open PicoJvm.Lib PicoJvm.Lib.Congruential PicoJvm.Lib.Polling PicoJvm.Lib.ResidueSampling

/-! ## The generator -/

/-- `multiplier`. -/
def multiplier : BitVec 64 :=
  0x5DEECE66D

/-- `addend`. -/
def addend : BitVec 64 :=
  0xB

/-- `mask`. -/
def mask : BitVec 64 :=
  (1#64 <<< 48) - 1#64

/-- The seed after one. -/
def nextSeed (seed : BitVec 64) : BitVec 64 :=
  (seed * multiplier + addend) &&& mask

theorem mask_toNat : mask.toNat = 2 ^ 48 - 1 := by
  decide

theorem nextSeed_toNat (seed : BitVec 64) :
    (nextSeed seed).toNat = next 0x5DEECE66D 0xB (2 ^ 48) seed.toNat := by
  rw [nextSeed, BitVec.toNat_and, mask_toNat, Nat.and_two_pow_sub_one_eq_mod, BitVec.toNat_add,
    BitVec.toNat_mul, Nat.mod_add_mod, Nat.mod_mod_of_dvd _ (by decide), next, affine,
    Nat.mul_comm]
  rfl

theorem nextSeed_lt (seed : BitVec 64) : (nextSeed seed).toNat < 2 ^ 48 := by
  rw [nextSeed_toNat]
  exact next_lt _ _ _ (by decide)

/-- A `Random`, whose seed has 48 bits. -/
@[ext]
structure Random where
  seed : BitVec 64
  seed_lt : seed.toNat < 2 ^ 48

/-- A generator whose seed has been replaced by the next one. -/
def Random.advanced (random : Random) : Random where
  seed := nextSeed random.seed
  seed_lt := nextSeed_lt random.seed

/-- `next`. -/
def Random.next (random : Random) (bits : Nat) : BitVec 32 × Random :=
  ((random.advanced.seed >>> (48 - bits)).setWidth 32, random.advanced)

/-! ## `nextInt` -/

/-- The residue of a draw in the loop of `nextInt`, unless the draw is rejected. The sum that is
compared with zero may be too large for an `int`. -/
def accept (n bits : BitVec 32) : Option (BitVec 32) :=
  let val := bits.srem n
  if (bits - val + (n - 1)).slt 0 then none else some val

/-- One round of the loop of `nextInt`. -/
def draw (n : BitVec 32) (random : Random) : Option (BitVec 32) :=
  accept n (random.next 31).1

/-- The loop of `nextInt`, for so many rounds. -/
def drawLoop (n : BitVec 32) (rounds : Nat) (random : Random) : Option (BitVec 32 × Random) :=
  (firstAnswer (fun round => draw n (Random.advanced^[round] random)) rounds 0).map fun answer =>
    (answer.2, Random.advanced^[answer.1 + 1] random)

/-- What `nextInt` returns for a power of two: the upper bits of the product. -/
def scaled (n bits : BitVec 32) : BitVec 32 :=
  ((n.signExtend 64 * bits.signExtend 64).sshiftRight 31).setWidth 32

/-- How `nextInt` ends. -/
inductive Outcome where
  | illegalArgument
  | returned (value : BitVec 32) (random : Random)

/-- `nextInt`, with so many rounds of its loop; nothing when they are not enough. -/
def Random.nextInt (random : Random) (n : BitVec 32) (rounds : Nat) : Option Outcome :=
  if n.sle 0 then
    some .illegalArgument
  else if n &&& -n = n then
    some (.returned (scaled n (random.next 31).1) (random.next 31).2)
  else
    (drawLoop n rounds random).map fun result => .returned result.1 result.2

/-! ## Draws as numbers -/

theorem next_toNat (random : Random) :
    (random.next 31).1.toNat = random.advanced.seed.toNat / 2 ^ 17 := by
  have below := random.advanced.seed_lt
  simp only [Random.next, BitVec.toNat_setWidth, BitVec.toNat_ushiftRight, Nat.shiftRight_eq_div_pow]
  omega

theorem next_lt_bound (random : Random) : (random.next 31).1.toNat < 2 ^ 31 := by
  have below := random.advanced.seed_lt
  rw [next_toNat]
  omega

theorem toInt_of_lt
    {number : BitVec 32}
    (below : number.toNat < 2 ^ 31) :
    number.toInt = number.toNat := by
  rw [BitVec.toInt_eq_toNat_cond, if_pos (by omega)]

theorem toNat_of_toInt_pos
    {number : BitVec 32}
    (positive : 0 < number.toInt) :
    0 < number.toNat ∧ number.toNat < 2 ^ 31 := by
  have split := BitVec.toInt_eq_toNat_cond number
  have below := number.isLt
  split at split <;> omega

theorem srem_toNat
    {bits n : BitVec 32}
    (bitsBelow : bits.toNat < 2 ^ 31)
    (nBelow : n.toNat < 2 ^ 31) :
    (bits.srem n).toNat = bits.toNat % n.toNat := by
  have bitsMsb : bits.msb = false := BitVec.msb_eq_false_iff_two_mul_lt.mpr (by omega)
  have nMsb : n.msb = false := BitVec.msb_eq_false_iff_two_mul_lt.mpr (by omega)
  rw [BitVec.toNat_srem, bitsMsb, nMsb]

/-- The test of the loop rejects the draws whose block is not whole, although the sum overflows. -/
theorem rejected_iff
    {bits n : BitVec 32}
    (bitsBelow : bits.toNat < 2 ^ 31)
    (positive : 0 < n.toNat)
    (nBelow : n.toNat < 2 ^ 31) :
    (bits - bits.srem n + (n - 1)).slt 0 = true ↔ ¬ Accepted (2 ^ 31) n.toNat bits.toNat := by
  have remainder := srem_toNat bitsBelow nBelow
  have remainderLe := Nat.mod_le bits.toNat n.toNat
  have sum : (bits - bits.srem n + (n - 1)).toNat =
      bits.toNat - bits.toNat % n.toNat + (n.toNat - 1) := by
    rw [BitVec.toNat_add, BitVec.toNat_sub_of_le (by rw [BitVec.le_def]; omega),
      BitVec.toNat_sub_of_le (by rw [BitVec.le_def]; exact positive), remainder]
    exact Nat.mod_eq_of_lt (by change _ + (_ - 1) < _; omega)
  have isNegative : ∀ number : BitVec 32, number.slt 0 = true ↔ 2 ^ 31 ≤ number.toNat := by
    intro number
    rw [BitVec.slt_iff_toInt_lt, BitVec.toInt_eq_toNat_cond]
    have numberLt := number.isLt
    simp only [BitVec.toInt_zero, BitVec.ofNat_eq_ofNat]
    split <;> omega
  rw [isNegative, sum, Accepted]
  omega

theorem accept_eq_some_iff
    {n bits value : BitVec 32}
    (bitsBelow : bits.toNat < 2 ^ 31)
    (positive : 0 < n.toNat)
    (nBelow : n.toNat < 2 ^ 31) :
    accept n bits = some value ↔
      Accepted (2 ^ 31) n.toNat bits.toNat ∧ bits.toNat % n.toNat = value.toNat := by
  have remainder := srem_toNat bitsBelow nBelow
  simp only [accept]
  by_cases accepted : Accepted (2 ^ 31) n.toNat bits.toNat
  · rw [if_neg (fun rejected => (rejected_iff bitsBelow positive nBelow).mp rejected accepted)]
    simp only [Option.some.injEq, accepted, true_and, ← remainder, BitVec.toNat_inj]
  · rw [if_pos ((rejected_iff bitsBelow positive nBelow).mpr accepted)]
    simp only [accepted, false_and, reduceCtorEq]

/-! ## The loop ends -/

theorem advanced_iterate_seed (random : Random) (draws : Nat) :
    (Random.advanced^[draws] random).seed.toNat =
      (Congruential.next 0x5DEECE66D 0xB (2 ^ 48))^[draws] random.seed.toNat := by
  induction draws with
  | zero =>
      rfl
  | succ draws inductionHypothesis =>
      rw [Function.iterate_succ_apply', Function.iterate_succ_apply', ← inductionHypothesis]
      exact nextSeed_toNat _

/-- Within 2^48 draws a draw is zero. -/
theorem exists_draw_zero (random : Random) :
    ∃ draws < 2 ^ 48, ((Random.advanced^[draws] random).next 31).1.toNat = 0 := by
  obtain ⟨draws, below, isZero⟩ := @exists_iterate_next 0x5DEECE66D 0xB (by decide) (by decide)
    48 0 random.seed.toNat (Nat.two_pow_pos 48)
  refine ⟨draws, below, ?_⟩
  have seedZero : (Random.advanced^[draws] random).advanced.seed.toNat = 0 := by
    rw [← Function.iterate_succ_apply' Random.advanced, advanced_iterate_seed]
    exact isZero
  rw [next_toNat, seedZero, Nat.zero_div]

/-- For an `n` above zero `nextInt` returns, within 2^48 rounds, a value from zero to `n` less
one. -/
theorem drawLoop_terminates
    (random : Random) {n : BitVec 32}
    (positive : 0 < n.toNat)
    (nBelow : n.toNat < 2 ^ 31) :
    ∃ value random', value.toNat < n.toNat ∧
      ∀ rounds ≥ 2 ^ 48, drawLoop n rounds random = some (value, random') := by
  obtain ⟨draws, below, isZero⟩ := exists_draw_zero random
  have accepted : draw n (Random.advanced^[draws] random) = some 0 := by
    refine (accept_eq_some_iff (by omega) positive nBelow).mpr ?_
    rw [isZero]
    exact ⟨accepted_zero nBelow.le, Nat.zero_mod _⟩
  let ask := fun round => draw n (Random.advanced^[round] random)
  have answered : firstAnswer ask (draws + 1) 0 ≠ none := by
    intro unanswered
    have silent := firstAnswer_eq_none_iff.mp unanswered draws (Nat.zero_le draws) (by omega)
    rw [show ask draws = some 0 from accepted] at silent
    cases silent
  obtain ⟨answer, isAnswer⟩ := Option.ne_none_iff_exists'.mp answered
  obtain ⟨least, within, drawn, silent⟩ := firstAnswer_eq_some_iff.mp isAnswer
  have residue := ((accept_eq_some_iff (next_lt_bound _) positive nBelow).mp drawn).2
  refine ⟨answer.2, Random.advanced^[answer.1 + 1] random, ?_, fun rounds enough => ?_⟩
  · rw [← residue]
    exact Nat.mod_lt _ positive
  · have found : firstAnswer ask rounds 0 = some answer :=
      firstAnswer_eq_some_iff.mpr ⟨least, by omega, drawn, silent⟩
    rw [drawLoop, found]
    rfl

theorem scaled_toNat
    {n bits : BitVec 32}
    (bitsBelow : bits.toNat < 2 ^ 31)
    (nBelow : n.toNat < 2 ^ 31) :
    (scaled n bits).toNat = n.toNat * bits.toNat / 2 ^ 31 := by
  have product : n.toNat * bits.toNat < 2 ^ 31 * 2 ^ 31 :=
    Nat.mul_lt_mul'' nBelow bitsBelow
  have wide : (n.signExtend 64 * bits.signExtend 64).toNat = n.toNat * bits.toNat := by
    rw [BitVec.toNat_mul, BitVec.signExtend_eq_setWidth_of_msb_false
      (BitVec.msb_eq_false_iff_two_mul_lt.mpr (by omega)),
      BitVec.signExtend_eq_setWidth_of_msb_false
        (BitVec.msb_eq_false_iff_two_mul_lt.mpr (by omega)),
      BitVec.toNat_setWidth_of_le (by decide), BitVec.toNat_setWidth_of_le (by decide)]
    exact Nat.mod_eq_of_lt (by omega)
  rw [scaled, BitVec.sshiftRight_eq_of_msb_false
    (BitVec.msb_eq_false_iff_two_mul_lt.mpr (by omega)), BitVec.toNat_setWidth,
    BitVec.toNat_ushiftRight, wide, Nat.shiftRight_eq_div_pow]
  omega

/-! ## The residues are equally frequent -/

theorem card_random (property : Nat → Prop) [DecidablePred property] :
    Nat.card {random : Random // property random.seed.toNat} =
      ((Finset.range (2 ^ 48)).filter property).card := by
  rw [← Nat.card_eq_finsetCard]
  apply Nat.card_eq_of_bijective fun random =>
    ⟨random.1.seed.toNat, Finset.mem_filter.mpr
      ⟨Finset.mem_range.mpr random.1.seed_lt, random.2⟩⟩
  constructor
  · intro random random' same
    exact Subtype.ext (Random.ext (BitVec.toNat_inj.mp (Subtype.mk.inj same)))
  · intro number
    obtain ⟨below, holds⟩ := Finset.mem_filter.mp number.2
    have seedEq : (BitVec.ofNat 64 number.1).toNat = number.1 := by
      rw [BitVec.toNat_ofNat]
      exact Nat.mod_eq_of_lt ((Finset.mem_range.mp below).trans (by decide))
    exact ⟨⟨⟨BitVec.ofNat 64 number.1, by rw [seedEq]; exact Finset.mem_range.mp below⟩,
      by rw [seedEq]; exact holds⟩, Subtype.ext seedEq⟩

theorem card_bits (property : Nat → Prop) [DecidablePred property] :
    Nat.card {bits : BitVec 32 // bits.toNat < 2 ^ 31 ∧ property bits.toNat} =
      ((Finset.range (2 ^ 31)).filter property).card := by
  rw [← Nat.card_eq_finsetCard]
  apply Nat.card_eq_of_bijective fun bits =>
    ⟨bits.1.toNat, Finset.mem_filter.mpr ⟨Finset.mem_range.mpr bits.2.1, bits.2.2⟩⟩
  constructor
  · intro bits bits' same
    exact Subtype.ext (BitVec.toNat_inj.mp (Subtype.mk.inj same))
  · intro number
    obtain ⟨below, holds⟩ := Finset.mem_filter.mp number.2
    have bitsEq : (BitVec.ofNat 32 number.1).toNat = number.1 := by
      rw [BitVec.toNat_ofNat]
      exact Nat.mod_eq_of_lt ((Finset.mem_range.mp below).trans (by decide))
    exact ⟨⟨BitVec.ofNat 32 number.1, by rw [bitsEq]; exact Finset.mem_range.mp below,
      by rw [bitsEq]; exact holds⟩, Subtype.ext bitsEq⟩

/-- Each residue has as many accepted draws as any other. -/
theorem card_accept
    {n residue : BitVec 32}
    (below : residue.toNat < n.toNat)
    (nBelow : n.toNat < 2 ^ 31) :
    Nat.card {bits : BitVec 32 // bits.toNat < 2 ^ 31 ∧ accept n bits = some residue} =
      2 ^ 31 / n.toNat := by
  rw [← card_accepted below, ← card_bits]
  refine Nat.card_congr (Equiv.subtypeEquivRight fun bits => and_congr_right fun bitsBelow => ?_)
  exact accept_eq_some_iff bitsBelow (by omega) nBelow

/-- Each residue is the result of a round in as many states as any other. -/
theorem card_draw
    {n residue : BitVec 32}
    (below : residue.toNat < n.toNat)
    (nBelow : n.toNat < 2 ^ 31) :
    Nat.card {random : Random // draw n random = some residue} = 2 ^ 31 / n.toNat * 2 ^ 17 := by
  rw [← card_accepted below, ← card_upper (2 ^ 31) (Nat.two_pow_pos 17), ← pow_add,
    ← @card_next 0x5DEECE66D 0xB _ (by decide) (by decide), ← card_random]
  refine Nat.card_congr (Equiv.subtypeEquivRight fun random => ?_)
  rw [draw, accept_eq_some_iff (next_lt_bound random) (by omega) nBelow, next_toNat,
    Random.advanced, nextSeed_toNat]

/-! ## `nextInt(n)` -/

end PicoJvm.Pseudorandom
