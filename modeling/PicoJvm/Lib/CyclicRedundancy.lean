import Mathlib.Data.List.GetD
import Mathlib.Logic.Function.Iterate

/-!
# Cyclic redundancy checks

The remainder of a message in a register that is shifted towards its lowest bit. The bits of a byte
can be taken at once from a table, and a message that is changed within the width of the register has
another remainder.
-/

namespace PicoJvm.Lib

section CyclicRedundancy

variable {width : Nat} {poly : BitVec width}

/-! ## Shifting -/

/-- The register is shifted by one bit, and the polynomial is subtracted when a one falls out. -/
def shiftBit (poly crc : BitVec width) : BitVec width :=
  if crc.getLsbD 0 then (crc >>> 1) ^^^ poly else crc >>> 1

theorem getLsbD_shiftBit (crc : BitVec width) (index : Nat) :
    (shiftBit poly crc).getLsbD index =
      (crc.getLsbD (index + 1) ^^ (crc.getLsbD 0 && poly.getLsbD index)) := by
  rw [shiftBit]
  cases crc.getLsbD 0 <;> simp [Nat.add_comm]

theorem shiftBit_xor (left right : BitVec width) :
    shiftBit poly (left ^^^ right) = shiftBit poly left ^^^ shiftBit poly right := by
  apply BitVec.eq_of_getLsbD_eq
  intro index inside
  simp only [getLsbD_shiftBit, BitVec.getLsbD_xor]
  cases left.getLsbD 0 <;> cases right.getLsbD 0 <;> cases poly.getLsbD index <;> simp

/-- With the highest power in the polynomial the shift can be undone. -/
theorem shiftBit_injective
    (top : poly.msb = true) :
    Function.Injective (shiftBit poly) := by
  have wide : 0 < width := by
    cases width with
    | zero =>
        simp [BitVec.msb_eq_getLsbD_last] at top
    | succ width =>
        exact Nat.succ_pos width
  rw [BitVec.msb_eq_getLsbD_last] at top
  have lowest : ∀ crc : BitVec width, (shiftBit poly crc).getLsbD (width - 1) = crc.getLsbD 0 := by
    intro crc
    rw [getLsbD_shiftBit, top, Nat.sub_add_cancel wide, BitVec.getLsbD_of_ge crc width (Nat.le_refl width)]
    simp
  intro left right same
  have sameLowest : left.getLsbD 0 = right.getLsbD 0 := by
    rw [← lowest left, ← lowest right, same]
  apply BitVec.eq_of_getLsbD_eq
  intro index inside
  cases index with
  | zero =>
      exact sameLowest
  | succ index =>
      have atIndex := congrArg (fun crc => crc.getLsbD index) same
      simp only [getLsbD_shiftBit, sameLowest] at atIndex
      exact Bool.xor_left_inj.mp atIndex

theorem shiftBits_xor (count : Nat) (left right : BitVec width) :
    (shiftBit poly)^[count] (left ^^^ right) =
      (shiftBit poly)^[count] left ^^^ (shiftBit poly)^[count] right := by
  induction count generalizing left right with
  | zero =>
      rfl
  | succ count inductionHypothesis =>
      rw [Function.iterate_succ_apply, Function.iterate_succ_apply, Function.iterate_succ_apply,
        shiftBit_xor, inductionHypothesis]

/-- Zeros fall out without a change to the rest. -/
theorem shiftBits_of_zeros
    {count : Nat} {crc : BitVec width}
    (zeros : ∀ index < count, crc.getLsbD index = false) :
    (shiftBit poly)^[count] crc = crc >>> count := by
  induction count generalizing crc with
  | zero =>
      simp
  | succ count inductionHypothesis =>
      have shifted : shiftBit poly crc = crc >>> 1 := by
        rw [shiftBit, zeros 0 (Nat.succ_pos count)]
        simp
      rw [Function.iterate_succ_apply, shifted, inductionHypothesis, ← BitVec.shiftRight_add,
        Nat.add_comm]
      intro index inside
      rw [BitVec.getLsbD_ushiftRight, Nat.add_comm]
      exact zeros (index + 1) (Nat.succ_lt_succ inside)

/-! ## Bytes -/

/-- The register takes a byte. -/
def takeByte (poly crc : BitVec width) (byte : BitVec 8) : BitVec width :=
  (shiftBit poly)^[8] (crc ^^^ byte.setWidth width)

def remainderOf (poly start : BitVec width) (message : List (BitVec 8)) : BitVec width :=
  message.foldl (takeByte poly) start

/-- Eight shifts of the lowest byte and of the rest. -/
theorem shiftBits_eight (crc : BitVec width) :
    (shiftBit poly)^[8] crc =
      (shiftBit poly)^[8] ((crc.setWidth 8).setWidth width) ^^^ (crc >>> 8) := by
  have parts : crc = (crc.setWidth 8).setWidth width ^^^ ((crc >>> 8) <<< 8) := by
    apply BitVec.eq_of_getLsbD_eq
    intro index inside
    by_cases low : index < 8
    · simp [low, inside]
    · have back : 8 + (index - 8) = index := Nat.add_sub_cancel' (Nat.le_of_not_lt low)
      simp [low, inside, back]
  have zeros : ∀ index < 8, ((crc >>> 8) <<< 8).getLsbD index = false := by
    intro index low
    simp [low]
  have shiftedBack : ((crc >>> 8) <<< 8) >>> 8 = crc >>> 8 := by
    apply BitVec.eq_of_getLsbD_eq
    intro index inside
    by_cases high : 8 + index < width
    · simp [high]
    · simp [high, BitVec.getLsbD_of_ge crc (8 + index) (Nat.le_of_not_lt high)]
  calc (shiftBit poly)^[8] crc
      = (shiftBit poly)^[8] ((crc.setWidth 8).setWidth width ^^^ ((crc >>> 8) <<< 8)) := by
        rw [← parts]
    _ = (shiftBit poly)^[8] ((crc.setWidth 8).setWidth width) ^^^ (crc >>> 8) := by
        rw [shiftBits_xor, shiftBits_of_zeros zeros, shiftedBack]

theorem takeByte_injective
    (top : poly.msb = true)
    (byte : BitVec 8) :
    Function.Injective fun crc => takeByte poly crc byte := by
  intro left right same
  exact BitVec.xor_left_inj _ |>.mp ((shiftBit_injective top).iterate 8 same)

theorem remainderOf_injective
    (top : poly.msb = true)
    (message : List (BitVec 8)) :
    Function.Injective fun start => remainderOf poly start message := by
  induction message with
  | nil =>
      exact fun _ _ same => same
  | cons byte message inductionHypothesis =>
      exact inductionHypothesis.comp (takeByte_injective top byte)

/-! ## Windows -/

/-- Bytes as one number, the first byte lowest. -/
def packed (width : Nat) : List (BitVec 8) → BitVec width
  | [] => 0
  | byte :: bytes => byte.setWidth width ^^^ (packed width bytes <<< 8)

theorem getLsbD_packed
    {bytes : List (BitVec 8)} {index : Nat}
    (inside : index < width) :
    (packed width bytes).getLsbD index = (bytes.getD (index / 8) 0).getLsbD (index % 8) := by
  induction bytes generalizing index with
  | nil =>
      simp [packed]
  | cons byte bytes inductionHypothesis =>
      rw [packed, BitVec.getLsbD_xor, BitVec.getLsbD_setWidth, BitVec.getLsbD_shiftLeft]
      by_cases low : index < 8
      · simp [low, inside, Nat.div_eq_of_lt low, Nat.mod_eq_of_lt low]
      · have shorter : (index - 8) / 8 + 1 = index / 8 := by omega
        have same : (index - 8) % 8 = index % 8 := by omega
        rw [inductionHypothesis (Nat.lt_of_le_of_lt (Nat.sub_le index 8) inside), same, ← shorter,
          List.getD_cons_succ]
        simp [low, inside, BitVec.getLsbD_of_ge byte index (Nat.le_of_not_lt low)]

/-- Bytes that fit into the register are taken as one number. -/
theorem remainderOf_packed
    {bytes : List (BitVec 8)}
    (fits : 8 * bytes.length ≤ width)
    (start : BitVec width) :
    remainderOf poly start bytes =
      (shiftBit poly)^[8 * bytes.length] (start ^^^ packed width bytes) := by
  induction bytes generalizing start with
  | nil =>
      simp [remainderOf, packed]
  | cons byte bytes inductionHypothesis =>
      rw [List.length_cons] at fits
      have zeros : ∀ index < 8, (packed width bytes <<< 8).getLsbD index = false := by
        intro index low
        simp [low]
      have shiftedBack : (packed width bytes <<< 8) >>> 8 = packed width bytes := by
        apply BitVec.eq_of_getLsbD_eq
        intro index inside
        rw [BitVec.getLsbD_ushiftRight, BitVec.getLsbD_shiftLeft, Nat.add_sub_cancel_left]
        by_cases high : 8 + index < width
        · simp [high]
        · have outside : bytes.length ≤ index / 8 := by omega
          rw [getLsbD_packed inside, List.getD_eq_default _ _ outside]
          simp [high]
      have ahead : (shiftBit poly)^[8] (packed width bytes <<< 8) = packed width bytes := by
        rw [shiftBits_of_zeros zeros, shiftedBack]
      have first : remainderOf poly start (byte :: bytes) =
          remainderOf poly (takeByte poly start byte) bytes := rfl
      rw [first, inductionHypothesis (by omega), takeByte, List.length_cons, Nat.mul_succ,
        Function.iterate_add_apply, packed, ← BitVec.xor_assoc,
        shiftBits_xor 8 (start ^^^ byte.setWidth width) (packed width bytes <<< 8), ahead]

theorem packed_injective
    {bytes bytes' : List (BitVec 8)}
    (fits : 8 * bytes.length ≤ width)
    (sameLength : bytes.length = bytes'.length)
    (same : packed width bytes = packed width bytes') :
    bytes = bytes' := by
  apply List.ext_getElem sameLength
  intro place inside inside'
  apply BitVec.eq_of_getLsbD_eq
  intro bit isBit
  have isIndex : 8 * place + bit < width := by omega
  have quotient : (8 * place + bit) / 8 = place := by omega
  have remainder : (8 * place + bit) % 8 = bit := by omega
  have atIndex := congrArg (fun number => number.getLsbD (8 * place + bit)) same
  simp only [getLsbD_packed isIndex, quotient, remainder] at atIndex
  rwa [List.getD_eq_getElem _ _ inside, List.getD_eq_getElem _ _ inside'] at atIndex

/-- Messages that differ within the width of the register have different remainders. -/
theorem remainderOf_window
    {front window window' back : List (BitVec 8)} {start : BitVec width}
    (top : poly.msb = true)
    (fits : 8 * window.length ≤ width)
    (sameLength : window.length = window'.length)
    (same : remainderOf poly start (front ++ window ++ back) =
      remainderOf poly start (front ++ window' ++ back)) :
    window = window' := by
  simp only [remainderOf, List.foldl_append] at same
  have sameWindow := remainderOf_injective top back same
  change remainderOf poly _ window = remainderOf poly _ window' at sameWindow
  rw [remainderOf_packed fits, remainderOf_packed (sameLength ▸ fits), ← sameLength] at sameWindow
  have samePacked := (shiftBit_injective top).iterate _ sameWindow
  exact packed_injective fits sameLength (BitVec.xor_right_inj _ |>.mp samePacked)

end CyclicRedundancy

end PicoJvm.Lib
