import Mathlib.Data.List.GetD

/-!
# The bytecode table

`Bytecodes::data` for a build with floating point, without stack tags and
without a CPU variant. A bytecode is the unsigned byte found in the code
array; the names below are the enumerators the checker and the verifier
compare against.
-/

namespace PicoJvm.Bytecodes

/-! ## Enumerators -/

def iload : Nat := 21
def aload : Nat := 25
def aload_0 : Nat := 42
def istore : Nat := 54
def astore : Nat := 58
def iinc : Nat := 132
def tableswitch : Nat := 170
def lookupswitch : Nat := 171
def getfield : Nat := 180
def invokevirtual : Nat := 182
def invokespecial : Nat := 183
def invokestatic : Nat := 184
def invokeinterface : Nat := 185
def newObject : Nat := 187
def monitorenter : Nat := 194
def monitorexit : Nat := 195
def wide : Nat := 196
def breakpoint : Nat := 202
def initStaticArray : Nat := 241
def numberOfJavaCodes : Nat := 253

/-! ## Lengths -/

/-- One row of the table. The length is −1 for a bytecode that is not defined
and 0 for one of variable length; the wide length is 0 when there is no wide
form. -/
structure BytecodeData where
  length : Int
  wideLength : Nat
  deriving DecidableEq, Repr

/-- `count` neighbouring rows that share both lengths. -/
private def rows (count : Nat) (length : Int) (wideLength : Nat) : List BytecodeData :=
  List.replicate count ⟨length, wideLength⟩

/-- The rows in the order of the enumerators, ending with the row of zeros that
closes the table in the source. -/
def data : List BytecodeData :=
  rows 16 1 0 ++      -- nop .. dconst_1
  rows 1 2 0 ++       -- bipush
  rows 1 3 0 ++       -- sipush
  rows 1 2 0 ++       -- ldc
  rows 2 3 0 ++       -- ldc_w, ldc2_w
  rows 5 2 4 ++       -- iload .. aload
  rows 28 1 0 ++      -- iload_0 .. saload
  rows 5 2 4 ++       -- istore .. astore
  rows 73 1 0 ++      -- istore_0 .. lxor
  rows 1 3 6 ++       -- iinc
  rows 20 1 0 ++      -- i2l .. dcmpg
  rows 15 3 0 ++      -- ifeq .. goto
  rows 1 (-1) 0 ++    -- jsr
  rows 1 (-1) 4 ++    -- ret
  rows 2 0 0 ++       -- tableswitch, lookupswitch
  rows 6 1 0 ++       -- ireturn .. return
  rows 7 3 0 ++       -- getstatic .. invokestatic
  rows 1 5 0 ++       -- invokeinterface
  rows 1 (-1) 0 ++    -- xxxunusedxxx
  rows 1 3 0 ++       -- new
  rows 1 2 0 ++       -- newarray
  rows 1 3 0 ++       -- anewarray
  rows 2 1 0 ++       -- arraylength, athrow
  rows 2 3 0 ++       -- checkcast, instanceof
  rows 2 1 0 ++       -- monitorenter, monitorexit
  rows 1 0 0 ++       -- wide
  rows 1 4 0 ++       -- multianewarray
  rows 2 3 0 ++       -- ifnull, ifnonnull
  rows 1 5 0 ++       -- goto_w
  rows 1 (-1) 0 ++    -- jsr_w
  rows 1 1 0 ++       -- breakpoint
  rows 1 2 0 ++       -- fast_1_ldc
  rows 24 3 0 ++      -- fast_1_ldc_w .. fast_invokestatic
  rows 1 5 0 ++       -- fast_invokeinterface
  rows 1 8 0 ++       -- fast_invokenative
  rows 6 3 0 ++       -- fast_invokevirtual_final .. fast_instanceof
  rows 4 2 0 ++       -- fast_igetfield_1 .. aload_0_fast_igetfield_1
  rows 1 1 0 ++       -- pop_and_npe_if_null
  rows 1 0 0 ++       -- init_static_array
  rows 4 1 0 ++       -- aload_0_fast_agetfield_4 .. aload_0_fast_igetfield_8
  rows 7 3 0 ++       -- fast_init_1_putstatic .. fast_init_new
  rows 1 0 0          -- the closing row

/-- `Bytecodes::length_for(Code)`. A byte with no row counts as not defined. -/
def lengthFor (code : Nat) : Int :=
  (data.getD code ⟨-1, 0⟩).length

/-- `Bytecodes::wide_length_for(Code)`. -/
def wideLengthFor (code : Nat) : Nat :=
  (data.getD code ⟨-1, 0⟩).wideLength

/-- `Bytecodes::is_defined`. -/
def isDefined (code : Nat) : Bool :=
  decide (code < numberOfJavaCodes) && decide (lengthFor code ≠ -1)

example : data.length = numberOfJavaCodes + 1 := by decide +kernel
example : lengthFor breakpoint = 1 ∧ lengthFor initStaticArray = 0 := by decide +kernel

/-! ## What the table says about user bytecodes -/

/-- No entry is shorter than the mark for an undefined bytecode. -/
theorem neg_one_le_lengthFor (code : Nat) : -1 ≤ lengthFor code := by
  have rowsBounded : ∀ row ∈ data, -1 ≤ row.length := by decide +kernel
  unfold lengthFor
  by_cases inside : code < data.length
  · rw [List.getD_eq_getElem _ _ inside]
    exact rowsBounded _ (List.getElem_mem inside)
  · have missing : data.getD code ⟨-1, 0⟩ = ⟨-1, 0⟩ :=
      List.getD_eq_default _ _ (Nat.le_of_not_lt inside)
    exact Int.le_of_eq (congrArg BytecodeData.length missing).symm

theorem lengthFor_cases :
    ∀ code < breakpoint,
      (code < tableswitch → lengthFor code = -1 ∨ (0 < lengthFor code ∧ lengthFor code ≤ 3)) ∧
        (lengthFor code = 0 ↔ code = tableswitch ∨ code = lookupswitch ∨ code = wide) := by
  decide +kernel

/-- Below `tableswitch` every bytecode has a fixed length of at most three
bytes or none at all. -/
theorem lengthFor_of_lt_tableswitch
    {code : Nat}
    (below : code < tableswitch) :
    lengthFor code = -1 ∨ (0 < lengthFor code ∧ lengthFor code ≤ 3) :=
  (lengthFor_cases code (Nat.lt_trans below (by decide))).1 below

/-- Below `breakpoint` only the two switches and `wide` have no fixed length. -/
theorem lengthFor_eq_zero_iff
    {code : Nat}
    (below : code < breakpoint) :
    lengthFor code = 0 ↔ code = tableswitch ∨ code = lookupswitch ∨ code = wide :=
  (lengthFor_cases code below).2

set_option maxRecDepth 2000 in
/-- A wide form takes four or six bytes, and `wide`, the switches and the
bytecodes private to the machine have none. -/
theorem wideLengthFor_cases (code : Nat) :
    wideLengthFor code = 0 ∨
      ((wideLengthFor code = 4 ∨ wideLengthFor code = 6) ∧ code < tableswitch) := by
  by_cases inside : code < 256
  · revert code
    decide
  · have tableLength : data.length = 254 := rfl
    left
    unfold wideLengthFor
    rw [List.getD_eq_default _ _ (by omega)]

end PicoJvm.Bytecodes
