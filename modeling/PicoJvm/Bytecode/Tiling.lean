import PicoJvm.Lib.Trail
import PicoJvm.Bytecode.Bytecodes
import PicoJvm.Bytecode.CodeBytes

/-!
# Tilings of a code array

What it means for a code array to be a sequence of complete legal instructions,
said without reference to the scan that checks it. Operands are read as the
class file stores them, big-endian.
-/

namespace PicoJvm.Tiling

open PicoJvm.Lib
open PicoJvm.Bytecodes
open PicoJvm.CodeBytes

/-! ## Instructions -/

/-- The two bytecodes with aligned operands. -/
def IsSwitch (opcode : Nat) : Prop :=
  opcode = tableswitch ∨ opcode = lookupswitch

instance (opcode : Nat) : Decidable (IsSwitch opcode) :=
  inferInstanceAs (Decidable (_ ∨ _))

/-- The first operand word of a switch at `bci`. -/
def operands (bci : Nat) : Nat :=
  alignSizeUp (bci + 1)

/-- A big-endian operand word, read as signed. -/
def javaInt (code : Code) (bci : Nat) : Int :=
  toJint (javaWord code bci)

/-- The bytes between a switch and its operands are zero. -/
def ZeroPadding (code : Code) (bci : Nat) : Prop :=
  ∀ place, bci < place → place < operands bci → byteD code place = 0

/-- The bounds of a `tableswitch` are in order; the number of pairs of a
`lookupswitch` is not negative. -/
def CountsInOrder (code : Code) (bci : Nat) : Prop :=
  if byteD code bci = tableswitch then
    javaInt code (operands bci + 4) ≤ javaInt code (operands bci + 8)
  else
    0 ≤ javaInt code (operands bci + 4)

/-- The number of operand words: the default offset, the bounds and one word for
each key of a `tableswitch`; the default offset, the count and two words for
each pair of a `lookupswitch`. -/
def switchWords (code : Code) (bci : Nat) : Nat :=
  if byteD code bci = tableswitch then
    (4 + javaInt code (operands bci + 8) - javaInt code (operands bci + 4)).toNat
  else
    (2 + 2 * javaInt code (operands bci + 4)).toNat

/-- `InstructionAt code bci length`: a complete legal instruction of `length`
bytes starts at `bci`. -/
inductive InstructionAt (code : Code) (bci : Nat) : Nat → Prop
  | plain {length : Nat} :
      byteD code bci < breakpoint →
      lengthFor (byteD code bci) = length →
      0 < length →
      bci + length ≤ code.length →
      InstructionAt code bci length
  | widened {length : Nat} :
      byteD code bci = wide →
      isDefined (byteD code (bci + 1)) = true →
      wideLengthFor (byteD code (bci + 1)) = length →
      0 < length →
      bci + length ≤ code.length →
      InstructionAt code bci length
  | switch :
      IsSwitch (byteD code bci) →
      ZeroPadding code bci →
      CountsInOrder code bci →
      operands bci + 4 * switchWords code bci ≤ code.length →
      InstructionAt code bci (operands bci + 4 * switchWords code bci - bci)

/-- An instruction at `bci` ends where `next` begins. -/
def Follows (code : Code) (bci next : Nat) : Prop :=
  ∃ length, InstructionAt code bci length ∧ next = bci + length

/-- The code splits into complete legal instructions that start at `starts` and
cover it exactly. -/
def Tiles (code : Code) (starts : List Nat) : Prop :=
  Trail (Follows code) 0 starts code.length

/-! ## Rewriting -/

/-- `code'` is `code` with every word of every switch operand reversed once and
no other byte changed. -/
structure RewrittenOnce (code code' : Code) (starts : List Nat) : Prop where
  sameLength : code'.length = code.length
  reversed :
    ∀ start ∈ starts, IsSwitch (byteD code start) →
      ∀ word < switchWords code start, ∀ byte < 4,
        code'[operands start + 4 * word + byte]? =
          code[operands start + 4 * word + (3 - byte)]?
  untouched :
    ∀ place,
      (∀ start ∈ starts, IsSwitch (byteD code start) →
        ¬ (operands start ≤ place ∧ place < operands start + 4 * switchWords code start)) →
      code'[place]? = code[place]?

/-! ## Lengths are unique and positive -/

theorem lt_operands (bci : Nat) : bci < operands bci ∧ operands bci ≤ bci + 4 := by
  have := le_alignSizeUp (bci + 1)
  unfold operands
  omega

theorem two_le_switchWords
    {code : Code} {bci : Nat}
    (counts : CountsInOrder code bci) :
    2 ≤ switchWords code bci := by
  unfold CountsInOrder at counts
  unfold switchWords
  split_ifs at counts ⊢ <;> omega

/-- With its counts in order, the words of a `tableswitch` are counted without
truncation. -/
theorem switchWords_tableswitch
    {code : Code} {bci : Nat}
    (isTable : byteD code bci = tableswitch)
    (counts : CountsInOrder code bci) :
    (switchWords code bci : Int) =
        4 + javaInt code (operands bci + 8) - javaInt code (operands bci + 4) ∧
      4 ≤ switchWords code bci := by
  unfold CountsInOrder at counts
  unfold switchWords
  rw [if_pos isTable] at counts ⊢
  omega

theorem switchWords_lookupswitch
    {code : Code} {bci : Nat}
    (notTable : byteD code bci ≠ tableswitch)
    (counts : CountsInOrder code bci) :
    (switchWords code bci : Int) = 2 + 2 * javaInt code (operands bci + 4) := by
  unfold CountsInOrder at counts
  unfold switchWords
  rw [if_neg notTable] at counts ⊢
  omega

theorem InstructionAt.length_pos
    {code : Code} {bci length : Nat}
    (instruction : InstructionAt code bci length) :
    0 < length ∧ bci + length ≤ code.length := by
  cases instruction with
  | plain _ _ positive complete =>
      exact ⟨positive, complete⟩
  | widened _ _ _ positive complete =>
      exact ⟨positive, complete⟩
  | switch _ _ counts complete =>
      have := two_le_switchWords counts
      have := lt_operands bci
      omega

theorem lengthFor_switch
    {opcode : Nat}
    (isSwitch : IsSwitch opcode) :
    lengthFor opcode = 0 := by
  rcases isSwitch with rfl | rfl <;> decide

theorem lengthFor_wide : lengthFor wide = 0 := by
  decide

theorem not_isSwitch_wide : ¬ IsSwitch wide := by
  decide

theorem InstructionAt.length_unique
    {code : Code} {bci length length' : Nat}
    (left : InstructionAt code bci length)
    (right : InstructionAt code bci length') :
    length = length' := by
  cases left with
  | plain _ ofLength positive _ =>
      cases right with
      | plain _ ofLength' _ _ =>
          omega
      | widened isWide _ _ _ _ =>
          rw [isWide, lengthFor_wide] at ofLength
          omega
      | switch isSwitch _ _ _ =>
          rw [lengthFor_switch isSwitch] at ofLength
          omega
  | widened isWide _ ofLength _ _ =>
      cases right with
      | plain _ ofLength' positive _ =>
          rw [isWide, lengthFor_wide] at ofLength'
          omega
      | widened _ _ ofLength' _ _ =>
          omega
      | switch isSwitch _ _ _ =>
          rw [isWide] at isSwitch
          exact absurd isSwitch not_isSwitch_wide
  | switch isSwitch _ _ _ =>
      cases right with
      | plain _ ofLength positive _ =>
          rw [lengthFor_switch isSwitch] at ofLength
          omega
      | widened isWide _ _ _ _ =>
          rw [isWide] at isSwitch
          exact absurd isSwitch not_isSwitch_wide
      | switch _ _ _ _ =>
          rfl

theorem follows_deterministic (code : Code) : Deterministic (Follows code) := by
  rintro here next next' ⟨length, instruction, rfl⟩ ⟨length', instruction', rfl⟩
  rw [instruction.length_unique instruction']

theorem follows_forward (code : Code) : Forward (Follows code) := by
  rintro here next ⟨length, instruction, rfl⟩
  have := instruction.length_pos
  omega

/-! ## An instruction depends only on the bytes from its start on -/

/-- Two code arrays of one size agree from `bci` on. -/
structure AgreeFrom (bci : Nat) (code code' : Code) : Prop where
  sameLength : code'.length = code.length
  sameBytes : ∀ place, bci ≤ place → code'[place]? = code[place]?

namespace AgreeFrom

variable {bci : Nat} {code code' : Code}

theorem symm (agree : AgreeFrom bci code code') : AgreeFrom bci code' code :=
  ⟨agree.sameLength.symm, fun place later => (agree.sameBytes place later).symm⟩

theorem byteD_eq
    (agree : AgreeFrom bci code code')
    {place : Nat}
    (later : bci ≤ place) :
    byteD code' place = byteD code place := by
  simp only [byteD, List.getD_eq_getElem?_getD, agree.sameBytes place later]

theorem javaInt_eq
    (agree : AgreeFrom bci code code')
    {place : Nat}
    (later : bci ≤ place) :
    javaInt code' place = javaInt code place := by
  simp only [javaInt, javaWord, agree.byteD_eq later,
    agree.byteD_eq (show bci ≤ place + 1 by omega),
    agree.byteD_eq (show bci ≤ place + 2 by omega),
    agree.byteD_eq (show bci ≤ place + 3 by omega)]

theorem switchWords_eq
    (agree : AgreeFrom bci code code')
    {start : Nat}
    (later : bci ≤ start) :
    switchWords code' start = switchWords code start := by
  have := lt_operands start
  simp only [switchWords, agree.byteD_eq later,
    agree.javaInt_eq (show bci ≤ operands start + 4 by omega),
    agree.javaInt_eq (show bci ≤ operands start + 8 by omega)]

theorem zeroPadding
    (agree : AgreeFrom bci code code')
    {start : Nat}
    (later : bci ≤ start)
    (padding : ZeroPadding code start) :
    ZeroPadding code' start := by
  intro place lower upper
  rw [agree.byteD_eq (show bci ≤ place by omega)]
  exact padding place lower upper

theorem countsInOrder
    (agree : AgreeFrom bci code code')
    {start : Nat}
    (later : bci ≤ start)
    (counts : CountsInOrder code start) :
    CountsInOrder code' start := by
  have after := lt_operands start
  simpa only [CountsInOrder, agree.byteD_eq later,
    agree.javaInt_eq (show bci ≤ operands start + 4 by omega),
    agree.javaInt_eq (show bci ≤ operands start + 8 by omega)] using counts

theorem instructionAt
    (agree : AgreeFrom bci code code')
    {start length : Nat}
    (later : bci ≤ start)
    (instruction : InstructionAt code start length) :
    InstructionAt code' start length := by
  have after := lt_operands start
  cases instruction with
  | plain below ofLength positive complete =>
      rw [← agree.byteD_eq later] at below ofLength
      exact .plain below ofLength positive (agree.sameLength ▸ complete)
  | widened isWide defined ofLength positive complete =>
      rw [← agree.byteD_eq later] at isWide
      rw [← agree.byteD_eq (show bci ≤ start + 1 by omega)] at defined ofLength
      exact .widened isWide defined ofLength positive (agree.sameLength ▸ complete)
  | switch isSwitch padding counts complete =>
      rw [← agree.switchWords_eq later] at complete ⊢
      exact .switch (agree.byteD_eq later ▸ isSwitch) (agree.zeroPadding later padding)
        (agree.countsInOrder later counts) (agree.sameLength ▸ complete)

theorem trail
    (agree : AgreeFrom bci code code')
    {last : Nat} {starts : List Nat}
    (tiling : Trail (Follows code) bci starts last) :
    Trail (Follows code') bci starts last := by
  refine tiling.mono_from (follows_forward code) ?_
  rintro here next later ⟨length, instruction, rfl⟩
  exact ⟨length, agree.instructionAt later instruction, rfl⟩

end AgreeFrom

end PicoJvm.Tiling
