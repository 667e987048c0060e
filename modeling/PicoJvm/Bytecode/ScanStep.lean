import PicoJvm.Bytecode.CheckBytecodes
import PicoJvm.Bytecode.Tiling

/-!
# One round of the scan

What `checkStep` does at a position, in the terms of `InstructionAt`: it passes
over a complete instruction, runs past the end of the code, or rejects it.
-/

namespace PicoJvm.ScanStep

open PicoJvm.Lib.Fallible
open PicoJvm.Bytecodes
open PicoJvm.CodeBytes
open PicoJvm.CheckBytecodes
open PicoJvm.Tiling

/-! ## Switches -/

theorem checkPadding_spec
    (code : Code) (count : Nat) {offset : Nat}
    (inside : offset + count ≤ code.length) :
    checkPadding code count offset =
      if ∀ place, offset ≤ place → place < offset + count → byteD code place = 0 then
        .ok ()
      else
        .error .illegalCode := by
  induction count generalizing offset with
  | zero =>
      rw [if_pos (by intro place lower upper; omega)]
      rfl
  | succ count inductionHypothesis =>
      simp only [checkPadding, byteAt_eq (show offset < code.length by omega), ok_bind]
      by_cases zeroHere : byteD code offset = 0
      · simp only [zeroHere, ne_eq, not_true_eq_false, if_false]
        rw [inductionHypothesis (by omega)]
        congr 1
        apply propext
        constructor
        · intro rest place lower upper
          rcases Nat.eq_or_lt_of_le lower with rfl | later
          · exact zeroHere
          · exact rest place later (by omega)
        · intro all place lower upper
          exact all place (by omega) (by omega)
      · rw [if_pos zeroHere, if_neg]
        intro all
        exact zeroHere (all offset (Nat.le_refl _) (by omega))

/-- The bounds test on a number of words that may have wrapped: it lets through
exactly the switches with a byte to spare after their last operand. -/
theorem wrapped_fields_fit
    {words : Int} {aligned size : Nat}
    (atLeastTwo : 2 ≤ words)
    (notHuge : words < 4294967296)
    (sizeBound : size < 65536)
    (alignedBound : aligned ≤ size) :
    (¬ (wrapInt (aligned + wrapInt words * wordSize) ≥ size ∨
        wrapInt words < 0 ∨ wrapInt words > size) ↔
      aligned + 4 * words < size) ∧
    (aligned + 4 * words < size → wrapInt words = words) := by
  by_cases large : 2147483648 ≤ words
  · have wrapped : wrapInt words = words - 4294967296 :=
      wrapInt_of_large large (by omega)
    rw [wrapped]
    constructor <;> omega
  · have exactly : wrapInt words = words :=
      wrapInt_of_small (by omega) (by omega)
    rw [exactly]
    refine ⟨?_, fun _ => rfl⟩
    by_cases tooMany : words > size
    · constructor <;> omega
    · have lastExact : wrapInt (aligned + words * wordSize) = aligned + 4 * words := by
        unfold wordSize
        rw [wrapInt_of_small (by omega) (by omega)]
        omega
      rw [lastExact]
      omega

/-- What `switchFields` returns, in terms of the words the switch really has. -/
theorem switchFields_spec
    {code : Code} {bci : Nat}
    (isSwitch : IsSwitch (byteD code bci))
    (size : code.length < 65536)
    (header : operands bci + 8 ≤ code.length) :
    (∃ words : Int,
      switchFields code (byteD code bci) (operands bci) = .ok (wrapInt words) ∧
      CountsInOrder code bci ∧ 2 ≤ words ∧ words < 4294967296 ∧
      words = switchWords code bci) ∨
    (switchFields code (byteD code bci) (operands bci) = .error .illegalCode ∧
      ¬ (CountsInOrder code bci ∧
          operands bci + 4 * switchWords code bci < code.length)) := by
  have first : getNativeAlignedInt code (operands bci + wordSize) =
      .ok (nativeWord code (operands bci + 4)) :=
    getNativeAlignedInt_eq (show operands bci + 4 + 3 < code.length by omega)
  unfold switchFields
  rcases isSwitch with isTable | isLookup
  · rw [if_pos isTable]
    simp only [CountsInOrder, switchWords, if_pos isTable, javaInt]
    have lowBounds := toJint_bounds (javaWord code (operands bci + 4))
    have highBounds := toJint_bounds (javaWord code (operands bci + 8))
    generalize lowEq : toJint (javaWord code (operands bci + 4)) = lo at lowBounds ⊢
    generalize highEq : toJint (javaWord code (operands bci + 8)) = hi at highBounds ⊢
    by_cases threeWords : operands bci + 3 * wordSize > code.length
    · right
      rw [if_pos threeWords]
      refine ⟨rfl, ?_⟩
      unfold wordSize at threeWords
      omega
    · have second : getNativeAlignedInt code (operands bci + 2 * wordSize) =
          .ok (nativeWord code (operands bci + 8)) := by
        have thirdWord : operands bci + 2 * wordSize = operands bci + 8 := by
          unfold wordSize
          omega
        rw [thirdWord]
        apply getNativeAlignedInt_eq
        unfold wordSize at threeWords
        omega
      rw [if_neg threeWords, first, second, ok_bind, ok_bind, swapU4_nativeWord,
        swapU4_nativeWord, lowEq, highEq]
      by_cases reversedBounds : lo > hi
      · right
        rw [if_pos (Or.inl reversedBounds)]
        exact ⟨rfl, fun fits => absurd fits.1 (by omega)⟩
      · by_cases tooFar : 2147483648 ≤ hi - lo
        · right
          have wrapped : wrapInt (hi - lo) = hi - lo - 4294967296 :=
            wrapInt_of_large tooFar (by omega)
          rw [wrapped, if_pos (Or.inr (by omega))]
          exact ⟨rfl, fun fits => absurd fits.2 (by omega)⟩
        · left
          have exactly : wrapInt (hi - lo) = hi - lo :=
            wrapInt_of_small (by omega) (by omega)
          rw [exactly, if_neg (by omega)]
          exact ⟨3 + hi - lo + 1, rfl, by omega, by omega, by omega, by omega⟩
  · have notTable : byteD code bci ≠ tableswitch := by
      rw [isLookup]
      decide
    rw [if_neg notTable, first, ok_bind, swapU4_nativeWord]
    simp only [CountsInOrder, switchWords, if_neg notTable, javaInt]
    have bounds := toJint_bounds (javaWord code (operands bci + 4))
    generalize toJint (javaWord code (operands bci + 4)) = npairs at bounds ⊢
    by_cases negative : npairs < 0
    · right
      rw [if_pos (Or.inl negative)]
      exact ⟨rfl, fun fits => absurd fits.1 (by omega)⟩
    · by_cases tooMany : 2147483648 ≤ 2 * npairs
      · right
        have wrapped : wrapInt (2 * npairs) = 2 * npairs - 4294967296 :=
          wrapInt_of_large tooMany (by omega)
        rw [wrapped, if_pos (Or.inr (by omega))]
        exact ⟨rfl, fun fits => absurd fits.2 (by omega)⟩
      · left
        have exactly : wrapInt (2 * npairs) = 2 * npairs :=
          wrapInt_of_small (by omega) (by omega)
        rw [exactly, if_neg (by omega)]
        exact ⟨2 + 2 * npairs, rfl, by omega, by omega, by omega, by omega⟩

/-- A switch the scan lets through: well formed, with a byte to spare after its
last operand. -/
def SwitchPasses (code : Code) (bci : Nat) : Prop :=
  ZeroPadding code bci ∧ CountsInOrder code bci ∧
    operands bci + 4 * switchWords code bci < code.length

theorem checkSwitch_ok
    {code : Code} {bci : Nat}
    (isSwitch : IsSwitch (byteD code bci))
    (size : code.length < 65536)
    (passes : SwitchPasses code bci) :
    ∃ code', checkSwitch code (byteD code bci) bci = .ok code' ∧
      code'.length = code.length ∧
      ∀ place, code'[place]? =
        code[mirror (operands bci) (switchWords code bci) place]? := by
  obtain ⟨padding, counts, inside⟩ := passes
  have enoughWords := two_le_switchWords counts
  have after := lt_operands bci
  have header : operands bci + 8 ≤ code.length := by omega
  have padded : checkPadding code (operands bci - (bci + 1)) (bci + 1) = .ok () := by
    rw [checkPadding_spec code _ (by omega), if_pos]
    intro place lower upper
    exact padding place lower (by omega)
  rcases switchFields_spec isSwitch size header with
    ⟨words, run, _, atLeastTwo, notHuge, wordsEq⟩ | ⟨_, refused⟩
  · obtain ⟨code', swapped, sameLength, bytes⟩ :=
      swapWords_spec (switchWords code bci)
        (show operands bci + 4 * switchWords code bci ≤ code.length by omega)
    refine ⟨code', ?_, sameLength, bytes⟩
    obtain ⟨fits, exactly⟩ :=
      wrapped_fields_fit atLeastTwo notHuge size (show operands bci ≤ code.length by omega)
    have accepted := fits.mpr (by omega)
    have fieldsEq := exactly (by omega)
    unfold checkSwitch
    simp only [operands] at *
    rw [if_neg (by unfold wordSize; omega), padded]
    simp only [ok_bind]
    rw [run]
    simp only [ok_bind]
    rw [if_neg accepted, fieldsEq, wordsEq, Int.toNat_natCast]
    exact swapped
  · exact absurd ⟨counts, inside⟩ refused

theorem checkSwitch_error
    {code : Code} {bci : Nat}
    (isSwitch : IsSwitch (byteD code bci))
    (size : code.length < 65536)
    (fails : ¬ SwitchPasses code bci) :
    checkSwitch code (byteD code bci) bci = .error .illegalCode := by
  have after := lt_operands bci
  unfold checkSwitch
  by_cases header : operands bci + 8 ≤ code.length
  · have headerTest : ¬ (alignSizeUp (bci + 1) + 2 * wordSize > code.length) := by
      unfold operands at header
      unfold wordSize
      omega
    rw [if_neg headerTest]
    change (checkPadding code (operands bci - (bci + 1)) (bci + 1) >>= fun _ => _) = _
    rw [checkPadding_spec code _ (by omega)]
    by_cases padding : ZeroPadding code bci
    · rw [if_pos (by intro place lower upper; exact padding place lower (by omega))]
      simp only [ok_bind]
      rcases switchFields_spec isSwitch size header with
        ⟨words, run, counts, atLeastTwo, notHuge, wordsEq⟩ | ⟨run, _⟩
      · change (switchFields code (byteD code bci) (operands bci) >>= fun _ => _) = _
        rw [run]
        simp only [ok_bind]
        rw [if_pos]
        by_contra accepted
        have fits :=
          (wrapped_fields_fit atLeastTwo notHuge size
            (show operands bci ≤ code.length by omega)).1.mp accepted
        exact fails ⟨padding, counts, by omega⟩
      · change (switchFields code (byteD code bci) (operands bci) >>= fun _ => _) = _
        rw [run]
        rfl
    · rw [if_neg]
      · rfl
      · intro zeros
        apply padding
        intro place lower upper
        exact zeros place lower (by omega)
  · rw [if_pos]
    unfold operands at header
    unfold wordSize
    omega

/-- Reversing the words of one switch is the rewriting that its start calls for. -/
theorem rewrittenOnce_of_mirror
    {code code' : Code} {bci : Nat}
    (isSwitch : IsSwitch (byteD code bci))
    (sameLength : code'.length = code.length)
    (bytes : ∀ place, code'[place]? =
      code[mirror (operands bci) (switchWords code bci) place]?) :
    RewrittenOnce code code' [bci] := by
  refine ⟨sameLength, ?_, ?_⟩
  · intro start member _ word inRange byte small
    cases List.mem_singleton.mp member
    rw [bytes]
    congr 1
    unfold mirror
    rw [if_pos (by omega)]
    omega
  · intro place outside
    rw [bytes]
    congr 1
    unfold mirror
    rw [if_neg (outside bci (List.mem_singleton.mpr rfl) isSwitch)]

theorem rewrittenOnce_self
    {code : Code} {bci : Nat}
    (notSwitch : ¬ IsSwitch (byteD code bci)) :
    RewrittenOnce code code [bci] := by
  refine ⟨rfl, ?_, fun _ _ => rfl⟩
  intro start member isSwitch
  cases List.mem_singleton.mp member
  exact absurd isSwitch notSwitch

/-! ## Lengths of rewritten instructions -/

/-- The bytes that decide the length of the instruction at `bci` survive the
rewriting: its bytecode, the byte after `wide`, and the operand words of a
switch, now in native order. -/
structure LengthKept (code code' : Code) (bci : Nat) : Prop where
  sameLength : code'.length = code.length
  opcode : byteD code' bci = byteD code bci
  widened : byteD code bci = wide → byteD code' (bci + 1) = byteD code (bci + 1)
  words :
    IsSwitch (byteD code bci) → ∀ word < switchWords code bci,
      nativeWord code' (operands bci + 4 * word) = javaWord code (operands bci + 4 * word)

/-- The length computed for a switch does not overflow when the switch fits. -/
theorem wrapInt_switchLength
    {bci words size : Nat} {fields : Int}
    (sizeBound : size < 65536)
    (fieldsEq : fields = words)
    (complete : operands bci + 4 * words ≤ size) :
    wrapInt ((alignSizeUp (bci + 1) : Nat) + fields * (wordSize : Nat) - bci) =
      (operands bci + 4 * words - bci : Nat) := by
  have after := lt_operands bci
  have exactly :
      ((alignSizeUp (bci + 1) : Nat) : Int) + fields * (wordSize : Nat) - bci =
        (operands bci + 4 * words - bci : Nat) := by
    unfold wordSize
    unfold operands at after ⊢
    omega
  rw [exactly, wrapInt_of_small (by omega) (by omega)]

/-- On rewritten code the operand-dependent length of a switch is the length of
the instruction. -/
theorem wideLengthForAt_switch
    {code code' : Code} {bci : Nat}
    (isSwitch : IsSwitch (byteD code bci))
    (size : code.length < 65536)
    (counts : CountsInOrder code bci)
    (complete : operands bci + 4 * switchWords code bci ≤ code.length)
    (kept : LengthKept code code' bci) :
    wideLengthForAt code' bci (byteD code bci) =
      .ok ((operands bci + 4 * switchWords code bci - bci : Nat) : Int) := by
  have operandWord : ∀ word, word < switchWords code bci →
      getNativeAlignedInt code' (operands bci + 4 * word) =
        .ok (javaWord code (operands bci + 4 * word)) := by
    intro word inRange
    rw [← kept.words isSwitch word inRange]
    apply getNativeAlignedInt_eq
    rw [kept.sameLength]
    omega
  have first := operandWord 1 (two_le_switchWords counts)
  unfold wideLengthForAt
  rcases isSwitch with isTable | isLookup
  · obtain ⟨wordsEq, atLeastFour⟩ := switchWords_tableswitch isTable counts
    have second := operandWord 2 (by omega)
    rw [if_pos isTable]
    change (getNativeAlignedInt code' (operands bci + 4 * 1) >>= fun _ =>
      getNativeAlignedInt code' (operands bci + 4 * 2) >>= fun _ => _) = _
    rw [first, ok_bind, second, ok_bind, pure_eq_ok]
    refine congrArg Except.ok (wrapInt_switchLength size ?_ complete)
    rw [wordsEq]
    unfold javaInt
    ring
  · have notTable : byteD code bci ≠ tableswitch := by
      rw [isLookup]
      decide
    rw [if_neg notTable, if_pos isLookup]
    change (getNativeAlignedInt code' (operands bci + 4 * 1) >>= fun _ => _) = _
    rw [first, ok_bind, pure_eq_ok]
    refine congrArg Except.ok (wrapInt_switchLength size ?_ complete)
    rw [switchWords_lookupswitch notTable counts]
    rfl

theorem byteD_of_getElem?_eq
    {code code' : Code} {place : Nat}
    (sameByte : code'[place]? = code[place]?) :
    byteD code' place = byteD code place := by
  simp only [byteD, List.getD_eq_getElem?_getD, sameByte]

/-- A rewriting keeps the length of each instruction whose bytecode, and whose
widened bytecode, lie outside all switch operands. -/
theorem lengthKept_of_rewrittenOnce
    {code code' : Code} {starts : List Nat} {bci : Nat}
    (rewritten : RewrittenOnce code code' starts)
    (member : bci ∈ starts)
    (outside : ∀ start ∈ starts, IsSwitch (byteD code start) →
      ∀ place, place = bci ∨ (place = bci + 1 ∧ byteD code bci = wide) →
        ¬ (operands start ≤ place ∧
          place < operands start + 4 * switchWords code start)) :
    LengthKept code code' bci := by
  refine ⟨rewritten.sameLength, ?_, ?_, ?_⟩
  · apply byteD_of_getElem?_eq
    exact rewritten.untouched bci fun start startMember isSwitch =>
      outside start startMember isSwitch bci (Or.inl rfl)
  · intro isWide
    apply byteD_of_getElem?_eq
    exact rewritten.untouched (bci + 1) fun start startMember isSwitch =>
      outside start startMember isSwitch (bci + 1) (Or.inr ⟨rfl, isWide⟩)
  · intro isSwitch word inRange
    exact nativeWord_of_reversed fun byte small =>
      rewritten.reversed bci member isSwitch word inRange byte small

theorem lengthKept_singleton
    {code code' : Code} {bci : Nat}
    (rewritten : RewrittenOnce code code' [bci]) :
    LengthKept code code' bci := by
  refine lengthKept_of_rewrittenOnce rewritten (List.mem_singleton.mpr rfl) ?_
  intro start member isSwitch place which
  cases List.mem_singleton.mp member
  have after := lt_operands bci
  rcases which with rfl | ⟨_, isWide⟩
  · omega
  · rw [isWide] at isSwitch
    exact absurd isSwitch not_isSwitch_wide

/-! ## The outcome of one round -/

/-- A bytecode of the fast path that starts inside the code and runs past its
end. -/
def FastTruncated (code : Code) (bci : Nat) : Prop :=
  bci < code.length ∧ byteD code bci < tableswitch ∧
    ∃ length : Nat, lengthFor (byteD code bci) = length ∧ 0 < length ∧
      code.length < bci + length

/-- A well-formed switch whose last operand is the last word of the code. -/
def ExactSwitch (code : Code) (bci : Nat) : Prop :=
  IsSwitch (byteD code bci) ∧ ZeroPadding code bci ∧ CountsInOrder code bci ∧
    operands bci + 4 * switchWords code bci = code.length

/-- Everything one round of the scan can do from a position inside the code. -/
inductive StepOutcome (scan : Scan) : Except Fault Scan → Prop
  | passed {scan' : Scan} {length : Nat} :
      InstructionAt scan.code scan.bcptr length →
      ¬ ExactSwitch scan.code scan.bcptr →
      scan'.bcptr = scan.bcptr + length →
      (scan'.bci = scan.bci ∨ scan'.bci = scan'.bcptr) →
      RewrittenOnce scan.code scan'.code [scan.bcptr] →
      StepOutcome scan (.ok scan')
  | overranFast {scan' : Scan} :
      FastTruncated scan.code scan.bcptr →
      scan'.code = scan.code →
      scan'.bci = scan.bci →
      scan.code.length < scan'.bcptr →
      StepOutcome scan (.ok scan')
  | overranSlow {scan' : Scan} :
      ¬ FastTruncated scan.code scan.bcptr →
      (∀ length, ¬ InstructionAt scan.code scan.bcptr length) →
      scan'.code = scan.code →
      scan'.bci = scan'.bcptr →
      scan.code.length < scan'.bcptr →
      StepOutcome scan (.ok scan')
  | rejected {fault : Fault} :
      fault = .illegalCode ∨ fault = .illegalWideCode →
      ¬ FastTruncated scan.code scan.bcptr →
      (∀ length, InstructionAt scan.code scan.bcptr length →
        ExactSwitch scan.code scan.bcptr) →
      StepOutcome scan (.error fault)

/-- The fast path. -/
theorem checkStep_fast
    {scan : Scan}
    (inside : scan.bcptr < scan.code.length)
    (fast : byteD scan.code scan.bcptr < tableswitch) :
    StepOutcome scan (checkStep scan) := by
  unfold checkStep
  rw [byteAt_eq inside, ok_bind, if_pos fast]
  have belowBreakpoint : byteD scan.code scan.bcptr < breakpoint := by
    unfold tableswitch at fast
    unfold breakpoint
    omega
  have notWide : byteD scan.code scan.bcptr ≠ wide := by
    unfold tableswitch at fast
    unfold wide
    omega
  have notSwitch : ¬ IsSwitch (byteD scan.code scan.bcptr) := by
    unfold IsSwitch lookupswitch
    unfold tableswitch at fast ⊢
    omega
  rcases lengthFor_of_lt_tableswitch fast with undefined | ⟨positive, _⟩
  · rw [if_pos (by omega)]
    refine .rejected (Or.inl rfl) ?_ ?_
    · rintro ⟨_, _, length, ofLength, _, _⟩
      omega
    · intro length instruction
      cases instruction with
      | plain _ ofLength _ _ =>
          omega
      | widened isWide _ _ _ _ =>
          exact absurd isWide notWide
      | switch isSwitch _ _ _ =>
          exact absurd isSwitch notSwitch
  · obtain ⟨length, ofLength⟩ := Int.eq_ofNat_of_zero_le (Int.le_of_lt positive)
    rw [if_neg (by omega), ofLength, Int.toNat_natCast]
    by_cases complete : scan.bcptr + length ≤ scan.code.length
    · refine .passed (.plain belowBreakpoint ofLength (by omega) complete) ?_ rfl
        (Or.inl rfl) (rewrittenOnce_self notSwitch)
      rintro ⟨isSwitch, _⟩
      exact notSwitch isSwitch
    · exact .overranFast ⟨inside, fast, length, ofLength, by omega, by omega⟩ rfl rfl
        (Nat.lt_of_not_le complete)

/-- Nothing on the slow path is a truncated instruction of the fast path. -/
theorem not_fastTruncated_of_slow
    {code : Code} {bci : Nat}
    (slow : ¬ byteD code bci < tableswitch) :
    ¬ FastTruncated code bci := by
  rintro ⟨_, fast, _⟩
  exact slow fast

/-- The case of `wide`. -/
theorem checkWide_outcome
    {scan : Scan}
    (isWide : byteD scan.code scan.bcptr = wide) :
    StepOutcome scan (checkWide scan scan.bcptr) := by
  have slow : ¬ byteD scan.code scan.bcptr < tableswitch := by
    rw [isWide]
    decide
  have onlyWidened : ∀ {length : Nat}, InstructionAt scan.code scan.bcptr length →
      isDefined (byteD scan.code (scan.bcptr + 1)) = true ∧
        wideLengthFor (byteD scan.code (scan.bcptr + 1)) = length ∧
        0 < length ∧ scan.bcptr + length ≤ scan.code.length := by
    intro length instruction
    cases instruction with
    | plain _ ofLength positive _ =>
        rw [isWide, lengthFor_wide] at ofLength
        omega
    | widened _ defined ofLength positive complete =>
        exact ⟨defined, ofLength, positive, complete⟩
    | switch isSwitch _ _ _ =>
        rw [isWide] at isSwitch
        exact absurd isSwitch not_isSwitch_wide
  have notExact : ¬ ExactSwitch scan.code scan.bcptr := by
    rintro ⟨isSwitch, _⟩
    rw [isWide] at isSwitch
    exact not_isSwitch_wide isSwitch
  have refuse : ∀ {fault : Fault},
      fault = .illegalCode ∨ fault = .illegalWideCode →
      (∀ length, ¬ InstructionAt scan.code scan.bcptr length) →
      StepOutcome scan (.error fault) := by
    intro fault which none
    exact .rejected which (not_fastTruncated_of_slow slow)
      fun length instruction => absurd instruction (none length)
  unfold checkWide
  by_cases last : scan.bcptr + 1 ≥ scan.code.length
  · rw [if_pos last]
    refine refuse (Or.inl rfl) fun length instruction => ?_
    obtain ⟨_, ofLength, positive, complete⟩ := onlyWidened instruction
    rcases wideLengthFor_cases (byteD scan.code (scan.bcptr + 1)) with zero | ⟨four, _⟩ <;>
      omega
  · rw [if_neg last, byteAt_eq (Nat.lt_of_not_le last), ok_bind]
    by_cases defined : isDefined (byteD scan.code (scan.bcptr + 1)) = true
    · rw [if_neg (by simp [defined])]
      by_cases noWideForm : wideLengthFor (byteD scan.code (scan.bcptr + 1)) = 0
      · rw [if_pos noWideForm]
        refine refuse (Or.inr rfl) fun length instruction => ?_
        obtain ⟨_, ofLength, positive, _⟩ := onlyWidened instruction
        omega
      · rw [if_neg noWideForm]
        by_cases complete :
            scan.bcptr + wideLengthFor (byteD scan.code (scan.bcptr + 1)) ≤ scan.code.length
        · exact .passed
            (.widened isWide defined rfl (Nat.pos_of_ne_zero noWideForm) complete)
            notExact rfl (Or.inr rfl)
            (rewrittenOnce_self (by rw [isWide]; exact not_isSwitch_wide))
        · refine .overranSlow (not_fastTruncated_of_slow slow) (fun length instruction => ?_)
            rfl rfl (Nat.lt_of_not_le complete)
          obtain ⟨_, rfl, _, fits⟩ := onlyWidened instruction
          exact complete fits
    · rw [if_pos (by simpa using defined)]
      refine refuse (Or.inl rfl) fun length instruction => ?_
      exact defined (onlyWidened instruction).1

theorem checkOperands_of_switch
    {code : Code} {opcode bci : Nat}
    (isSwitch : IsSwitch opcode) :
    checkOperands code opcode bci = checkSwitch code opcode bci :=
  if_pos isSwitch

theorem checkOperands_of_not_switch
    {code : Code} {opcode bci : Nat}
    (notSwitch : ¬ IsSwitch opcode) :
    checkOperands code opcode bci = .ok code :=
  if_neg notSwitch

/-- A fixed-length bytecode of the slow path. -/
theorem checkOther_fixed
    {scan : Scan} {length : Nat}
    (inside : scan.bcptr < scan.code.length)
    (slow : ¬ byteD scan.code scan.bcptr < tableswitch)
    (user : byteD scan.code scan.bcptr < breakpoint)
    (ofLength : lengthFor (byteD scan.code scan.bcptr) = length)
    (positive : 0 < length) :
    StepOutcome scan (checkOther scan (byteD scan.code scan.bcptr) scan.bcptr) := by
  have notSwitch : ¬ IsSwitch (byteD scan.code scan.bcptr) := by
    intro isSwitch
    rw [lengthFor_switch isSwitch] at ofLength
    omega
  have notWide : byteD scan.code scan.bcptr ≠ wide := by
    intro isWide
    rw [isWide, lengthFor_wide] at ofLength
    omega
  have lengthHere : lengthForAt scan.code scan.bcptr = .ok (length : Int) := by
    unfold lengthForAt
    rw [byteAt_eq inside, ok_bind, if_pos (by omega), ofLength]
  unfold checkOther
  rw [checkOperands_of_not_switch notSwitch, ok_bind, lengthHere, ok_bind, if_neg (by omega), Int.toNat_natCast]
  by_cases complete : scan.bcptr + length ≤ scan.code.length
  · refine .passed (.plain user ofLength positive complete) ?_ rfl (Or.inr rfl)
      (rewrittenOnce_self notSwitch)
    rintro ⟨isSwitch, _⟩
    exact notSwitch isSwitch
  · refine .overranSlow (not_fastTruncated_of_slow slow) (fun length' instruction => ?_)
      rfl rfl (Nat.lt_of_not_le complete)
    cases instruction with
    | plain _ ofLength' _ fits =>
        omega
    | widened isWide _ _ _ _ =>
        exact notWide isWide
    | switch isSwitch _ _ _ =>
        exact notSwitch isSwitch

/-- The two switches. -/
theorem checkOther_switch
    {scan : Scan}
    (inside : scan.bcptr < scan.code.length)
    (size : scan.code.length < 65536)
    (isSwitch : IsSwitch (byteD scan.code scan.bcptr)) :
    StepOutcome scan (checkOther scan (byteD scan.code scan.bcptr) scan.bcptr) := by
  have slow : ¬ byteD scan.code scan.bcptr < tableswitch := by
    rcases isSwitch with isTable | isLookup
    · rw [isTable]
      decide
    · rw [isLookup]
      decide
  have onlySwitch : ∀ {length : Nat}, InstructionAt scan.code scan.bcptr length →
      ZeroPadding scan.code scan.bcptr ∧ CountsInOrder scan.code scan.bcptr ∧
        operands scan.bcptr + 4 * switchWords scan.code scan.bcptr ≤ scan.code.length := by
    intro length instruction
    cases instruction with
    | plain _ ofLength positive _ =>
        rw [lengthFor_switch isSwitch] at ofLength
        omega
    | widened isWide _ _ _ _ =>
        rw [isWide] at isSwitch
        exact absurd isSwitch not_isSwitch_wide
    | switch _ padding counts complete =>
        exact ⟨padding, counts, complete⟩
  unfold checkOther
  rw [checkOperands_of_switch isSwitch]
  by_cases passes : SwitchPasses scan.code scan.bcptr
  · obtain ⟨code', run, sameLength, bytes⟩ := checkSwitch_ok isSwitch size passes
    obtain ⟨padding, counts, fits⟩ := passes
    have rewritten := rewrittenOnce_of_mirror isSwitch sameLength bytes
    have kept := lengthKept_singleton rewritten
    have lengthHere :
        lengthForAt code' scan.bcptr =
          .ok ((operands scan.bcptr + 4 * switchWords scan.code scan.bcptr -
            scan.bcptr : Nat) : Int) := by
      unfold lengthForAt
      rw [byteAt_eq (by omega), ok_bind, kept.opcode, lengthFor_switch isSwitch,
        if_neg (by omega)]
      exact wideLengthForAt_switch isSwitch size counts (Nat.le_of_lt fits) kept
    rw [run, ok_bind, lengthHere, ok_bind, if_neg (by omega), Int.toNat_natCast]
    refine .passed (.switch isSwitch padding counts (Nat.le_of_lt fits)) ?_ rfl
      (Or.inr rfl) rewritten
    rintro ⟨_, _, _, exactFit⟩
    omega
  · rw [checkSwitch_error isSwitch size passes, error_bind]
    refine .rejected (Or.inl rfl) (not_fastTruncated_of_slow slow) fun length instruction => ?_
    obtain ⟨padding, counts, complete⟩ := onlySwitch instruction
    refine ⟨isSwitch, padding, counts, ?_⟩
    by_contra notExact
    exact passes ⟨padding, counts, by omega⟩

/-- One round of the scan. -/
theorem checkStep_outcome
    {scan : Scan}
    (inside : scan.bcptr < scan.code.length)
    (size : scan.code.length < 65536) :
    StepOutcome scan (checkStep scan) := by
  by_cases fast : byteD scan.code scan.bcptr < tableswitch
  · exact checkStep_fast inside fast
  · unfold checkStep
    rw [byteAt_eq inside, ok_bind, if_neg fast]
    by_cases refused : byteD scan.code scan.bcptr ≥ breakpoint ∨
        isDefined (byteD scan.code scan.bcptr) = false
    · rw [if_pos refused]
      refine .rejected (Or.inl rfl) (not_fastTruncated_of_slow fast) fun length instruction => ?_
      exfalso
      unfold isDefined numberOfJavaCodes breakpoint at refused
      cases instruction with
      | plain user ofLength positive _ =>
          unfold breakpoint at user
          rcases refused with private_ | undefined
          · omega
          · simp only [Bool.and_eq_false_iff, decide_eq_false_iff_not] at undefined
            omega
      | widened isWide _ _ _ _ =>
          rw [isWide] at refused
          revert refused
          decide
      | switch isSwitch _ _ _ =>
          rcases isSwitch with isTable | isLookup
          · rw [isTable] at refused
            revert refused
            decide
          · rw [isLookup] at refused
            revert refused
            decide
    · rw [if_neg refused]
      obtain ⟨user, defined⟩ := not_or.mp refused
      have belowBreakpoint : byteD scan.code scan.bcptr < breakpoint := Nat.lt_of_not_le user
      by_cases isWide : byteD scan.code scan.bcptr = wide
      · rw [if_pos isWide]
        exact checkWide_outcome isWide
      · rw [if_neg isWide]
        by_cases isSwitch : IsSwitch (byteD scan.code scan.bcptr)
        · exact checkOther_switch inside size isSwitch
        · have nonzero : lengthFor (byteD scan.code scan.bcptr) ≠ 0 := by
            intro zero
            rcases (lengthFor_eq_zero_iff belowBreakpoint).mp zero with isTable | isLookup | isWide'
            · exact isSwitch (Or.inl isTable)
            · exact isSwitch (Or.inr isLookup)
            · exact isWide isWide'
          have notUndefined : lengthFor (byteD scan.code scan.bcptr) ≠ -1 := by
            intro undefined
            simp [isDefined, undefined] at defined
          have bound := neg_one_le_lengthFor (byteD scan.code scan.bcptr)
          obtain ⟨length, ofLength⟩ :=
            Int.eq_ofNat_of_zero_le
              (show 0 ≤ lengthFor (byteD scan.code scan.bcptr) by omega)
          exact checkOther_fixed inside fast belowBreakpoint ofLength (by omega)

end PicoJvm.ScanStep
