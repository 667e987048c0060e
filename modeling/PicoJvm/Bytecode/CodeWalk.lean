import PicoJvm.Bytecode.CheckedCode

/-!
# Walks through loaded code

Once its class is loaded, the code of a method is scanned by adding up the lengths of its
instructions. The scan starts at 0, and it is over when it is past the code.
-/

namespace PicoJvm.CodeWalk

open PicoJvm.Lib
open PicoJvm.Lib.Fallible
open PicoJvm.Bytecodes
open PicoJvm.CodeBytes
open PicoJvm.CheckBytecodes
open PicoJvm.Tiling
open PicoJvm.ScanStep
open PicoJvm.ScanRun
open PicoJvm.CheckedCode

/-- `Method::next_bci(bci)`. -/
def nextBci (code : Code) (bci : Nat) : Except Fault Nat := do
  let length ← lengthForAt code bci
  return (bci + length).toNat

/-- One step of a scan. The bytes of the instruction alone decide where the next one is, and
only an instruction of the fast path of the check can be cut off by the end of the code. -/
structure Next (code : Code) (here next : Nat) : Prop where
  inside : here < code.length
  forward : here < next
  complete : tableswitch ≤ byteD code here → next ≤ code.length
  own :
    ∀ code' : Code, code'.length = code.length →
      (∀ place, here ≤ place → place < next → code'[place]? = code[place]?) →
      nextBci code' here = .ok next

/-- A scan of the whole code finds instructions at `starts`. -/
def Walks (code : Code) (starts : List Nat) : Prop :=
  ∃ last, Trail (Next code) 0 starts last ∧ code.length ≤ last

section Steps

variable {code : Code}

theorem Next.nextBci_eq
    {here next : Nat}
    (step : Next code here next) :
    nextBci code here = .ok next :=
  step.own code rfl fun _ _ _ => rfl

theorem next_forward (code : Code) : Forward (Next code) := by
  intro here next step
  exact step.forward

/-- A step stays one where its own bytes do. -/
theorem Next.congr
    {code' : Code} {here next : Nat}
    (step : Next code here next)
    (sameLength : code'.length = code.length)
    (sameBytes : ∀ place, here ≤ place → place < next → code'[place]? = code[place]?) :
    Next code' here next := by
  have sameOpcode : byteD code' here = byteD code here :=
    byteD_of_getElem?_eq (sameBytes here (Nat.le_refl here) step.forward)
  refine ⟨sameLength ▸ step.inside, step.forward, ?_, ?_⟩
  · intro slow
    rw [sameOpcode] at slow
    rw [sameLength]
    exact step.complete slow
  · intro code'' sameLength' sameBytes'
    apply step.own code'' (sameLength'.trans sameLength)
    intro place lower upper
    rw [sameBytes' place lower upper, sameBytes place lower upper]

theorem length_starts_le
    {bci last : Nat} {starts : List Nat}
    (trail : Trail (Next code) bci starts last) :
    starts.length ≤ code.length - bci := by
  induction trail with
  | nil _ =>
      exact Nat.zero_le _
  | cons step _ inductionHypothesis =>
      have inside := step.inside
      have forward := step.forward
      rw [List.length_cons]
      omega

/-- The instructions a scan finds from `bci` on. -/
def startsFrom (code : Code) : (fuel bci : Nat) → List Nat
  | 0, _ => []
  | fuel + 1, bci =>
      if bci < code.length then
        match nextBci code bci with
        | .ok next => bci :: startsFrom code fuel next
        | .error _ => [bci]
      else
        []

/-- The instructions a scan of the whole code finds. -/
def startsOf (code : Code) : List Nat :=
  startsFrom code (code.length + 1) 0

theorem startsFrom_eq
    {bci last : Nat} {starts : List Nat}
    (trail : Trail (Next code) bci starts last)
    (past : code.length ≤ last)
    (fuel : Nat)
    (enough : code.length < bci + fuel) :
    startsFrom code fuel bci = starts := by
  induction trail generalizing fuel with
  | nil here =>
      cases fuel with
      | zero =>
          rfl
      | succ fuel =>
          rw [startsFrom, if_neg (Nat.not_lt.mpr past)]
  | cons step _ inductionHypothesis =>
      have inside := step.inside
      have forward := step.forward
      cases fuel with
      | zero =>
          omega
      | succ fuel =>
          simp only [startsFrom, if_pos inside, step.nextBci_eq]
          rw [inductionHypothesis past fuel (by omega)]

theorem Walks.startsOf_eq
    {starts : List Nat}
    (walks : Walks code starts) :
    startsOf code = starts := by
  obtain ⟨last, trail, past⟩ := walks
  exact startsFrom_eq trail past _ (by omega)

/-- An instruction whose length is in the table. -/
theorem nextBci_fixed
    {here length : Nat}
    (inside : here < code.length)
    (ofLength : lengthFor (byteD code here) = length)
    (positive : 0 < length) :
    nextBci code here = .ok (here + length) := by
  have notZero : lengthFor (byteD code here) ≠ 0 := by
    omega
  rw [nextBci, lengthForAt, byteAt_eq inside, ok_bind, if_pos notZero, ok_bind, ofLength]
  rfl

theorem Next.fixed
    {here length : Nat}
    (inside : here < code.length)
    (ofLength : lengthFor (byteD code here) = length)
    (positive : 0 < length)
    (complete : tableswitch ≤ byteD code here → here + length ≤ code.length) :
    Next code here (here + length) := by
  refine ⟨inside, Nat.lt_add_of_pos_right positive, complete, ?_⟩
  intro code' sameLength sameBytes
  have sameOpcode : byteD code' here = byteD code here :=
    byteD_of_getElem?_eq (sameBytes here (Nat.le_refl here) (by omega))
  exact nextBci_fixed (sameLength ▸ inside) (sameOpcode ▸ ofLength) positive

end Steps

/-! ## Checked code -/

theorem LengthKept.congr
    {code middle code' : Code} {bci length : Nat}
    (kept : LengthKept code middle bci)
    (instruction : InstructionAt code bci length)
    (sameLength : code'.length = middle.length)
    (sameBytes : ∀ place, bci ≤ place → place < bci + length → code'[place]? = middle[place]?) :
    LengthKept code code' bci := by
  have bounds := instruction.length_pos
  have after := lt_operands bci
  have sameByteD : ∀ place, bci ≤ place → place < bci + length →
      byteD code' place = byteD middle place := by
    intro place lower upper
    exact byteD_of_getElem?_eq (sameBytes place lower upper)
  refine ⟨sameLength.trans kept.sameLength, ?_, ?_, ?_⟩
  · rw [sameByteD bci (Nat.le_refl bci) (by omega), kept.opcode]
  · intro isWide
    rw [sameByteD (bci + 1) (by omega) ?_, kept.widened isWide]
    cases instruction with
    | plain _ ofLength positive _ =>
        rw [isWide, lengthFor_wide] at ofLength
        omega
    | widened _ _ ofLength _ _ =>
        rcases wideLengthFor_cases (byteD code (bci + 1)) with zero | ⟨four | six, _⟩ <;> omega
    | switch isSwitch _ _ _ =>
        rw [isWide] at isSwitch
        exact absurd isSwitch not_isSwitch_wide
  · intro isSwitch word inRange
    rw [← kept.words isSwitch word inRange]
    have within : operands bci + 4 * switchWords code bci = bci + length := by
      cases instruction with
      | plain _ ofLength positive _ =>
          rw [lengthFor_switch isSwitch] at ofLength
          omega
      | widened isWide _ _ _ _ =>
          rw [isWide] at isSwitch
          exact absurd isSwitch not_isSwitch_wide
      | switch _ _ _ _ =>
          omega
    simp only [nativeWord, sameByteD (operands bci + 4 * word) (by omega) (by omega),
      sameByteD (operands bci + 4 * word + 1) (by omega) (by omega),
      sameByteD (operands bci + 4 * word + 2) (by omega) (by omega),
      sameByteD (operands bci + 4 * word + 3) (by omega) (by omega)]

theorem nextBci_of_kept
    {code code' : Code} {bci length : Nat}
    (size : code.length < 65536)
    (instruction : InstructionAt code bci length)
    (kept : LengthKept code code' bci) :
    nextBci code' bci = .ok (bci + length) := by
  have bounds := instruction.length_pos
  have inside : bci < code'.length := by
    rw [kept.sameLength]
    omega
  cases instruction with
  | plain _ ofLength positive _ =>
      rw [← kept.opcode] at ofLength
      exact nextBci_fixed inside ofLength positive
  | widened isWide defined ofLength positive complete =>
      have followed : bci + 1 < code'.length := by
        rw [kept.sameLength]
        rcases wideLengthFor_cases (byteD code (bci + 1)) with zero | ⟨four | six, _⟩ <;> omega
      rw [nextBci, lengthForAt, byteAt_eq inside, ok_bind, kept.opcode, isWide,
        if_neg (by simp [lengthFor_wide]), wideLengthForAt, if_neg (by decide),
        if_neg (by decide), if_neg (by decide), if_pos rfl, byteAt_eq followed, ok_bind,
        kept.widened isWide, ofLength]
      rfl
  | switch isSwitch padding counts complete =>
      rw [nextBci, lengthForAt, byteAt_eq inside, ok_bind, kept.opcode,
        if_neg (by simp [lengthFor_switch isSwitch]),
        wideLengthForAt_switch isSwitch size counts complete kept]
      rfl

theorem rewrittenOnce_nil (code : Code) : RewrittenOnce code code [] := by
  refine ⟨rfl, ?_, fun _ _ => rfl⟩
  intro start member
  cases member

/-- A scan of `code'` runs over complete instructions of `code` to its end, or over the end. -/
def ScansOver (code code' : Code) (first : Nat) : Prop :=
  ∃ starts last, Trail (Next code') first starts last ∧
    (last = code.length ∧ Trail (Follows code) first starts last ∧
        RewrittenOnce code code' starts ∨
      code.length < last)

/-- One more instruction in front of a scan. -/
theorem ScansOver.cons
    {code middle code' : Code} {here length : Nat}
    (instruction : InstructionAt code here length)
    (rewritten : RewrittenOnce code middle [here])
    (step : Next code' here (here + length))
    (rest : ScansOver middle code' (here + length)) :
    ScansOver code code' here := by
  have agree := agreeFrom_of_rewrittenOnce instruction rewritten
  obtain ⟨starts, last, trail, ends⟩ := rest
  refine ⟨here :: starts, last, .cons step trail, ?_⟩
  rw [rewritten.sameLength] at ends
  rcases ends with ⟨atEnd, tiling, rewrittenRest⟩ | past
  · refine Or.inl ⟨atEnd, .cons ⟨length, instruction, rfl⟩ (agree.symm.trail tiling), ?_⟩
    exact rewrittenOnce_cons instruction rewritten tiling rewrittenRest
  · exact Or.inr past

/-- The check leaves code that a scan walks through: from each instruction it passed to the
next one. -/
theorem checkLoop_walks
    (fuel : Nat) {scan scan' : Scan}
    (atMost : scan.bcptr ≤ scan.code.length)
    (size : scan.code.length < 65536)
    (run : checkLoop fuel scan = .ok scan')
    (inBounds : scan'.bci ≤ scan.code.length) :
    (∀ place < scan.bcptr, scan'.code[place]? = scan.code[place]?) ∧
      ScansOver scan.code scan'.code scan.bcptr := by
  induction fuel generalizing scan with
  | zero =>
      rw [checkLoop] at run
      have past := (guarded_eq_ok_iff.mp run).1
      have atEnd : scan.bcptr = scan.code.length := by omega
      cases (guarded_eq_ok_iff.mp run).2
      exact ⟨fun _ _ => rfl, [], _, .nil _, Or.inl ⟨atEnd, .nil _, rewrittenOnce_nil _⟩⟩
  | succ fuel inductionHypothesis =>
      rcases Nat.eq_or_lt_of_le atMost with atEnd | inside
      · rw [checkLoop_of_past _ (Nat.le_of_eq atEnd.symm)] at run
        cases run
        exact ⟨fun _ _ => rfl, [], _, .nil _, Or.inl ⟨atEnd, .nil _, rewrittenOnce_nil _⟩⟩
      · rw [checkLoop_of_inside _ inside] at run
        have outcome := checkStep_outcome inside size
        generalize checkStep scan = result at outcome run
        cases outcome with
        | @passed middle length instruction _ advanced _ rewritten =>
            have bounds := instruction.length_pos
            have sameLength := rewritten.sameLength
            rw [ok_bind] at run
            obtain ⟨before, rest⟩ :=
              inductionHypothesis (by omega) (by omega) run (by omega)
            have kept : ∀ place < scan.bcptr, middle.code[place]? = scan.code[place]? := by
              intro place earlier
              apply rewritten.untouched
              intro start member _
              cases List.mem_singleton.mp member
              have := lt_operands scan.bcptr
              omega
            have length' := checkLoop_length _ run
            have step : Next scan'.code scan.bcptr (scan.bcptr + length) := by
              have opcodeKept := (lengthKept_singleton rewritten).opcode
              refine ⟨by omega, by omega, fun _ => by omega, ?_⟩
              intro code' sameLength' sameBytes
              apply nextBci_of_kept size instruction
              apply LengthKept.congr (lengthKept_singleton rewritten) instruction (by omega)
              intro place lower upper
              rw [sameBytes place lower upper, before place (by omega)]
            refine ⟨?_, .cons instruction rewritten step (advanced ▸ rest)⟩
            intro place earlier
            rw [before place (by omega), kept place earlier]
        | @overranFast middle truncated sameCode sameBci past =>
            rw [ok_bind, checkLoop_of_past _ (by rw [sameCode]; omega)] at run
            cases run
            obtain ⟨_, fast, length, ofLength, positive, cut⟩ := truncated
            rw [sameCode]
            have step : Next scan.code scan.bcptr (scan.bcptr + length) := by
              apply Next.fixed inside ofLength positive
              intro slow
              omega
            exact ⟨fun _ _ => rfl, [scan.bcptr], _, .cons step (.nil _), Or.inr cut⟩
        | @overranSlow middle _ _ sameCode synced past =>
            rw [ok_bind, checkLoop_of_past _ (by rw [sameCode]; omega)] at run
            cases run
            omega
        | rejected _ _ _ =>
            cases run

/-- What `check_bytecodes` accepts is scanned over. -/
theorem scansOver_of_accepted
    {method method' : Method}
    (ownCode : method.isNativeOrAbstract = false)
    (accepts : Accepts method method') :
    ScansOver method.code method'.code 0 ∧ method'.code.length = method.code.length := by
  rcases checkBytecodes_cases ownCode with
    ⟨scan, run, inBounds, other, acceptsOther, sameCode⟩ | ⟨fault, refused, _⟩
  · cases accepts_unique accepts acceptsOther
    rw [sameCode]
    exact ⟨(checkLoop_walks _ (Nat.zero_le _) method.codeSizeFits run inBounds).2,
      checkLoop_length _ run⟩
  · exact absurd ⟨method', accepts⟩ (not_accepts_of_fault refused)

/-- What `check_bytecodes` accepts is walked through by every later scan. -/
theorem walks_of_accepted
    {method method' : Method}
    (ownCode : method.isNativeOrAbstract = false)
    (accepts : Accepts method method') :
    ∃ starts, Walks method'.code starts := by
  obtain ⟨⟨starts, last, trail, ends⟩, sameLength⟩ := scansOver_of_accepted ownCode accepts
  refine ⟨starts, last, trail, ?_⟩
  rcases ends with ⟨atEnd, _⟩ | past <;> omega

end PicoJvm.CodeWalk
