import PicoJvm.Bytecode.ScanRun

/-!
# Checked code

The verifier's scan for instruction starts retraces the tiling of rewritten
code, and the whole of `check_bytecodes` decides tilings except at the two
boundaries its loop gets wrong.
-/

namespace PicoJvm.CheckedCode

open PicoJvm.Lib
open PicoJvm.Lib.Fallible
open PicoJvm.Bytecodes
open PicoJvm.CodeBytes
open PicoJvm.CheckBytecodes
open PicoJvm.Tiling
open PicoJvm.ScanStep
open PicoJvm.ScanRun

/-! ## Instruction starts of rewritten code -/

/-- No rewritten operand of a tiling covers a byte that decides a length. -/
theorem lengthKept_of_tiles
    {code code' : Code} {starts : List Nat} {bci last : Nat}
    (trail : Trail (Follows code) 0 starts last)
    (rewritten : RewrittenOnce code code' starts)
    (member : bci ∈ starts) :
    LengthKept code code' bci := by
  have forward := follows_forward code
  have deterministic := follows_deterministic code
  refine lengthKept_of_rewrittenOnce rewritten member ?_
  intro start startMember isSwitch place which within
  have after := lt_operands start
  obtain ⟨next, length, instruction, rfl⟩ := trail.exists_step_of_mem startMember
  have covers : operands start + 4 * switchWords code start = start + length := by
    cases instruction with
    | plain _ ofLength positive _ =>
        rw [lengthFor_switch isSwitch] at ofLength
        omega
    | widened isWide _ _ _ _ =>
        rw [isWide] at isSwitch
        exact absurd isSwitch not_isSwitch_wide
    | switch _ _ _ _ =>
        omega
  rcases Nat.lt_trichotomy start bci with before | rfl | behind
  · have := trail.mem_separated forward deterministic startMember member before
      ⟨length, instruction, rfl⟩
    omega
  · rcases which with rfl | ⟨_, isWide⟩
    · omega
    · rw [isWide] at isSwitch
      exact not_isSwitch_wide isSwitch
  · obtain ⟨_, length', instruction', rfl⟩ := trail.exists_step_of_mem member
    have := trail.mem_separated forward deterministic member startMember behind
      ⟨length', instruction', rfl⟩
    omega

/-- One round of `GetInstructionStarts` at a start of the tiling. -/
theorem startsLoop_round
    {code code' : Code} {bci length fuel : Nat} {marks : Starts}
    (size : code.length < 65536)
    (instruction : InstructionAt code bci length)
    (kept : LengthKept code code' bci) :
    startsLoop code' (fuel + 1) bci marks =
      startsLoop code' fuel (bci + length) (marks.set bci (startMark (byteD code bci))) := by
  have bounds := instruction.length_pos
  have inside : bci < code'.length := by
    rw [kept.sameLength]
    omega
  rw [startsLoop, if_pos inside]
  simp only [byteAt_eq inside, ok_bind, kept.opcode]
  cases instruction with
  | plain _ ofLength positive _ =>
      rw [ofLength, if_pos (by omega), Int.toNat_natCast]
  | widened isWide defined ofLength positive complete =>
      have followed : bci + 1 < code'.length := by
        rw [kept.sameLength]
        rcases wideLengthFor_cases (byteD code (bci + 1)) with zero | ⟨four, _⟩ <;> omega
      have wideLength : wideLengthForAt code' bci wide = .ok (length : Int) := by
        unfold wideLengthForAt
        rw [if_neg (by decide), if_neg (by decide), if_neg (by decide), if_pos rfl,
          byteAt_eq followed, ok_bind, kept.widened isWide, ofLength]
        rfl
      rw [isWide, lengthFor_wide, if_neg (by omega), if_pos rfl, wideLength, ok_bind,
        if_pos (by omega), Int.toNat_natCast]
  | switch isSwitch padding counts complete =>
      rw [lengthFor_switch isSwitch, if_neg (by omega), if_pos rfl,
        wideLengthForAt_switch isSwitch size counts complete kept, ok_bind,
        if_pos (by omega), Int.toNat_natCast]

theorem startMark_ne_zero (opcode : Nat) : startMark opcode ≠ 0 := by
  unfold startMark
  split <;> decide

/-- The loop of `GetInstructionStarts` marks the rest of the tiling and nothing
else. -/
theorem startsLoop_spec
    {code code' : Code} {starts : List Nat} {bci : Nat}
    (size : code.length < 65536)
    (sameLength : code'.length = code.length)
    (trail : Trail (Follows code) bci starts code.length)
    (kept : ∀ start ∈ starts, LengthKept code code' start)
    (fuel : Nat)
    (enough : code.length < bci + fuel)
    (marks : Starts)
    (marksLength : marks.length = code.length) :
    ∃ marks', startsLoop code' fuel bci marks = .ok (code.length, marks') ∧
      marks'.length = code.length ∧
      (∀ place, place ∉ starts → marks'.getD place 0 = marks.getD place 0) ∧
      ∀ place ∈ starts, marks'.getD place 0 ≠ 0 := by
  induction fuel generalizing bci starts marks with
  | zero =>
      have := trail.first_le_last (follows_forward code)
      omega
  | succ fuel inductionHypothesis =>
      cases trail with
      | nil _ =>
          refine ⟨marks, ?_, marksLength, fun _ _ => rfl, ?_⟩
          · rw [startsLoop, if_neg (by omega)]
          · intro place member
            cases member
      | @cons _ next _ rest head tail =>
          obtain ⟨length, instruction, rfl⟩ := head
          have bounds := instruction.length_pos
          obtain ⟨marks', run, lengthAfter, elsewhere, marked⟩ :=
            inductionHypothesis tail
              (fun start member => kept start (List.mem_cons_of_mem _ member))
              (by omega)
              (marks.set bci (startMark (byteD code bci)))
              (by rw [List.length_set, marksLength])
          have notLater : bci ∉ rest := by
            intro member
            have := (tail.mem_bounds (follows_forward code) member).1
            omega
          refine ⟨marks', ?_, lengthAfter, ?_, ?_⟩
          · rw [startsLoop_round size instruction (kept bci List.mem_cons_self)]
            exact run
          · intro place outside
            obtain ⟨different, notInRest⟩ := not_or.mp (List.mem_cons.not.mp outside)
            rw [elsewhere place notInRest]
            simp only [List.getD_eq_getElem?_getD]
            rw [List.getElem?_set_ne (Ne.symm different)]
          · intro place member
            rcases List.mem_cons.mp member with rfl | later
            · rw [elsewhere place notLater]
              simp only [List.getD_eq_getElem?_getD]
              rw [List.getElem?_set_self (by omega)]
              exact startMark_ne_zero _
            · exact marked place later

/-- The marks found in rewritten code are those of the tiling. -/
theorem getInstructionStarts_spec
    {code code' : Code} {starts : List Nat}
    (size : code.length < 65536)
    (tiles : Tiles code starts)
    (rewritten : RewrittenOnce code code' starts) :
    ∃ marks, getInstructionStarts code' = .ok marks ∧
      marks.length = code.length ∧
      ∀ place, marks.getD place 0 ≠ 0 ↔ place ∈ starts := by
  have sameLength := rewritten.sameLength
  obtain ⟨marks, run, marksLength, elsewhere, marked⟩ :=
    startsLoop_spec size sameLength tiles
      (fun start member => lengthKept_of_tiles tiles rewritten member)
      (code'.length + 1) (by omega) (List.replicate code'.length 0) (by simp [sameLength])
  refine ⟨marks, ?_, marksLength, fun place => ⟨?_, marked place⟩⟩
  · unfold getInstructionStarts
    rw [run, ok_bind]
    simp only [sameLength, gt_iff_lt, Nat.lt_irrefl, if_false]
  · intro nonzero
    by_contra outside
    rw [elsewhere place outside] at nonzero
    simp only [List.getD_eq_getElem?_getD, List.getElem?_replicate] at nonzero
    split at nonzero <;> simp at nonzero

/-! ## The whole check -/

/-- The code of the method is accepted and left as in `method'`. The error for a
frame too large for its monitors is no verdict on the code: it comes after the
code has been accepted and rewritten. -/
def Accepts (method method' : Method) : Prop :=
  checkBytecodes method = .accepted method' ∨ checkBytecodes method = .outOfMemory method'

/-- Acceptance decides tilings; what is accepted is rewritten once, and its
instruction starts are those of the tiling; no read leaves the code. -/
structure DecidesTiling (method : Method) : Prop where
  accepts_iff : (∃ method', Accepts method method') ↔ ∃ starts, Tiles method.code starts
  accepted :
    ∀ method', Accepts method method' →
      ∃ starts, Tiles method.code starts ∧
        RewrittenOnce method.code method'.code starts ∧
        ∃ marks, getInstructionStarts method'.code = .ok marks ∧
          marks.length = method.code.length ∧
          ∀ place, marks.getD place 0 ≠ 0 ↔ place ∈ starts
  readsInside : checkBytecodes method ≠ .fault .readPastEnd

/-- Complete instructions lead to one of the fast path that runs past the end. -/
def EndsTruncated (code : Code) : Prop :=
  LeadsTo FastTruncated code 0

/-- Complete instructions lead to a switch whose last operand ends the code. -/
def EndsWithSwitch (code : Code) : Prop :=
  LeadsTo ExactSwitch code 0

theorem exists_tiles_iff (code : Code) :
    (∃ starts, Tiles code starts) ↔ LeadsTo AtEnd code 0 := by
  constructor
  · rintro ⟨starts, tiles⟩
    exact ⟨starts, code.length, tiles, rfl⟩
  · rintro ⟨starts, last, trail, atEnd⟩
    cases atEnd
    exact ⟨starts, trail⟩

/-- After the loop only the size of the frame can still matter. -/
theorem finishCheck_cases (method : Method) (scan : Scan) :
    ∃ method', (finishCheck method scan = .accepted method' ∨
        finishCheck method scan = .outOfMemory method') ∧
      method'.code = method.code := by
  unfold finishCheck
  dsimp only
  split
  · split
    · exact ⟨_, Or.inr rfl, rfl⟩
    · exact ⟨_, Or.inl rfl, rfl⟩
  · exact ⟨_, Or.inl rfl, rfl⟩

/-- The verdict on a method in terms of the outcome of the loop. -/
theorem checkBytecodes_cases
    {method : Method}
    (ownCode : method.isNativeOrAbstract = false) :
    (∃ scan, checkLoop (method.code.length + 1) (.initial method.code) = .ok scan ∧
      scan.bci ≤ method.code.length ∧
      ∃ method', Accepts method method' ∧ method'.code = scan.code) ∨
    (∃ fault, checkBytecodes method = .fault fault ∧
      (checkLoop (method.code.length + 1) (.initial method.code) = .error fault ∨
        fault = .illegalCode ∧
        ∃ scan, checkLoop (method.code.length + 1) (.initial method.code) = .ok scan ∧
          method.code.length < scan.bci)) := by
  unfold Accepts checkBytecodes
  simp only [ownCode, Bool.false_eq_true, if_false]
  split
  · rename_i fault run
    exact Or.inr ⟨fault, rfl, Or.inl run⟩
  · rename_i scan run
    by_cases past : scan.bci > method.code.length
    · rw [if_pos past]
      exact Or.inr ⟨.illegalCode, rfl, Or.inr ⟨rfl, scan, run, past⟩⟩
    · rw [if_neg past]
      refine Or.inl ⟨scan, run, Nat.le_of_not_lt past, ?_⟩
      exact finishCheck_cases _ scan

theorem loopOutcome_initial (method : Method) :
    LoopOutcome (.initial method.code)
      (checkLoop (method.code.length + 1) (.initial method.code)) :=
  checkLoop_outcome _ (by simp [Scan.initial]) (Nat.zero_le _) (Nat.zero_le _)
    method.codeSizeFits

theorem not_accepts_of_fault
    {method : Method} {fault : Fault}
    (refused : checkBytecodes method = .fault fault) :
    ¬ ∃ method', Accepts method method' := by
  rintro ⟨method', accepted | outOfMemory⟩
  · rw [refused] at accepted
    cases accepted
  · rw [refused] at outOfMemory
    cases outOfMemory

theorem accepts_unique
    {method left right : Method}
    (acceptsLeft : Accepts method left)
    (acceptsRight : Accepts method right) :
    left = right := by
  unfold Accepts at acceptsLeft acceptsRight
  rcases acceptsLeft with run | run <;> rcases acceptsRight with run' | run' <;>
    rw [run] at run' <;> cases run' <;> rfl

/-- On code with neither boundary the check decides tilings. -/
theorem decidesTiling_of_neither
    {method : Method}
    (ownCode : method.isNativeOrAbstract = false)
    (notTruncated : ¬ EndsTruncated method.code)
    (notSwitchEnd : ¬ EndsWithSwitch method.code) :
    DecidesTiling method := by
  have outcome := loopOutcome_initial method
  rcases checkBytecodes_cases ownCode with
    ⟨scan, run, inBounds, method', accepts, sameCode⟩ | ⟨fault, refused, why⟩
  · rw [run] at outcome
    cases outcome with
    | @tiled _ starts trail _ rewritten _ =>
        have tiles : Tiles method.code starts := trail
        have rewritten' : RewrittenOnce method.code method'.code starts := by
          rw [sameCode]
          exact rewritten
        refine ⟨⟨fun _ => ⟨starts, tiles⟩, fun _ => ⟨method', accepts⟩⟩, ?_, ?_⟩
        · intro other acceptsOther
          cases accepts_unique accepts acceptsOther
          exact ⟨starts, tiles, rewritten',
            getInstructionStarts_spec method.codeSizeFits tiles rewritten'⟩
        · intro outside
          exact not_accepts_of_fault outside ⟨method', accepts⟩
    | truncated leads _ =>
        exact absurd leads notTruncated
    | overran _ _ past =>
        exact absurd inBounds (Nat.not_le.mpr past)
  · have noVerdict := not_accepts_of_fault refused
    have notTiled : ¬ LeadsTo AtEnd method.code 0 := by
      rcases why with run | ⟨_, scan, run, past⟩
      · rw [run] at outcome
        cases outcome with
        | rejected _ _ onlyExact =>
            exact fun leads => notSwitchEnd (onlyExact leads)
      · rw [run] at outcome
        cases outcome with
        | tiled _ _ _ inBounds =>
            exact absurd inBounds (Nat.not_le.mpr past)
        | truncated leads _ =>
            exact absurd leads notTruncated
        | overran _ notEnd _ =>
            exact notEnd
    have inside : fault ≠ .readPastEnd := by
      rcases why with run | ⟨rfl, _⟩
      · rw [run] at outcome
        cases outcome with
        | rejected which _ _ =>
            rcases which with rfl | rfl <;> decide
      · decide
    refine ⟨⟨fun accepts => absurd accepts noVerdict, fun tiles => ?_⟩, ?_, ?_⟩
    · exact absurd ((exists_tiles_iff method.code).mp tiles) notTiled
    · intro method' accepts
      exact absurd ⟨method', accepts⟩ noVerdict
    · rw [refused]
      intro equality
      cases equality
      exact inside rfl

/-- `check_bytecodes` decides tilings exactly when neither a truncated
instruction of the fast path nor a switch that fits exactly ends the code: the
final test of the loop looks at a position the fast path leaves behind, and the
bounds test of the switches refuses the end of the code itself. -/
theorem checkBytecodes_decidesTiling_iff
    (method : Method)
    (ownCode : method.isNativeOrAbstract = false) :
    DecidesTiling method ↔
      ¬ EndsTruncated method.code ∧ ¬ EndsWithSwitch method.code := by
  constructor
  · intro decides
    have tiles_iff := exists_tiles_iff method.code
    have outcome := loopOutcome_initial method
    constructor
    · intro truncated
      have notTiled := not_leadsTo_end_of_truncated truncated
      refine notTiled (tiles_iff.mp (decides.accepts_iff.mp ?_))
      rcases checkBytecodes_cases ownCode with
        ⟨_, _, _, method', accepts, _⟩ | ⟨fault, _, run | ⟨_, scan, run, past⟩⟩
      · exact ⟨method', accepts⟩
      · rw [run] at outcome
        cases outcome with
        | rejected _ notTruncated _ =>
            exact absurd truncated notTruncated
      · rw [run] at outcome
        cases outcome with
        | tiled _ _ _ inBounds =>
            exact absurd inBounds (Nat.not_le.mpr past)
        | truncated _ inBounds =>
            exact absurd inBounds (Nat.not_le.mpr past)
        | overran notTruncated _ _ =>
            exact absurd truncated notTruncated
    · intro switchEnd
      have tiled := leadsTo_end_of_exactSwitch switchEnd
      obtain ⟨method', accepts⟩ := decides.accepts_iff.mpr (tiles_iff.mpr tiled)
      rcases checkBytecodes_cases ownCode with
        ⟨scan, run, inBounds, _⟩ | ⟨fault, refused, _⟩
      · rw [run] at outcome
        cases outcome with
        | tiled _ notSwitchEnd _ _ =>
            exact notSwitchEnd switchEnd
        | truncated leads _ =>
            exact not_leadsTo_end_of_truncated leads tiled
        | overran _ notEnd _ =>
            exact notEnd tiled
      · exact not_accepts_of_fault refused ⟨method', accepts⟩
  · rintro ⟨notTruncated, notSwitchEnd⟩
    exact decidesTiling_of_neither ownCode notTruncated notSwitchEnd

/-! ## Two methods -/

/-- A method without monitors or calls. -/
def plainMethod (code : Code) (codeSizeFits : code.length < 65536) : Method where
  code := code
  codeSizeFits := codeSizeFits
  maxExecutionStackCount := 2
  isNativeOrAbstract := false
  hasMonitorBytecodes := false
  hasInvokeBytecodes := false

/-- The single instruction `return`. -/
theorem return_decidesTiling : DecidesTiling (plainMethod [177] (by decide)) := by
  refine (checkBytecodes_decidesTiling_iff (plainMethod [177] (by decide)) rfl).mpr ⟨?_, ?_⟩
  · rintro ⟨starts, last, trail, inside, fast, _⟩
    have first : last = 0 := by
      change last < 1 at inside
      omega
    subst first
    exact absurd fast (by decide)
  · rintro ⟨starts, last, trail, exactSwitch⟩
    have inside : last < 1 := (instructionAt_of_exactSwitch exactSwitch).2
    have first : last = 0 := by
      omega
    subst first
    exact absurd exactSwitch.1 (by decide)

/-- The single byte `bipush`, whose operand is missing, is accepted. -/
theorem bipush_not_decidesTiling : ¬ DecidesTiling (plainMethod [16] (by decide)) := by
  intro decides
  obtain ⟨starts, tiles⟩ := decides.accepts_iff.mp ⟨_, Or.inl rfl⟩
  have truncated : LeadsTo FastTruncated [16] 0 :=
    ⟨[], 0, .nil 0, by decide, by decide, 2, by decide, by decide, by decide⟩
  exact not_leadsTo_end_of_truncated truncated ⟨starts, 1, tiles, rfl⟩

end PicoJvm.CheckedCode
