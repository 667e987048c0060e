import PicoJvm.Bytecode.ScanStep

/-!
# Whole runs of the scan

From the outcome of one round to the outcome of the loop: which code arrays the
loop passes, and what it leaves in them.
-/

namespace PicoJvm.ScanRun

open PicoJvm.Lib
open PicoJvm.Lib.Fallible
open PicoJvm.Bytecodes
open PicoJvm.CodeBytes
open PicoJvm.CheckBytecodes
open PicoJvm.Tiling
open PicoJvm.ScanStep

/-! ## Where the instructions from a position lead -/

/-- Complete instructions lead from `bci` to a position with a given property. -/
def LeadsTo (goal : Code → Nat → Prop) (code : Code) (bci : Nat) : Prop :=
  ∃ starts last, Trail (Follows code) bci starts last ∧ goal code last

/-- The property of a position depends only on the bytes from there on. -/
def IsLocal (goal : Code → Nat → Prop) : Prop :=
  ∀ ⦃bci here : Nat⦄ ⦃code code' : Code⦄,
    AgreeFrom bci code code' → bci ≤ here → goal code here → goal code' here

/-- The instructions from `bci` on cover the rest of the code exactly. -/
def AtEnd (code : Code) (bci : Nat) : Prop :=
  bci = code.length

theorem atEnd_isLocal : IsLocal AtEnd := by
  intro bci here code code' agree _ atEnd
  exact atEnd.trans agree.sameLength.symm

theorem fastTruncated_isLocal : IsLocal FastTruncated := by
  rintro bci here code code' agree later ⟨inside, fast, length, ofLength, positive, past⟩
  rw [← agree.byteD_eq later] at fast ofLength
  rw [← agree.sameLength] at inside past
  exact ⟨inside, fast, length, ofLength, positive, past⟩

theorem exactSwitch_isLocal : IsLocal ExactSwitch := by
  rintro bci here code code' agree later ⟨isSwitch, padding, counts, exactFit⟩
  rw [← agree.byteD_eq later] at isSwitch
  rw [← agree.switchWords_eq later, ← agree.sameLength] at exactFit
  exact ⟨isSwitch, agree.zeroPadding later padding, agree.countsInOrder later counts, exactFit⟩

theorem LeadsTo.congr
    {goal : Code → Nat → Prop} {bci : Nat} {code code' : Code}
    (isLocal : IsLocal goal)
    (agree : AgreeFrom bci code code') :
    LeadsTo goal code bci ↔ LeadsTo goal code' bci := by
  constructor
  · rintro ⟨starts, last, trail, reached⟩
    exact ⟨starts, last, agree.trail trail,
      isLocal agree (trail.first_le_last (follows_forward code)) reached⟩
  · rintro ⟨starts, last, trail, reached⟩
    exact ⟨starts, last, agree.symm.trail trail,
      isLocal agree.symm (trail.first_le_last (follows_forward code')) reached⟩

/-- Past one complete instruction that is no goal itself, on code rewritten for
that instruction, the same goals lie ahead. -/
theorem LeadsTo.past_instruction
    {goal : Code → Nat → Prop} {bci length : Nat} {code code' : Code}
    (isLocal : IsLocal goal)
    (notHere : ¬ goal code bci)
    (instruction : InstructionAt code bci length)
    (agree : AgreeFrom (bci + length) code code') :
    LeadsTo goal code bci ↔ LeadsTo goal code' (bci + length) := by
  rw [← LeadsTo.congr isLocal agree]
  exact exists_trail_to_iff_of_step (follows_deterministic code) notHere
    ⟨length, instruction, rfl⟩

/-! ## Positions where no instruction follows -/

theorem no_instruction_at_end
    {code : Code} {bci : Nat}
    (atEnd : AtEnd code bci)
    (next : Nat) :
    ¬ Follows code bci next := by
  rintro ⟨length, instruction, _⟩
  have := instruction.length_pos
  unfold AtEnd at atEnd
  omega

theorem no_instruction_of_fastTruncated
    {code : Code} {bci : Nat}
    (truncated : FastTruncated code bci)
    (next : Nat) :
    ¬ Follows code bci next := by
  obtain ⟨_, fast, length, ofLength, positive, past⟩ := truncated
  rintro ⟨length', instruction, _⟩
  cases instruction with
  | plain _ ofLength' _ complete =>
      omega
  | widened isWide _ _ _ _ =>
      rw [isWide, lengthFor_wide] at ofLength
      omega
  | switch isSwitch _ _ _ =>
      rw [lengthFor_switch isSwitch] at ofLength
      omega

/-- A code array cannot both be tiled and end in a truncated instruction. -/
theorem not_leadsTo_end_of_truncated
    {code : Code} {bci : Nat}
    (truncated : LeadsTo FastTruncated code bci) :
    ¬ LeadsTo AtEnd code bci := by
  rintro ⟨starts, last, trail, atEnd⟩
  obtain ⟨starts', last', trail', truncatedThere⟩ := truncated
  have same : last = last' :=
    trail.last_unique (follows_deterministic code) trail'
      (no_instruction_at_end atEnd) (no_instruction_of_fastTruncated truncatedThere)
  have inside := truncatedThere.1
  unfold AtEnd at atEnd
  omega

theorem instructionAt_of_exactSwitch
    {code : Code} {bci : Nat}
    (exactSwitch : ExactSwitch code bci) :
    InstructionAt code bci (code.length - bci) ∧ bci < code.length := by
  obtain ⟨isSwitch, padding, counts, exactFit⟩ := exactSwitch
  have after := lt_operands bci
  rw [← exactFit]
  exact ⟨.switch isSwitch padding counts (Nat.le_of_eq exactFit), by omega⟩

/-- Code whose last instruction is a switch that ends it is tiled. -/
theorem leadsTo_end_of_exactSwitch
    {code : Code} {bci : Nat}
    (endsWithSwitch : LeadsTo ExactSwitch code bci) :
    LeadsTo AtEnd code bci := by
  obtain ⟨starts, last, trail, exactSwitch⟩ := endsWithSwitch
  obtain ⟨instruction, inside⟩ := instructionAt_of_exactSwitch exactSwitch
  exact ⟨starts ++ [last], code.length,
    trail.snoc ⟨_, instruction, by omega⟩, rfl⟩

/-! ## Rewriting along a tiling -/

/-- Rewriting the instruction at `bci` leaves the bytes after it alone. -/
theorem agreeFrom_of_rewrittenOnce
    {code code' : Code} {bci length : Nat}
    (instruction : InstructionAt code bci length)
    (rewritten : RewrittenOnce code code' [bci]) :
    AgreeFrom (bci + length) code code' := by
  refine ⟨rewritten.sameLength, fun place later => ?_⟩
  refine rewritten.untouched place fun start member isSwitch within => ?_
  cases List.mem_singleton.mp member
  cases instruction with
  | plain _ ofLength positive _ =>
      rw [lengthFor_switch isSwitch] at ofLength
      omega
  | widened isWide _ _ _ _ =>
      rw [isWide] at isSwitch
      exact not_isSwitch_wide isSwitch
  | switch _ _ _ _ =>
      have := lt_operands bci
      omega

/-- Rewriting one instruction and then all later ones rewrites each once. -/
theorem rewrittenOnce_cons
    {code code' code'' : Code} {bci length last : Nat} {starts : List Nat}
    (instruction : InstructionAt code bci length)
    (first : RewrittenOnce code code' [bci])
    (trail : Trail (Follows code') (bci + length) starts last)
    (rest : RewrittenOnce code' code'' starts) :
    RewrittenOnce code code'' (bci :: starts) := by
  have agree := agreeFrom_of_rewrittenOnce instruction first
  have later : ∀ start ∈ starts, bci + length ≤ start := fun start member =>
    (trail.mem_bounds (follows_forward code') member).1
  have operandsOfFirst : IsSwitch (byteD code bci) →
      operands bci + 4 * switchWords code bci = bci + length := by
    intro isSwitch
    cases instruction with
    | plain _ ofLength positive _ =>
        rw [lengthFor_switch isSwitch] at ofLength
        omega
    | widened isWide _ _ _ _ =>
        rw [isWide] at isSwitch
        exact absurd isSwitch not_isSwitch_wide
    | switch _ _ _ _ =>
        have := lt_operands bci
        omega
  refine ⟨rest.sameLength.trans first.sameLength, ?_, ?_⟩
  · intro start member isSwitch word inRange byte small
    rcases List.mem_cons.mp member with rfl | laterMember
    · have ends := operandsOfFirst isSwitch
      rw [rest.untouched _ fun start' member' _ within => ?_]
      · exact first.reversed start (List.mem_singleton.mpr rfl) isSwitch word inRange byte small
      · have := later start' member'
        have := lt_operands start'
        omega
    · have after := later start laterMember
      have afterOperands := lt_operands start
      rw [← agree.byteD_eq after] at isSwitch
      rw [← agree.switchWords_eq after] at inRange
      rw [rest.reversed start laterMember isSwitch word inRange byte small]
      exact agree.sameBytes _ (by omega)
  · intro place outside
    rw [rest.untouched place fun start member isSwitch => ?_]
    · refine first.untouched place fun start member isSwitch => ?_
      cases List.mem_singleton.mp member
      exact outside bci List.mem_cons_self isSwitch
    · have after := later start member
      rw [agree.byteD_eq after] at isSwitch
      rw [agree.switchWords_eq after]
      exact outside start (List.mem_cons_of_mem bci member) isSwitch

/-! ## The loop -/

/-- Everything the loop can do from a position. -/
inductive LoopOutcome (scan : Scan) : Except Fault Scan → Prop
  | tiled {scan' : Scan} {starts : List Nat} :
      Trail (Follows scan.code) scan.bcptr starts scan.code.length →
      ¬ LeadsTo ExactSwitch scan.code scan.bcptr →
      RewrittenOnce scan.code scan'.code starts →
      scan'.bci ≤ scan.code.length →
      LoopOutcome scan (.ok scan')
  | truncated {scan' : Scan} :
      LeadsTo FastTruncated scan.code scan.bcptr →
      scan'.bci ≤ scan.code.length →
      LoopOutcome scan (.ok scan')
  | overran {scan' : Scan} :
      ¬ LeadsTo FastTruncated scan.code scan.bcptr →
      ¬ LeadsTo AtEnd scan.code scan.bcptr →
      scan.code.length < scan'.bci →
      LoopOutcome scan (.ok scan')
  | rejected {fault : Fault} :
      fault = .illegalCode ∨ fault = .illegalWideCode →
      ¬ LeadsTo FastTruncated scan.code scan.bcptr →
      (LeadsTo AtEnd scan.code scan.bcptr → LeadsTo ExactSwitch scan.code scan.bcptr) →
      LoopOutcome scan (.error fault)

theorem checkLoop_of_past
    (fuel : Nat) {scan : Scan}
    (past : scan.code.length ≤ scan.bcptr) :
    checkLoop fuel scan = .ok scan := by
  unfold checkLoop
  rw [if_neg (Nat.not_lt.mpr past)]

theorem checkLoop_of_inside
    (fuel : Nat) {scan : Scan}
    (inside : scan.bcptr < scan.code.length) :
    checkLoop (fuel + 1) scan = (checkStep scan >>= checkLoop fuel) := by
  rw [checkLoop, if_pos inside]

/-- The outcome after a round that passed over a complete instruction. -/
theorem LoopOutcome.cons
    {scan scan' : Scan} {length : Nat} {result : Except Fault Scan}
    (instruction : InstructionAt scan.code scan.bcptr length)
    (notExact : ¬ ExactSwitch scan.code scan.bcptr)
    (advanced : scan'.bcptr = scan.bcptr + length)
    (rewritten : RewrittenOnce scan.code scan'.code [scan.bcptr])
    (rest : LoopOutcome scan' result) :
    LoopOutcome scan result := by
  have agree := agreeFrom_of_rewrittenOnce instruction rewritten
  have notTruncated : ¬ FastTruncated scan.code scan.bcptr := fun truncated =>
    no_instruction_of_fastTruncated truncated _ ⟨length, instruction, rfl⟩
  have notEnd : ¬ AtEnd scan.code scan.bcptr := fun atEnd =>
    no_instruction_at_end atEnd _ ⟨length, instruction, rfl⟩
  have truncatedIff : LeadsTo FastTruncated scan.code scan.bcptr ↔
      LeadsTo FastTruncated scan'.code scan'.bcptr :=
    advanced ▸ LeadsTo.past_instruction fastTruncated_isLocal notTruncated instruction agree
  have exactIff : LeadsTo ExactSwitch scan.code scan.bcptr ↔
      LeadsTo ExactSwitch scan'.code scan'.bcptr :=
    advanced ▸ LeadsTo.past_instruction exactSwitch_isLocal notExact instruction agree
  have endIff : LeadsTo AtEnd scan.code scan.bcptr ↔
      LeadsTo AtEnd scan'.code scan'.bcptr :=
    advanced ▸ LeadsTo.past_instruction atEnd_isLocal notEnd instruction agree
  cases rest with
  | tiled trail notLast rewrittenRest inBounds =>
      rw [advanced] at trail
      refine .tiled (.cons ⟨length, instruction, rfl⟩ ?_) (exactIff.not.mpr notLast)
        (rewrittenOnce_cons instruction rewritten trail rewrittenRest) ?_
      · rw [← rewritten.sameLength]
        exact agree.symm.trail trail
      · rw [← rewritten.sameLength]
        exact inBounds
  | truncated truncatedLater inBounds =>
      exact .truncated (truncatedIff.mpr truncatedLater) (rewritten.sameLength ▸ inBounds)
  | overran notTruncatedLater notEndLater past =>
      exact .overran (truncatedIff.not.mpr notTruncatedLater) (endIff.not.mpr notEndLater)
        (rewritten.sameLength ▸ past)
  | rejected which notTruncatedLater onlyExact =>
      exact .rejected which (truncatedIff.not.mpr notTruncatedLater) fun leads =>
        exactIff.mpr (onlyExact (endIff.mp leads))

/-- The loop from any position, with enough fuel for the bytes that remain. -/
theorem checkLoop_outcome
    (fuel : Nat) {scan : Scan}
    (enough : scan.code.length < scan.bcptr + fuel)
    (atMost : scan.bcptr ≤ scan.code.length)
    (behind : scan.bci ≤ scan.code.length)
    (size : scan.code.length < 65536) :
    LoopOutcome scan (checkLoop fuel scan) := by
  induction fuel generalizing scan with
  | zero =>
      omega
  | succ fuel inductionHypothesis =>
      rcases Nat.eq_or_lt_of_le atMost with atEnd | inside
      · rw [checkLoop_of_past _ (Nat.le_of_eq atEnd.symm)]
        have nothingLeft : Trail (Follows scan.code) scan.bcptr [] scan.code.length := by
          rw [atEnd]
          exact .nil _
        refine .tiled nothingLeft ?_ ⟨rfl, ?_, fun _ _ => rfl⟩ behind
        · rintro ⟨starts, last, trail, exactSwitch⟩
          have := (trail.eq_of_stuck (no_instruction_at_end atEnd)).2
          have := (instructionAt_of_exactSwitch exactSwitch).2
          omega
        · intro start member
          cases member
      · rw [checkLoop_of_inside _ inside]
        have outcome := checkStep_outcome inside size
        generalize checkStep scan = result at outcome ⊢
        cases outcome with
        | passed instruction notExact advanced bciCases rewritten =>
            have bounds := instruction.length_pos
            refine LoopOutcome.cons instruction notExact advanced rewritten ?_
            refine inductionHypothesis ?_ ?_ ?_ ?_
            · rw [rewritten.sameLength]
              omega
            · rw [rewritten.sameLength]
              omega
            · rw [rewritten.sameLength]
              omega
            · rw [rewritten.sameLength]
              exact size
        | overranFast truncated sameCode sameBci past =>
            rw [ok_bind, checkLoop_of_past _ (by rw [sameCode]; omega)]
            exact .truncated ⟨[], _, .nil _, truncated⟩ (sameBci ▸ behind)
        | overranSlow notTruncated noInstruction sameCode synced past =>
            rw [ok_bind, checkLoop_of_past _ (by rw [sameCode]; omega)]
            have stuck : ∀ next, ¬ Follows scan.code scan.bcptr next := by
              rintro next ⟨length, instruction, _⟩
              exact noInstruction length instruction
            refine .overran ?_ ?_ (synced ▸ past)
            · rintro ⟨starts, last, trail, truncated⟩
              rw [(trail.eq_of_stuck stuck).2] at truncated
              exact notTruncated truncated
            · rintro ⟨starts, last, trail, atEnd⟩
              rw [(trail.eq_of_stuck stuck).2] at atEnd
              exact Nat.ne_of_lt inside atEnd
        | rejected which notTruncated onlyExact =>
            rw [error_bind]
            refine .rejected which ?_ ?_
            · rintro ⟨starts, last, trail, truncated⟩
              cases trail with
              | nil _ =>
                  exact notTruncated truncated
              | cons head tail =>
                  obtain ⟨length, instruction, rfl⟩ := head
                  obtain ⟨exactInstruction, _⟩ :=
                    instructionAt_of_exactSwitch (onlyExact length instruction)
                  have := instruction.length_unique exactInstruction
                  have := tail.first_le_last (follows_forward scan.code)
                  have := truncated.1
                  omega
            · rintro ⟨starts, last, trail, atEnd⟩
              cases trail with
              | nil _ =>
                  exact absurd atEnd (Nat.ne_of_lt inside)
              | cons head tail =>
                  obtain ⟨length, instruction, rfl⟩ := head
                  exact ⟨[], _, .nil _, onlyExact length instruction⟩

end PicoJvm.ScanRun
