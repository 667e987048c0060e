import PicoJvm.Loading.InvokeUses

/-!
# Rewritten calls

The second pass over the code gives each `invokespecial` on the list of collisions the index of
the copy. Patching an operand moves no instruction.
-/

namespace PicoJvm.InvokeConflicts

open PicoJvm.Lib
open PicoJvm.Lib.Bitmap
open PicoJvm.Lib.Fallible
open PicoJvm.Bytecodes
open PicoJvm.CodeBytes
open PicoJvm.CodeWalk

/-! ## One operand -/

section Operand

variable {code : Code} {bci value : Nat}

@[simp] theorem putJavaUshort_length : (putJavaUshort code bci value).length = code.length := by
  simp [putJavaUshort]

theorem putJavaUshort_elsewhere
    {place : Nat}
    (notHigh : place ≠ bci)
    (notLow : place ≠ bci + 1) :
    (putJavaUshort code bci value)[place]? = code[place]? := by
  rw [putJavaUshort, List.getElem?_set_ne (Ne.symm notLow), List.getElem?_set_ne (Ne.symm notHigh)]

theorem operandAt_put
    (complete : bci + 3 ≤ code.length)
    (small : value < 65536) :
    operandAt (putJavaUshort code (bci + 1) value) bci = value := by
  have high : byteD (putJavaUshort code (bci + 1) value) (bci + 1) = value / 256 := by
    rw [byteD, List.getD_eq_getElem?_getD, putJavaUshort, List.getElem?_set_ne (by omega),
      List.getElem?_set_self (by omega), Option.getD_some, UInt8.toNat_ofNat']
    omega
  have low : byteD (putJavaUshort code (bci + 1) value) (bci + 2) = value % 256 := by
    rw [byteD, List.getD_eq_getElem?_getD, putJavaUshort,
      List.getElem?_set_self (by rw [List.length_set]; omega), Option.getD_some,
      UInt8.toNat_ofNat']
  rw [operandAt, high, low]
  omega

theorem operandAt_congr
    {code' : Code}
    (sameHigh : code'[bci + 1]? = code[bci + 1]?)
    (sameLow : code'[bci + 2]? = code[bci + 2]?) :
    operandAt code' bci = operandAt code bci := by
  simp only [operandAt, byteD, List.getD_eq_getElem?_getD, sameHigh, sameLow]

end Operand

/-- The index an `invokespecial` has in the end. The copies start at `cpLength`. -/
def relocated (collisions : List Nat) (cpLength index : Nat) : Nat :=
  if index ∈ collisions then cpLength + collisions.idxOf index else index

/-- The loop over the relocation map writes at most once. -/
theorem relocateOperand_eq
    {collisions : List Nat}
    (distinct : collisions.Nodup)
    (cpLength : Nat) (code : Code) (bci index : Nat) :
    relocateOperand (collisions.zipIdx cpLength) code bci index =
      if index ∈ collisions then
        putJavaUshort code (bci + 1) (cpLength + collisions.idxOf index)
      else
        code := by
  induction collisions generalizing cpLength code with
  | nil =>
      rfl
  | cons collision collisions inductionHypothesis =>
      obtain ⟨notLater, distinct⟩ := List.nodup_cons.mp distinct
      have later := inductionHypothesis distinct (cpLength + 1)
      simp only [relocateOperand, List.zipIdx_cons, List.foldl_cons] at later ⊢
      by_cases here : collision = index
      · subst here
        rw [if_pos rfl, later, if_neg notLater, if_pos List.mem_cons_self, List.idxOf_cons_self]
        rfl
      · rw [if_neg here, later]
        by_cases member : index ∈ collisions
        · rw [if_pos member, if_pos (List.mem_cons_of_mem _ member), List.idxOf_cons_ne _ here]
          congr 1
          omega
        · rw [if_neg member, if_neg (List.not_mem_cons_of_ne_of_not_mem (Ne.symm here) member)]

/-! ## The code of a method -/

/-- What becomes of the code of a method with instructions at `starts`. -/
structure Relocated
    (collisions : List Nat) (cpLength : Nat) (starts : List Nat) (code code' : Code) : Prop where
  sameLength : code'.length = code.length
  opcode : ∀ start ∈ starts, byteD code' start = byteD code start
  special :
    ∀ start ∈ starts, byteD code start = invokespecial →
      operandAt code' start = relocated collisions cpLength (operandAt code start)
  virtual :
    ∀ start ∈ starts, byteD code start = invokevirtual →
      operandAt code' start = operandAt code start
  elsewhere :
    ∀ place,
      (∀ start ∈ starts, byteD code start = invokespecial → operandAt code start ∈ collisions →
        place ≠ start + 1 ∧ place ≠ start + 2) →
      code'[place]? = code[place]?

/-- The loop body changes the operand of an `invokespecial`, and the instruction stays one. -/
theorem relocateInvoke_spec
    {collisions : List Nat} {cpLength : Nat}
    (distinct : collisions.Nodup)
    (fits : cpLength + collisions.length ≤ 65535)
    {code : Code} {here next : Nat}
    (step : Next code here next) :
    ∃ code', relocateInvoke (collisions.zipIdx cpLength) code here (byteD code here) = .ok code' ∧
      Relocated collisions cpLength [here] code code' ∧ Next code' here next := by
  by_cases isSpecial : byteD code here = invokespecial
  · obtain ⟨rfl, complete⟩ := next_of_call step (Or.inl isSpecial)
    rw [relocateInvoke, if_pos isSpecial, getJavaUshort_operand complete]
    refine ⟨_, rfl, ?_⟩
    rw [relocateOperand_eq distinct]
    by_cases collides : operandAt code here ∈ collisions
    · rw [if_pos collides]
      have small := List.idxOf_lt_length_of_mem collides
      have sameOpcode : byteD (putJavaUshort code (here + 1)
          (cpLength + collisions.idxOf (operandAt code here))) here = byteD code here :=
        ScanStep.byteD_of_getElem?_eq (putJavaUshort_elsewhere (by omega) (by omega))
      refine ⟨⟨putJavaUshort_length, ?_, ?_, ?_, ?_⟩, ?_⟩
      · intro start member
        cases List.mem_singleton.mp member
        exact sameOpcode
      · intro start member _
        cases List.mem_singleton.mp member
        rw [operandAt_put complete (by omega), relocated, if_pos collides]
      · intro start member isVirtual
        cases List.mem_singleton.mp member
        rw [isSpecial] at isVirtual
        cases isVirtual
      · intro place outside
        obtain ⟨notHigh, notLow⟩ := outside here List.mem_cons_self isSpecial collides
        exact putJavaUshort_elsewhere notHigh notLow
      · obtain ⟨ofLength, _⟩ := lengthFor_call (Or.inl isSpecial)
        apply Next.fixed
        · rw [putJavaUshort_length]
          exact step.inside
        · rw [sameOpcode]
          exact ofLength
        · decide
        · intro _
          rw [putJavaUshort_length]
          exact complete
    · rw [if_neg collides]
      refine ⟨⟨rfl, fun _ _ => rfl, ?_, fun _ _ _ => rfl, fun _ _ => rfl⟩, step⟩
      intro start member _
      cases List.mem_singleton.mp member
      rw [relocated, if_neg collides]
  · rw [relocateInvoke, if_neg isSpecial]
    refine ⟨code, rfl, ⟨rfl, fun _ _ => rfl, ?_, fun _ _ _ => rfl, fun _ _ => rfl⟩, step⟩
    intro start member isSpecial'
    cases List.mem_singleton.mp member
    exact absurd isSpecial' isSpecial

/-- Relocating one instruction and then all later ones. -/
theorem Relocated.cons
    {collisions : List Nat} {cpLength : Nat}
    {code middle code' : Code} {here next last : Nat} {starts : List Nat}
    (step : Next code here next)
    (first : Relocated collisions cpLength [here] code middle)
    (agree : ∀ place, next ≤ place → middle[place]? = code[place]?)
    (trail : Trail (Next middle) next starts last)
    (rest : Relocated collisions cpLength starts middle code') :
    Relocated collisions cpLength (here :: starts) code code' := by
  have later : ∀ start ∈ starts, next ≤ start := fun start member =>
    (trail.mem_bounds (next_forward middle) member).1
  have forward := step.forward
  have sameOpcode : ∀ start ∈ starts, byteD middle start = byteD code start := by
    intro start member
    exact ScanStep.byteD_of_getElem?_eq (agree start (later start member))
  have sameOperand : ∀ start ∈ starts, operandAt middle start = operandAt code start := by
    intro start member
    have behind := later start member
    exact operandAt_congr (agree _ (by omega)) (agree _ (by omega))
  have before : ∀ place, place < next → code'[place]? = middle[place]? := by
    intro place earlier
    apply rest.elsewhere
    intro start member _ _
    have behind := later start member
    omega
  have operandOfHere : IsCall (byteD code here) → operandAt code' here = operandAt middle here := by
    intro isCall
    have complete := (next_of_call step isCall).1
    exact operandAt_congr (before _ (by omega)) (before _ (by omega))
  refine ⟨rest.sameLength.trans first.sameLength, ?_, ?_, ?_, ?_⟩
  · intro start member
    rcases List.mem_cons.mp member with rfl | inRest
    · rw [ScanStep.byteD_of_getElem?_eq (before start forward),
        first.opcode start List.mem_cons_self]
    · rw [rest.opcode start inRest, sameOpcode start inRest]
  · intro start member isSpecial
    rcases List.mem_cons.mp member with rfl | inRest
    · rw [operandOfHere (Or.inl isSpecial), first.special start List.mem_cons_self isSpecial]
    · rw [rest.special start inRest (by rw [sameOpcode start inRest, isSpecial]),
        sameOperand start inRest]
  · intro start member isVirtual
    rcases List.mem_cons.mp member with rfl | inRest
    · rw [operandOfHere (Or.inr isVirtual), first.virtual start List.mem_cons_self isVirtual]
    · rw [rest.virtual start inRest (by rw [sameOpcode start inRest, isVirtual]),
        sameOperand start inRest]
  · intro place outside
    rw [rest.elsewhere place, first.elsewhere place]
    · intro start member
      cases List.mem_singleton.mp member
      exact outside here List.mem_cons_self
    · intro start member isSpecial
      rw [sameOpcode start member] at isSpecial
      rw [sameOperand start member]
      exact outside start (List.mem_cons_of_mem _ member) isSpecial

theorem relocateCode_spec
    {collisions : List Nat} {cpLength : Nat}
    (distinct : collisions.Nodup)
    (fits : cpLength + collisions.length ≤ 65535)
    {code : Code} {bci last : Nat} {starts : List Nat}
    (trail : Trail (Next code) bci starts last)
    (past : code.length ≤ last)
    (fuel : Nat)
    (enough : starts.length < fuel) :
    ∃ code', relocateCode (collisions.zipIdx cpLength) fuel bci code = .ok code' ∧
      Relocated collisions cpLength starts code code' ∧
      Trail (Next code') bci starts last := by
  induction starts generalizing code bci fuel with
  | nil =>
      cases trail
      cases fuel with
      | zero =>
          cases enough
      | succ fuel =>
          rw [relocateCode, if_neg (Nat.not_lt.mpr past)]
          refine ⟨code, rfl, ⟨rfl, ?_, ?_, ?_, fun _ _ => rfl⟩, .nil _⟩ <;>
            · intro start member
              cases member
  | cons start starts inductionHypothesis =>
      cases trail with
      | @cons _ next _ _ step rest =>
        cases fuel with
        | zero =>
            cases enough
        | succ fuel =>
            obtain ⟨middle, run, first, stepAfter⟩ := relocateInvoke_spec distinct fits step
            have forward := step.forward
            have agree : ∀ place, next ≤ place → middle[place]? = code[place]? := by
              intro place behind
              apply first.elsewhere
              intro start member isSpecial _
              cases List.mem_singleton.mp member
              have complete := (next_of_call step (Or.inl isSpecial)).1
              omega
            have restAfter : Trail (Next middle) next starts last := by
              apply rest.mono_from (next_forward code)
              intro here there behind stepThere
              apply stepThere.congr first.sameLength
              intro place lower _
              exact agree place (by omega)
            obtain ⟨code', runRest, relocatedRest, trailRest⟩ :=
              inductionHypothesis restAfter (by rw [first.sameLength]; exact past) fuel
                (Nat.lt_of_succ_lt_succ enough)
            refine ⟨code', ?_, first.cons step agree restAfter relocatedRest, ?_⟩
            · rw [relocateCode, if_pos step.inside]
              simp only [byteAt_eq step.inside, inCode, ok_bind, run, stepAfter.nextBci_eq]
              exact runRest
            · apply Trail.cons (stepAfter.congr relocatedRest.sameLength ?_) trailRest
              intro place _ earlier
              apply relocatedRest.elsewhere
              intro start member _ _
              have behind := (restAfter.mem_bounds (next_forward middle) member).1
              omega

/-- The calls of relocated code. -/
def relocatedCall (collisions : List Nat) (cpLength : Nat) (call : Nat × Nat) : Nat × Nat :=
  if call.1 = invokespecial then
    (call.1, relocated collisions cpLength call.2)
  else
    call

theorem Relocated.callsAt_eq
    {collisions : List Nat} {cpLength : Nat} {code code' : Code} {starts : List Nat}
    (relocated : Relocated collisions cpLength starts code code') :
    callsAt code' starts = (callsAt code starts).map (relocatedCall collisions cpLength) := by
  rw [callsAt, callsAt, List.map_map]
  have sameStarts : starts.filter (fun start => IsCall (byteD code' start)) =
      starts.filter (fun start => IsCall (byteD code start)) := by
    apply List.filter_congr
    intro start member
    rw [relocated.opcode start member]
  rw [sameStarts]
  apply List.map_congr_left
  intro start member
  obtain ⟨isStart, isCall⟩ := List.mem_filter.mp member
  rw [relocated.opcode start isStart, Function.comp_apply, relocatedCall]
  rcases of_decide_eq_true isCall with isSpecial | isVirtual
  · rw [if_pos isSpecial, relocated.special start isStart isSpecial]
  · have notSpecial : byteD code start ≠ invokespecial := by
      rw [isVirtual]
      decide
    rw [if_neg notSpecial, relocated.virtual start isStart isVirtual]

end PicoJvm.InvokeConflicts
