import PicoJvm.Loading.InvokeConflicts

/-!
# The operands that are collected

The bitmaps hold the operands of all calls of a class, provided that they have room for them.
-/

namespace PicoJvm.InvokeConflicts

open PicoJvm.Lib
open PicoJvm.Lib.Bitmap
open PicoJvm.Lib.Fallible
open PicoJvm.Bytecodes
open PicoJvm.CodeBytes
open PicoJvm.CodeWalk

/-! ## Calls -/

/-- The bytecodes that are collected. -/
def IsCall (opcode : Nat) : Prop :=
  opcode = invokespecial ∨ opcode = invokevirtual

instance (opcode : Nat) : Decidable (IsCall opcode) :=
  inferInstanceAs (Decidable (_ ∨ _))

/-- The operand of the call at `start`. -/
def operandAt (code : Code) (start : Nat) : Nat :=
  byteD code (start + 1) * 256 + byteD code (start + 2)

/-- The bytecodes and the operands of the calls among some instructions. -/
def callsAt (code : Code) (starts : List Nat) : List (Nat × Nat) :=
  (starts.filter fun start => IsCall (byteD code start)).map fun start =>
    (byteD code start, operandAt code start)

/-- The calls of a class. -/
def callsOf (methods : List Method) : List (Nat × Nat) :=
  methods.flatMap fun method => callsAt method.code (startsOf method.code)

theorem callsAt_cons_call
    {code : Code} {start : Nat} (starts : List Nat)
    (isCall : IsCall (byteD code start)) :
    callsAt code (start :: starts) =
      (byteD code start, operandAt code start) :: callsAt code starts := by
  simp [callsAt, isCall]

theorem callsAt_cons_other
    {code : Code} {start : Nat} (starts : List Nat)
    (notCall : ¬ IsCall (byteD code start)) :
    callsAt code (start :: starts) = callsAt code starts := by
  simp [callsAt, notCall]

theorem lengthFor_call
    {opcode : Nat}
    (isCall : IsCall opcode) :
    lengthFor opcode = (3 : Nat) ∧ tableswitch ≤ opcode := by
  rcases isCall with rfl | rfl <;> decide

/-- A call is three bytes long, and all of them are there. -/
theorem next_of_call
    {code : Code} {here next : Nat}
    (step : Next code here next)
    (isCall : IsCall (byteD code here)) :
    next = here + 3 ∧ here + 3 ≤ code.length := by
  obtain ⟨ofLength, slow⟩ := lengthFor_call isCall
  have fixed := nextBci_fixed step.inside ofLength (by decide)
  rw [step.nextBci_eq] at fixed
  injection fixed with same
  have complete := step.complete slow
  omega

theorem getJavaUshort_operand
    {code : Code} {start : Nat}
    (complete : start + 3 ≤ code.length) :
    getJavaUshort code (start + 1) = .ok (operandAt code start) := by
  rw [getJavaUshort, byteAt_eq (by omega), ok_bind, byteAt_eq (by omega)]
  rfl

/-! ## Recording calls -/

/-- What is done with one call. -/
def recordCall (call : Nat × Nat) (ids : InvokeIds) : Except ConflictFault InvokeIds :=
  if call.1 = invokespecial then do
    let special ← inArray (mark ids.special call.2)
    return { ids with special }
  else do
    let virtual ← inArray (mark ids.virtual call.2)
    return { ids with virtual }

def recordCalls : List (Nat × Nat) → InvokeIds → Except ConflictFault InvokeIds
  | [], ids => .ok ids
  | call :: calls, ids => recordCall call ids >>= recordCalls calls

theorem recordCalls_cons (call : Nat × Nat) (calls : List (Nat × Nat)) (ids : InvokeIds) :
    recordCalls (call :: calls) ids = recordCall call ids >>= recordCalls calls :=
  rfl

theorem recordCalls_append
    (calls later : List (Nat × Nat)) (ids : InvokeIds) :
    recordCalls (calls ++ later) ids = recordCalls calls ids >>= recordCalls later := by
  induction calls generalizing ids with
  | nil =>
      rfl
  | cons call calls inductionHypothesis =>
      rw [List.cons_append, recordCalls_cons, recordCalls_cons]
      cases recordCall call ids with
      | error reason =>
          rfl
      | ok ids =>
          rw [ok_bind, ok_bind, inductionHypothesis]

theorem fillInInvoke_call
    {code : Code} {bci : Nat}
    (isCall : IsCall (byteD code bci))
    (complete : bci + 3 ≤ code.length)
    (ids : InvokeIds) :
    fillInInvoke code bci (byteD code bci) ids =
      recordCall (byteD code bci, operandAt code bci) ids := by
  rw [fillInInvoke, recordCall, getJavaUshort_operand complete]
  by_cases special : byteD code bci = invokespecial
  · rw [if_pos special, if_pos special]
    rfl
  · rw [if_neg special, if_neg special, if_pos (isCall.resolve_left special)]
    rfl

theorem fillInInvoke_other
    {code : Code} {bci : Nat}
    (notCall : ¬ IsCall (byteD code bci))
    (ids : InvokeIds) :
    fillInInvoke code bci (byteD code bci) ids = .ok ids := by
  obtain ⟨notSpecial, notVirtual⟩ := not_or.mp notCall
  rw [fillInInvoke, if_neg notSpecial, if_neg notVirtual]

/-- There are no calls in the last two bytes. -/
theorem callsAt_near_end
    {code : Code} {bci last : Nat} {starts : List Nat}
    (trail : Trail (Next code) bci starts last)
    (nearEnd : code.length ≤ bci + 2) :
    callsAt code starts = [] := by
  induction trail with
  | nil _ =>
      rfl
  | @cons here _ _ _ step _ inductionHypothesis =>
      have forward := step.forward
      have notCall : ¬ IsCall (byteD code here) := by
        intro isCall
        have complete := (next_of_call step isCall).2
        omega
      rw [callsAt_cons_other _ notCall]
      exact inductionHypothesis (by omega)

/-- The loop over the code of a method records its calls. -/
theorem fillInCode_eq
    {code : Code} {bci last : Nat} {starts : List Nat}
    (trail : Trail (Next code) bci starts last)
    (past : code.length ≤ last)
    (fuel : Nat)
    (enough : starts.length < fuel)
    (ids : InvokeIds) :
    fillInCode code fuel bci ids = recordCalls (callsAt code starts) ids := by
  induction trail generalizing fuel ids with
  | nil here =>
      cases fuel with
      | zero =>
          cases enough
      | succ fuel =>
          rw [fillInCode, if_neg (by omega)]
          rfl
  | @cons here next _ starts step rest inductionHypothesis =>
      cases fuel with
      | zero =>
          cases enough
      | succ fuel =>
          have later := inductionHypothesis past fuel (Nat.lt_of_succ_lt_succ enough)
          rw [fillInCode]
          by_cases goesOn : here < code.length - 2
          · rw [if_pos goesOn]
            simp only [byteAt_eq step.inside, inCode, ok_bind, step.nextBci_eq]
            by_cases isCall : IsCall (byteD code here)
            · rw [callsAt_cons_call _ isCall,
                fillInInvoke_call isCall (next_of_call step isCall).2, recordCalls]
              cases recordCall (byteD code here, operandAt code here) ids with
              | error reason =>
                  rfl
              | ok ids =>
                  exact later ids
            · rw [callsAt_cons_other _ isCall, fillInInvoke_other isCall]
              exact later ids
          · rw [if_neg goesOn, callsAt_near_end (.cons step rest) (by omega)]
            rfl

theorem fillInInvokeIndexes_eq
    {methods : List Method}
    (walked : ∀ method ∈ methods, Walks method.code (startsOf method.code))
    (ids : InvokeIds) :
    fillInInvokeIndexes methods ids = recordCalls (callsOf methods) ids := by
  induction methods generalizing ids with
  | nil =>
      rfl
  | cons method methods inductionHypothesis =>
      obtain ⟨last, trail, past⟩ := walked method List.mem_cons_self
      have later := inductionHypothesis fun method member =>
        walked method (List.mem_cons_of_mem _ member)
      have few := length_starts_le trail
      rw [fillInInvokeIndexes, fillInCode_eq trail past _ (by omega), callsOf,
        List.flatMap_cons, recordCalls_append]
      cases recordCalls (callsAt method.code (startsOf method.code)) ids with
      | error reason =>
          rfl
      | ok ids =>
          exact later ids

/-! ## What is recorded -/

/-- The bitmaps hold some calls. -/
structure Recorded (size : Nat) (calls : List (Nat × Nat)) (ids : InvokeIds) : Prop where
  specialLength : ids.special.length = size
  virtualLength : ids.virtual.length = size
  special : ∀ index, Holds ids.special index ↔ (invokespecial, index) ∈ calls
  virtual : ∀ index, Holds ids.virtual index ↔ (invokevirtual, index) ∈ calls

theorem recorded_nil (size : Nat) :
    Recorded size [] ⟨List.replicate size 0, List.replicate size 0⟩ := by
  refine ⟨List.length_replicate, List.length_replicate, ?_, ?_⟩ <;>
    · intro index
      exact iff_of_false (not_holds_zero size index) List.not_mem_nil

variable {size : Nat} {calls done : List (Nat × Nat)} {ids : InvokeIds}

theorem Recorded.snoc
    {call : Nat × Nat}
    (recorded : Recorded size done ids)
    (isCall : IsCall call.1)
    (inside : call.2 / 32 < size) :
    ∃ next, recordCall call ids = .ok next ∧ Recorded size (done ++ [call]) next := by
  obtain ⟨opcode, operand⟩ := call
  rw [recordCall]
  rcases isCall with rfl | rfl
  · obtain ⟨special, marked, sameLength, holds⟩ :=
      mark_of_lt (recorded.specialLength ▸ inside)
    rw [if_pos rfl, marked]
    refine ⟨{ ids with special }, rfl, sameLength.trans recorded.specialLength,
      recorded.virtualLength, ?_, ?_⟩
    · intro index
      rw [holds, recorded.special]
      simp [or_comm]
    · intro index
      rw [recorded.virtual]
      simp [invokespecial, invokevirtual]
  · obtain ⟨virtual, marked, sameLength, holds⟩ :=
      mark_of_lt (recorded.virtualLength ▸ inside)
    have notSpecial : invokevirtual ≠ invokespecial := by
      decide
    rw [if_neg notSpecial, marked]
    refine ⟨{ ids with virtual }, rfl, recorded.specialLength,
      sameLength.trans recorded.virtualLength, ?_, ?_⟩
    · intro index
      rw [recorded.special]
      simp [invokespecial, invokevirtual]
    · intro index
      rw [holds, recorded.virtual]
      simp [or_comm]

theorem recordCall_outside
    {call : Nat × Nat}
    (recorded : Recorded size done ids)
    (outside : ¬ call.2 / 32 < size) :
    recordCall call ids = .error .outsideArray := by
  have noSpecial : mark ids.special call.2 = none := by
    rw [mark, List.getElem?_eq_none (by rw [recorded.specialLength]; omega)]
    rfl
  have noVirtual : mark ids.virtual call.2 = none := by
    rw [mark, List.getElem?_eq_none (by rw [recorded.virtualLength]; omega)]
    rfl
  rw [recordCall, noSpecial, noVirtual]
  split <;> rfl

/-- Calls with room in the bitmaps are all recorded. -/
theorem recordCalls_inside
    (recorded : Recorded size done ids)
    (areCalls : ∀ call ∈ calls, IsCall call.1)
    (inside : ∀ call ∈ calls, call.2 / 32 < size) :
    ∃ next, recordCalls calls ids = .ok next ∧ Recorded size (done ++ calls) next := by
  induction calls generalizing done ids with
  | nil =>
      exact ⟨ids, rfl, (List.append_nil done).symm ▸ recorded⟩
  | cons call calls inductionHypothesis =>
      obtain ⟨isCall, areCalls⟩ := List.forall_mem_cons.mp areCalls
      obtain ⟨room, inside⟩ := List.forall_mem_cons.mp inside
      obtain ⟨next, run, recordedNext⟩ := recorded.snoc isCall room
      rw [recordCalls_cons, run, ok_bind, List.append_cons]
      exact inductionHypothesis recordedNext areCalls inside

/-- The first call without room in the bitmaps is written past their end. -/
theorem recordCalls_outside
    (recorded : Recorded size done ids)
    (areCalls : ∀ call ∈ calls, IsCall call.1)
    (outside : ∃ call ∈ calls, ¬ call.2 / 32 < size) :
    recordCalls calls ids = .error .outsideArray := by
  induction calls generalizing done ids with
  | nil =>
      obtain ⟨_, member, _⟩ := outside
      cases member
  | cons call calls inductionHypothesis =>
      obtain ⟨isCall, areCalls⟩ := List.forall_mem_cons.mp areCalls
      rw [recordCalls_cons]
      by_cases room : call.2 / 32 < size
      · obtain ⟨next, run, recordedNext⟩ := recorded.snoc isCall room
        rw [run, ok_bind]
        apply inductionHypothesis recordedNext areCalls
        obtain ⟨other, member, noRoom⟩ := outside
        rcases List.mem_cons.mp member with rfl | later
        · exact absurd room noRoom
        · exact ⟨other, later, noRoom⟩
      · rw [recordCall_outside recorded room]
        rfl

theorem isCall_of_mem_callsAt
    {code : Code} {starts : List Nat} {call : Nat × Nat}
    (member : call ∈ callsAt code starts) :
    IsCall call.1 := by
  obtain ⟨start, isStart, rfl⟩ := List.mem_map.mp member
  exact of_decide_eq_true (List.mem_filter.mp isStart).2

theorem isCall_of_mem_callsOf
    {methods : List Method} {call : Nat × Nat}
    (member : call ∈ callsOf methods) :
    IsCall call.1 := by
  obtain ⟨method, _, inMethod⟩ := List.mem_flatMap.mp member
  exact isCall_of_mem_callsAt inMethod

end PicoJvm.InvokeConflicts
