import PicoJvm.Execution.SwitchDispatch
import PicoJvm.Lib.MarkedCycles

/-!
# Timer ticks on the way through a method

Where each bytecode leads, and whether the interpreter looks at the timer on the way. A loop that
never does keeps the processor from all other threads.
-/

namespace PicoJvm.Preemption

open PicoJvm.Lib.MarkedCycles
open PicoJvm.Bytecodes
open PicoJvm.CodeBytes
open PicoJvm.CheckedCode
open PicoJvm.CodeWalk (startsOf)
open PicoJvm.SwitchDispatch
open PicoJvm.Tiling (IsSwitch)
open PicoJvm.Verifier

/-! ## The implementations of the bytecodes -/

/-- A new value of `g_jpc`, as a bytecode index, and whether `check_timer_tick` or `timer_tick` is
called with it. -/
structure Transfer where
  target : Int
  polled : Bool
  deriving DecidableEq, Repr

/-- What a bytecode pops, as far as it decides where the bytecode leads: the outcome of a
comparison, the key of a switch. -/
structure Popped where
  condition : Bool
  key : Int
  deriving DecidableEq, Repr

/-- `ADVANCE(count)`. -/
def advance (bci count : Nat) : Transfer :=
  ⟨bci + count, false⟩

/-- `branch(cond)`: only taken branches look at the timer. -/
def branch (code : Code) (bci : Nat) (condition : Bool) : Transfer :=
  if condition then
    ⟨branchDestination code bci, true⟩
  else
    advance bci 3

/-- `goto_w`, which adds `GET_INT(0)`. -/
def bcImplGotoW (code : Code) (bci : Nat) : Transfer :=
  ⟨bci + toJint (javaWord code (bci + 1)), false⟩

/-- How far each bytecode of a class file advances when it neither jumps, returns nor throws. A
bytecode that quickens itself is executed again in its fast form and advances there; for an
invocation it is the return that advances, by `return_advance`. -/
def advances : List (Option Nat) :=
  List.replicate 16 (some 1) ++      -- nop .. dconst_1
  [some 2, some 3] ++                -- bipush, sipush
  [some 2, some 3, some 3] ++        -- ldc, ldc_w, ldc2_w
  List.replicate 5 (some 2) ++       -- iload .. aload
  List.replicate 28 (some 1) ++      -- iload_0 .. saload
  List.replicate 5 (some 2) ++       -- istore .. astore
  List.replicate 73 (some 1) ++      -- istore_0 .. lxor
  [some 3] ++                        -- iinc
  List.replicate 20 (some 1) ++      -- i2l .. dcmpg
  List.replicate 25 none ++          -- ifeq .. return
  List.replicate 7 (some 3) ++       -- getstatic .. invokestatic
  [some 5, none] ++                  -- invokeinterface, xxxunusedxxx
  [some 3, some 2, some 3] ++        -- new, newarray, anewarray
  [some 1, none] ++                  -- arraylength, athrow
  [some 3, some 3] ++                -- checkcast, instanceof
  [some 1, some 1] ++                -- monitorenter, monitorexit
  [none, some 4]                     -- wide, multianewarray

/-- The advance of a bytecode. -/
def advanceOf (opcode : Nat) : Option Nat :=
  advances.getD opcode none

/-- The advance of a bytecode after `wide`, from its own place. -/
def wideAdvanceOf (opcode : Nat) : Option Nat :=
  if opcode = iinc then
    some 5
  else if (iload ≤ opcode ∧ opcode ≤ aload) ∨ (istore ≤ opcode ∧ opcode ≤ astore) then
    some 3
  else
    none

def gotoBytecode : Nat := 167
def gotoW : Nat := 200

/-- The two-way branches: `ifeq` to `if_acmpne`, `ifnull` and `ifnonnull`. -/
def IsConditional (opcode : Nat) : Prop :=
  (153 ≤ opcode ∧ opcode < gotoBytecode) ∨ opcode = 198 ∨ opcode = 199

instance (opcode : Nat) : Decidable (IsConditional opcode) :=
  inferInstanceAs (Decidable (_ ∨ _))

/-- The bytecode at `bci`, unless it returns or throws. -/
def bcImpl (code : Code) (bci : Nat) (popped : Popped) : Option Transfer :=
  let opcode := byteD code bci
  if IsConditional opcode then
    some (branch code bci popped.condition)
  else if opcode = gotoBytecode then
    some (branch code bci true)
  else if IsSwitch opcode then
    (dispatchSwitch code 0 bci popped.key).toOption.map fun target => ⟨target, true⟩
  else if opcode = wide then
    (wideAdvanceOf (byteD code (bci + 1))).map (advance (bci + 1))
  else if opcode = gotoW then
    some (bcImplGotoW code bci)
  else
    (advanceOf opcode).map (advance bci)

/-- The `exception_bci` that an exception of the bytecode at `bci` may be found with: `monitorenter`
advances before it locks. -/
def exceptionBcis (code : Code) (bci : Nat) : List Nat :=
  if byteD code bci = monitorenter then [bci, bci + 1] else [bci]

/-- The end of `find_exception_frame`, in the frame of the handler. -/
def resumeAtHandler (exceptionBci : Nat) (handler : Handler) : Transfer :=
  ⟨handler.handlerIndex, decide (handler.handlerIndex ≤ exceptionBci)⟩

/-! ## The flow of control -/

/-- `Flows method here next polled`: an edge of the control-flow graph of the method. -/
inductive Flows (method : Method) : Nat → Nat → Bool → Prop
  | executes {here next : Nat} {polled : Bool} (popped : Popped) :
      here ∈ startsOf method.code →
      bcImpl method.code here popped = some ⟨next, polled⟩ →
      Flows method here next polled
  | throws {here next exceptionBci : Nat} {polled : Bool} {handler : Handler} :
      here ∈ startsOf method.code →
      exceptionBci ∈ exceptionBcis method.code here →
      handler ∈ method.exceptionTable →
      handler.startIndex ≤ exceptionBci →
      exceptionBci < handler.endIndex →
      resumeAtHandler exceptionBci handler = ⟨next, polled⟩ →
      Flows method here next polled

/-- No loop of the method runs without looking at the timer. -/
def Preempts (method : Method) : Prop :=
  EveryCycleMarked (Flows method)

/-- A `goto_w` of the method jumps back from `here` to `next`. -/
def JumpsBack (method : Method) (here next : Nat) : Prop :=
  here ∈ startsOf method.code ∧ byteD method.code here = gotoW ∧
    (bcImplGotoW method.code here).target = next ∧ next ≤ here

/-- A `goto_w` that jumps back is reached again from its target on a way that never looks at the
timer. -/
def ReturnsUnpolled (method : Method) : Prop :=
  ∃ here next, JumpsBack method here next ∧
    Relation.ReflTransGen (Unmarked (Flows method)) next here

/-! ## Only `goto_w` leads back without a poll -/

theorem advanceOf_pos
    {opcode count : Nat}
    (advances : advanceOf opcode = some count) :
    0 < count := by
  have allPositive : ∀ entry ∈ Preemption.advances, ∀ count ∈ entry, 0 < count := by
    decide +kernel
  rw [advanceOf, List.getD_eq_getElem?_getD] at advances
  cases entry : Preemption.advances[opcode]? with
  | none =>
      rw [entry] at advances
      cases advances
  | some found =>
      rw [entry] at advances
      exact allPositive found (List.mem_of_getElem? entry) count advances

theorem wideAdvanceOf_pos
    {opcode count : Nat}
    (advances : wideAdvanceOf opcode = some count) :
    0 < count := by
  unfold wideAdvanceOf at advances
  split_ifs at advances <;> cases advances <;> decide

theorem forward_of_advance
    {start bci next : Nat} {counts : Option Nat} {polled : Bool}
    (positive : ∀ count, counts = some count → 0 < count)
    (notBefore : start ≤ bci)
    (leads : counts.map (advance bci) = some ⟨next, polled⟩) :
    start < next := by
  obtain ⟨count, isCount, equal⟩ := Option.map_eq_some_iff.mp leads
  have := positive count isCount
  injection equal with target _
  omega

theorem branch_unpolled
    {code : Code} {bci next : Nat} {condition : Bool}
    (leads : branch code bci condition = ⟨next, false⟩) :
    bci < next := by
  unfold branch at leads
  split at leads
  · injection leads with _ impossible
    cases impossible
  · injection leads with target _
    omega

/-- The unpolled transfers of a bytecode lead forward, but for those of `goto_w`. -/
theorem bcImpl_unpolled
    {code : Code} {bci next : Nat} {popped : Popped}
    (leads : bcImpl code bci popped = some ⟨next, false⟩) :
    bci < next ∨ byteD code bci = gotoW ∧ (bcImplGotoW code bci).target = next := by
  unfold bcImpl at leads
  dsimp only at leads
  split_ifs at leads with conditional isGoto isSwitch isWide isGotoW
  · exact Or.inl (branch_unpolled (Option.some.inj leads))
  · exact Or.inl (branch_unpolled (Option.some.inj leads))
  · obtain ⟨target, _, equal⟩ := Option.map_eq_some_iff.mp leads
    cases equal
  · exact Or.inl (forward_of_advance (fun _ => wideAdvanceOf_pos) (Nat.le_succ bci) leads)
  · injection leads with equal
    exact Or.inr ⟨isGotoW, by rw [equal]⟩
  · exact Or.inl (forward_of_advance (fun _ => advanceOf_pos) (Nat.le_refl bci) leads)

theorem flows_unpolled
    {method : Method} {here next : Nat}
    (flows : Flows method here next false) :
    here < next ∨ JumpsBack method here next := by
  cases flows with
  | executes popped isStart leads =>
      rcases bcImpl_unpolled leads with forward | ⟨isGotoW, target⟩
      · exact Or.inl forward
      · rcases Nat.lt_or_ge here next with forward | back
        · exact Or.inl forward
        · exact Or.inr ⟨isStart, isGotoW, target, back⟩
  | @throws exceptionBci _ _ _ isBci _ _ _ resumes =>
      injection resumes with target notPolled
      have later := of_decide_eq_false notPolled
      have notBefore : here ≤ exceptionBci := by
        unfold exceptionBcis at isBci
        split at isBci <;> simp at isBci <;> omega
      exact Or.inl (by omega)

/-- A `goto_w` that jumps back does so without a poll. -/
theorem JumpsBack.flows
    {method : Method} {here next : Nat}
    (back : JumpsBack method here next) :
    Flows method here next false := by
  obtain ⟨isStart, isGotoW, target, _⟩ := back
  apply Flows.executes ⟨false, 0⟩ isStart
  rw [bcImpl, isGotoW]
  have unpolled : bcImplGotoW method.code here = ⟨next, false⟩ := by
    rw [← target]
    rfl
  rw [← unpolled]
  rfl

/-- Every loop of a method looks at the timer exactly when no `goto_w` that jumps back is reached
again unpolled. -/
theorem preempts_iff (method : Method) :
    Preempts method ↔ ¬ ReturnsUnpolled method := by
  have cycles := everyCycleMarked_iff (Flows method)
    (fun _ _ flows => flows_unpolled flows) (fun _ _ back => JumpsBack.flows back)
  unfold Preempts ReturnsUnpolled
  rw [cycles]
  push Not
  rfl

/-- A method all of whose `goto_w`s jump forward is preempted in every loop. -/
theorem preempts_of_forward
    {method : Method}
    (forward : ∀ here next, ¬ JumpsBack method here next) :
    Preempts method := by
  apply (preempts_iff method).mpr
  rintro ⟨here, next, back, _⟩
  exact forward here next back

/-! ## A loop without a poll -/

/-- Loaded code that the check and the verifier have accepted. -/
def Accepted (method : Method) (world : ClassWorld) : Prop :=
  (∃ classFile loaded, classFile.isNativeOrAbstract = false ∧ Accepts classFile loaded ∧
    method.code = loaded.code) ∧
  verify method world = .ok ()

/-- A `goto_w` to itself. -/
def gotoItself : Method where
  code := [200, 0, 0, 0, 0]
  maxStack := 0
  maxLocals := 0
  isStatic := true
  isObjectInitializer := false
  holderIsObject := false
  signature := ⟨[], none⟩
  constants := []
  exceptionTable := []
  stackmaps := [⟨0, [], []⟩]

theorem gotoItself_unpolled :
    Accepted gotoItself plainWorld ∧ ¬ Preempts gotoItself := by
  have verified : verify gotoItself plainWorld = .ok () := by decide +kernel
  have checked : ∃ classFile loaded, classFile.isNativeOrAbstract = false ∧
      Accepts classFile loaded ∧ gotoItself.code = loaded.code :=
    ⟨plainMethod gotoItself.code (by decide), _, rfl, Or.inl rfl, rfl⟩
  refine ⟨⟨checked, verified⟩, ?_⟩
  rw [preempts_iff, not_not]
  have back : JumpsBack gotoItself 0 0 :=
    ⟨by decide, by decide, by decide +kernel, Nat.le_refl 0⟩
  exact ⟨0, 0, back, .refl⟩

end PicoJvm.Preemption
