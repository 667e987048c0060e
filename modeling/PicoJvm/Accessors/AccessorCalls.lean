import PicoJvm.Accessors.FieldBytecodes

/-!
# Accessors and their bytecodes

When the entry of a converted method does what its bytecodes do, and when the words it took are
left alone.
-/

namespace PicoJvm.Accessors

open PicoJvm.Execution (Exn TableEntry exceptionHandlerBciFor)
open PicoJvm.Signatures (BasicType)

/-! ## Runs -/

section Runs

variable {machine : Machine} {table : List TableEntry} {parameter : Word}

theorem run_succ (fuel : Nat) (frame : Frame) :
    run machine table parameter (fuel + 1) frame =
      match step machine table parameter frame with
      | .next frame => run machine table parameter fuel frame
      | .done outcome => some outcome
      | .stuck => none :=
  rfl

theorem run_more
    {fuel : Nat}
    {frame : Frame}
    {outcome : Outcome}
    (ends : run machine table parameter fuel frame = some outcome)
    (more : Nat) :
    run machine table parameter (fuel + more) frame = some outcome := by
  induction fuel generalizing frame with
  | zero => cases ends
  | succ fuel induction =>
      rw [Nat.add_right_comm]
      rw [run_succ] at ends ⊢
      cases taken : step machine table parameter frame with
      | next frame' =>
          rw [taken] at ends
          exact induction ends
      | done outcome' =>
          rw [taken] at ends
          exact ends
      | stuck =>
          rw [taken] at ends
          cases ends

/-- A run that ends has one outcome. -/
theorem run_unique
    {fuel fuel' : Nat}
    {frame : Frame}
    {outcome outcome' : Outcome}
    (ends : run machine table parameter fuel frame = some outcome)
    (ends' : run machine table parameter fuel' frame = some outcome') :
    outcome = outcome' := by
  have longer := run_more ends fuel'
  rw [Nat.add_comm, run_more ends' fuel] at longer
  exact (Option.some.inj longer).symm

theorem run_next
    {frame frame' : Frame}
    (next : step machine table parameter frame = .next frame')
    (fuel : Nat) :
    run machine table parameter (fuel + 1) frame = run machine table parameter fuel frame' := by
  rw [run_succ, next]

theorem run_done
    {frame : Frame}
    {outcome : Outcome}
    (done : step machine table parameter frame = .done outcome)
    (fuel : Nat) :
    run machine table parameter (fuel + 1) frame = some outcome := by
  rw [run_succ, done]

end Runs

/-! ## Types of fields -/

/-- What the accessor of a type reads. -/
def readFor : BasicType → FieldRead
  | .tBoolean => .getbyte
  | .tChar => .getchar
  | .tFloat => .getfloat
  | .tDouble => .getdouble
  | .tByte => .getbyte
  | .tShort => .getshort
  | .tInt => .getint
  | .tLong => .getlong
  | .tObject => .getint
  | .tArray => .getint
  | .tVoid => .getint
  | .tIllegal => .getint

/-- A type that a field can have. -/
def IsFieldType (type : BasicType) : Prop :=
  type ≠ .tVoid ∧ type ≠ .tIllegal

section Types

variable {type : BasicType} (isField : IsFieldType type)

include isField

theorem table_entry (isStatic : Bool) :
    (if isStatic then staticAccessors else accessors).getD (typeNumber type - 4) .other =
      .fastAccessor (readFor type) isStatic := by
  obtain ⟨notVoid, notIllegal⟩ := isField
  cases type <;> first | contradiction | (cases isStatic <;> rfl)

/-- The rewritten bytecode reads what the accessor reads. -/
theorem fastGetfield_rewritten :
    fastGetfield (218 + rewriteOffset type) =
      some (readFor type, decide (4 ≤ byteSizeFor type)) := by
  obtain ⟨notVoid, notIllegal⟩ := isField
  cases type <;> first | contradiction | rfl

theorem rewritten_ne : 218 + rewriteOffset type ≠ 42 ∧ 218 + rewriteOffset type ≠ 180 := by
  obtain ⟨notVoid, notIllegal⟩ := isField
  cases type <;> first | contradiction | decide

end Types

/-! ## Converted methods -/

/-- What the verifier has checked of a method that gets a field. -/
structure Verified (machine : Machine) (method : Method) (type : BasicType) (offset : Nat) :
    Prop where
  isField : IsFieldType type
  /-- A field of whole words is aligned. -/
  aligned : 4 ≤ byteSizeFor type → offset % 4 = 0
  /-- The method returns what it gets. -/
  returns : ∀ memory address, returnWords (method.bytecodeAt 4) =
    some ((readFor type).push memory address).length
  /-- Handlers begin at bytecodes. -/
  handlers : ∀ entry ∈ method.exceptionTable,
    entry.handlerBci = 0 ∨ entry.handlerBci = 1 ∨ entry.handlerBci = 4
  /-- An exception of a lookup is made for it. -/
  raised : ∀ catchType raised, machine.klassAt catchType = .error raised →
    raised ≠ machine.nullPointerException

section Converted

variable {machine : Machine} {method : Method} {constants constants' later : ConstantPool}
  {type : BasicType} {offset : Nat}

theorem mayConvert_some
    (converts : mayConvertToFastGetAccessor machine method constants =
      (some (type, offset), constants')) :
    method.code = [42, 180, method.bytecodeAt 2, method.bytecodeAt 3, method.bytecodeAt 4] ∧
      fieldTypeAt machine false false (method.getJavaU2IndexAt 2) constants =
        (.ok (type, offset), constants') := by
  unfold mayConvertToFastGetAccessor at converts
  split at converts
  · simp at converts
  split at converts
  · simp at converts
  split at converts
  · simp at converts
  split at converts
  · simp at converts
  split at converts
  · simp at converts
  rename_i size
  split at converts
  · simp at converts
  rename_i first
  split at converts
  · simp at converts
  rename_i second
  split at converts
  · simp at converts
  refine ⟨?_, ?_⟩
  · have size := Decidable.not_not.mp size
    have first := Decidable.not_not.mp first
    have second := Decidable.not_not.mp second
    unfold Method.bytecodeAt at *
    revert first second
    generalize method.code = code at size
    match code, size with
    | [b0, b1, b2, b3, b4], _ =>
        intro first second
        change b0 = 42 at first
        change b1 = 180 at second
        rw [first, second]
        rfl
  · unfold tryResolveFieldAccess at converts
    split at converts
    · simp at converts
    · rename_i field constants'' resolved
      obtain ⟨same, rfl⟩ := Prod.mk.inj converts
      rw [resolved, Option.some.inj same]

/-- A field that is resolved once is found again. -/
theorem fieldTypeAt_later
    {index : Nat}
    (resolved : fieldTypeAt machine false false index constants = (.ok (type, offset), constants'))
    (fits : offset ≤ 0x7fff)
    (kept : later index = constants' index) :
    fieldTypeAt machine true false index later = (.ok (type, offset), later) := by
  unfold fieldTypeAt at resolved ⊢
  split at resolved
  · rename_i field constant
    split at resolved
    · simp at resolved
    · rename_i unchanged
      obtain ⟨same, rfl⟩ := Prod.mk.inj resolved
      rw [kept, constant]
      dsimp only
      rw [if_neg unchanged, same]
  · split at resolved
    · simp at resolved
    · rename_i field found
      split at resolved
      · simp at resolved
      · rename_i unchanged
        obtain ⟨same, rfl⟩ := Prod.mk.inj resolved
        obtain ⟨rfl, rfl⟩ := Prod.mk.inj (Except.ok.inj same)
        rw [kept, Function.update_self]
        dsimp only
        rw [if_neg (fun changed => unchanged changed.2), Nat.mod_eq_of_lt (by omega)]

/-! ## The run of the bytecodes -/

/-- The bytes of the method once its field is resolved. -/
def quickened (type : BasicType) (offset last : Nat) : List Nat :=
  let operand := if 4 ≤ byteSizeFor type then offset / 4 else offset
  [42, 218 + rewriteOffset type, operand / 256 % 256, operand % 256, last]

variable {table : List TableEntry} {parameter : Word}

theorem step_quickened_load (last : Nat) (stack : List Word) :
    step machine table parameter ⟨quickened type offset last, later, 0, stack⟩ =
      .next ⟨quickened type offset last, later, 1, parameter :: stack⟩ :=
  rfl

/-- The rewritten `getfield`. -/
theorem step_quickened_get
    (isField : IsFieldType type)
    (aligned : 4 ≤ byteSizeFor type → offset % 4 = 0)
    (fits : offset ≤ 0x7fff)
    (last : Nat)
    (object : Word)
    (stack : List Word) :
    step machine table parameter ⟨quickened type offset last, later, 1, object :: stack⟩ =
      if object = 0 then
        raise machine table machine.nullPointerException
          ⟨quickened type offset last, later, 1, stack⟩
      else
        .next ⟨quickened type offset last, later, 4,
          (readFor type).push machine.memory (object.toNat + offset) ++ stack⟩ := by
  obtain ⟨notLoad, notGetfield⟩ := rewritten_ne isField
  have bytecode : (quickened type offset last).getD 1 0 = 218 + rewriteOffset type := rfl
  have operand : 256 * (quickened type offset last).getD 2 0 +
      (quickened type offset last).getD 3 0 =
        if 4 ≤ byteSizeFor type then offset / 4 else offset := by
    change 256 * (_ / 256 % 256) + _ % 256 = _
    split
    · omega
    · omega
  have place : (if decide (4 ≤ byteSizeFor type) = true then
      (if 4 ≤ byteSizeFor type then offset / 4 else offset) * 4 else
        (if 4 ≤ byteSizeFor type then offset / 4 else offset)) = offset := by
    by_cases words : 4 ≤ byteSizeFor type
    · have := aligned words
      simp only [words, decide_true, if_true]
      omega
    · simp only [words, decide_false, if_false, Bool.false_eq_true]
  unfold step
  dsimp only
  rw [bytecode, if_neg notLoad, if_neg notGetfield, fastGetfield_rewritten isField, operand]
  dsimp only
  rw [place]

theorem step_quickened_return
    {words : Nat}
    (last : Nat)
    (returns : returnWords last = some words)
    (stack : List Word) :
    step machine table parameter ⟨quickened type offset last, later, 4, stack⟩ =
      .done (.returned (stack.take words)) := by
  have bytecode : (quickened type offset last).getD 4 0 = last := rfl
  have isReturn : last ≠ 42 ∧ last ≠ 180 ∧ fastGetfield last = none := by
    unfold returnWords at returns
    split at returns <;> first | decide | cases returns
  unfold step
  dsimp only
  rw [bytecode, if_neg isReturn.1, if_neg isReturn.2.1, isReturn.2.2, returns]

/-- The first two bytecodes: the parameter is loaded and the field resolved. -/
theorem run_start
    (code : method.code = [42, 180, method.bytecodeAt 2, method.bytecodeAt 3, method.bytecodeAt 4])
    (resolved : fieldTypeAt machine true false (method.getJavaU2IndexAt 2) later =
      (.ok (type, offset), later))
    (fuel : Nat) :
    run machine table parameter (fuel + 2) ⟨method.code, later, 0, []⟩ =
      run machine table parameter fuel
        ⟨quickened type offset (method.bytecodeAt 4), later, 1, [parameter]⟩ := by
  rw [code, @run_next machine table parameter _ ⟨_, later, 1, [parameter]⟩ rfl]
  refine run_next ?_ fuel
  unfold step
  dsimp only
  rw [if_neg (by simp), if_pos (by simp)]
  erw [resolved]
  rfl

/-! ## Handlers -/

/-- Where the result of a search comes from. -/
def FoundIn (machine : Machine) (table : List TableEntry) : Except Exn (Option Nat) → Prop
  | .ok none => True
  | .ok (some handler) => ∃ entry ∈ table, entry.handlerBci = handler
  | .error raised => ∃ catchType, machine.klassAt catchType = .error raised

theorem FoundIn.cons
    {result : Except Exn (Option Nat)}
    (found : FoundIn machine table result)
    (entry : TableEntry) :
    FoundIn machine (entry :: table) result := by
  match result, found with
  | .ok none, _ => trivial
  | .ok (some _), ⟨entry', member, same⟩ => exact ⟨entry', List.mem_cons_of_mem _ member, same⟩
  | .error _, failed => exact failed

theorem exceptionHandlerBciFor_found
    (whole table : List TableEntry)
    (exceptionClass bci : Nat) :
    FoundIn machine table (exceptionHandlerBciFor machine.isSubtypeOf
      ⟨whole, false, machine.klassAt⟩ exceptionClass bci table) := by
  induction table with
  | nil => trivial
  | cons entry table induction =>
      unfold exceptionHandlerBciFor
      by_cases covers : entry.startBci ≤ bci ∧ bci < entry.endBci
      · rw [if_pos covers]
        by_cases any : entry.catchType = 0
        · rw [if_pos any]
          exact ⟨entry, List.mem_cons_self, rfl⟩
        · rw [if_neg any]
          dsimp only
          cases klass : machine.klassAt entry.catchType with
          | error raised => exact ⟨_, klass⟩
          | ok catchClass =>
              dsimp only
              by_cases catches : catchClass = exceptionClass ∨
                  machine.isSubtypeOf exceptionClass catchClass = true
              · rw [if_pos catches]
                exact ⟨entry, List.mem_cons_self, rfl⟩
              · rw [if_neg catches]
                exact induction.cons entry
      · rw [if_neg covers]
        exact induction.cons entry

/-- Once the null pointer exception has a handler in the method, no run of it throws. -/
theorem run_caught
    (verified : Verified machine method type offset)
    (fits : offset ≤ 0x7fff)
    {handler : Nat}
    (caught : handlerFor machine method.exceptionTable machine.nullPointerException 1 =
      .ok (some handler))
    {fuel bci : Nat}
    {stack : List Word}
    {outcome : Outcome}
    (place : bci = 0 ∨ bci = 1 ∧ stack ≠ [] ∨ bci = 4)
    (ends : run machine method.exceptionTable parameter fuel
      ⟨quickened type offset (method.bytecodeAt 4), later, bci, stack⟩ = some outcome) :
    ∃ words, outcome = .returned words := by
  induction fuel generalizing bci stack with
  | zero => cases ends
  | succ fuel induction =>
      rcases place with rfl | ⟨rfl, some⟩ | rfl
      · rw [run_next (step_quickened_load _ _)] at ends
        exact induction (.inr (.inl ⟨rfl, List.cons_ne_nil _ _⟩)) ends
      · obtain ⟨object, rest, rfl⟩ := List.exists_cons_of_ne_nil some
        have get := @step_quickened_get machine later type offset method.exceptionTable parameter
          verified.isField verified.aligned fits
          (method.bytecodeAt 4) object rest
        by_cases null : object = 0
        · rw [if_pos null, raise, caught] at get
          rw [run_next get] at ends
          refine induction ?_ ends
          have found := @exceptionHandlerBciFor_found machine method.exceptionTable
            method.exceptionTable machine.nullPointerException.klass 1
          unfold handlerFor at caught
          rw [caught] at found
          obtain ⟨entry, member, rfl⟩ := found
          rcases verified.handlers entry member with first | second | last
          · exact .inl first
          · exact .inr (.inl ⟨second, List.cons_ne_nil _ _⟩)
          · exact .inr (.inr last)
        · rw [if_neg null] at get
          rw [run_next get] at ends
          exact induction (.inr (.inr rfl)) ends
      · rw [run_done (step_quickened_return _ (verified.returns machine.memory 0) _)] at ends
        exact ⟨_, (Option.some.inj ends).symm⟩

/-! ## What the bytecodes and the entry do -/

/-- The method returns the field of an object. -/
theorem interprets_object
    (verified : Verified machine method type offset)
    (fits : offset ≤ 0x7fff)
    (code : method.code = [42, 180, method.bytecodeAt 2, method.bytecodeAt 3, method.bytecodeAt 4])
    (resolved : fieldTypeAt machine true false (method.getJavaU2IndexAt 2) later =
      (.ok (type, offset), later))
    (object : parameter ≠ 0)
    (outcome : Outcome) :
    Interprets machine method later parameter outcome ↔
      outcome = .returned ((readFor type).push machine.memory (parameter.toNat + offset)) := by
  have ends : run machine method.exceptionTable parameter 4 ⟨method.code, later, 0, []⟩ =
      some (.returned ((readFor type).push machine.memory (parameter.toNat + offset))) := by
    have get := @step_quickened_get machine later type offset method.exceptionTable parameter
      verified.isField verified.aligned fits
      (method.bytecodeAt 4) parameter []
    rw [if_neg object] at get
    rw [run_start code resolved 2, run_next get, run_done (step_quickened_return _
      (verified.returns machine.memory (parameter.toNat + offset)) _), List.append_nil,
      List.take_length]
  constructor
  · rintro ⟨fuel, ends'⟩
    exact run_unique ends' ends
  · rintro rfl
    exact ⟨4, ends⟩

/-- For null the method throws exactly when no handler of its own takes the exception. -/
theorem interprets_null
    (verified : Verified machine method type offset)
    (fits : offset ≤ 0x7fff)
    (code : method.code = [42, 180, method.bytecodeAt 2, method.bytecodeAt 3, method.bytecodeAt 4])
    (resolved : fieldTypeAt machine true false (method.getJavaU2IndexAt 2) later =
      (.ok (type, offset), later)) :
    (∀ outcome, Interprets machine method later 0 outcome ↔
        outcome = .thrown machine.nullPointerException) ↔
      handlerFor machine method.exceptionTable machine.nullPointerException 1 = .ok none := by
  have get := @step_quickened_get machine later type offset method.exceptionTable 0
    verified.isField verified.aligned fits
    (method.bytecodeAt 4) 0 []
  rw [if_pos rfl, raise] at get
  constructor
  · intro throws
    obtain ⟨fuel, ends⟩ := (throws _).mpr rfl
    have longer := run_more ends 3
    rw [show fuel + 3 = fuel + 1 + 2 from rfl, run_start code resolved] at longer
    cases search : handlerFor machine method.exceptionTable machine.nullPointerException 1 with
    | error raised =>
        rw [search] at get
        rw [run_done get] at longer
        have same := Outcome.thrown.inj (Option.some.inj longer)
        have found := @exceptionHandlerBciFor_found machine method.exceptionTable
          method.exceptionTable machine.nullPointerException.klass 1
        unfold handlerFor at search
        rw [search] at found
        obtain ⟨catchType, failed⟩ := found
        exact absurd same (verified.raised catchType raised failed)
    | ok found =>
        cases found with
        | none => rfl
        | some handler =>
            obtain ⟨words, impossible⟩ := run_caught verified fits search
              (.inr (.inl ⟨rfl, List.cons_ne_nil _ _⟩)) longer
            cases impossible
  · intro uncaught outcome
    rw [uncaught] at get
    have ends : run machine method.exceptionTable 0 3 ⟨method.code, later, 0, []⟩ =
        some (.thrown machine.nullPointerException) := by
      rw [run_start code resolved 1, run_done get]
    constructor
    · rintro ⟨fuel, ends'⟩
      exact run_unique ends' ends
    · rintro rfl
      exact ⟨3, ends⟩

/-- The method that a conversion makes. -/
theorem setFastAccessorEntry_eq
    (isField : IsFieldType type)
    (fits : offset ≤ 0x7fff)
    (converts : mayConvertToFastGetAccessor machine method constants =
      (some (type, offset), constants')) :
    setFastAccessorEntry machine method constants =
      ({ method with
        maxLocals := offset
        maxExecutionStackCount := typeNumber type
        executionEntry := .fastAccessor (readFor type) method.isStatic }, constants') := by
  unfold setFastAccessorEntry
  rw [converts]
  dsimp only
  rw [if_pos fits, table_entry isField, Nat.mod_eq_of_lt (by omega)]

/-- The entry does what the bytecodes do when a static method does not handle the exception for
null itself. -/
theorem actsAlike_iff
    (verified : Verified machine method type offset)
    (fits : offset ≤ 0x7fff)
    (converts : mayConvertToFastGetAccessor machine method constants =
      (some (type, offset), constants'))
    (kept : later (method.getJavaU2IndexAt 2) = constants' (method.getJavaU2IndexAt 2)) :
    ActsAlike machine method (setFastAccessorEntry machine method constants).1 later ↔
      (method.isStatic = true →
        handlerFor machine method.exceptionTable machine.nullPointerException 1 = .ok none) := by
  obtain ⟨code, resolved⟩ := mayConvert_some converts
  have resolvedLater := fieldTypeAt_later resolved fits kept
  have null := interprets_null verified fits code resolvedLater
  rw [setFastAccessorEntry_eq verified.isField fits converts]
  unfold ActsAlike Calls
  constructor
  · intro alike isStatic
    refine null.mp fun outcome => ?_
    have same := alike 0 outcome
    rw [if_neg (by simp [isStatic]), if_neg (by simp [isStatic])] at same
    refine same.symm.trans ?_
    unfold Accesses fastAccess
    dsimp only
    rw [isStatic, if_pos (by simp)]
  · intro uncaught parameter outcome
    by_cases checked : method.isStatic = false ∧ parameter = 0
    · rw [if_pos checked, if_pos checked]
    · rw [if_neg checked, if_neg checked]
      unfold Accesses fastAccess Method.fastAccessorOffset
      dsimp only
      by_cases isNull : parameter = 0
      · have isStatic : method.isStatic = true := by
          by_contra notStatic
          exact checked ⟨Bool.eq_false_iff.mpr notStatic, isNull⟩
        subst isNull
        rw [isStatic, if_pos (by simp)]
        exact (null.mpr (uncaught isStatic) outcome).symm
      · rw [if_neg (fun both => isNull (eq_of_beq (Bool.and_eq_true_iff.mp both).2))]
        exact (interprets_object verified fits code resolvedLater isNull outcome).symm

/-- The words of a converted method are left alone when the accessor is one that the later
readers know, and the optimizer of images has no stack maps to compare. -/
theorem keepsItsWords_iff
    (isField : IsFieldType type)
    (fits : offset ≤ 0x7fff)
    (converts : mayConvertToFastGetAccessor machine method constants =
      (some (type, offset), constants')) :
    KeepsItsWords machine (setFastAccessorEntry machine method constants).1 ↔
      (type ≠ .tFloat ∧ type ≠ .tDouble) ∧
        (machine.generateROMImage = true → method.hasStackmaps = false) := by
  obtain ⟨code, -⟩ := mayConvert_some converts
  rw [setFastAccessorEntry_eq isField fits converts]
  generalize convertedEq : ({ method with
    maxLocals := offset
    maxExecutionStackCount := typeNumber type
    executionEntry := .fastAccessor (readFor type) method.isStatic } : Method) = converted
  have impossible : converted.isImpossibleToCompile = true := by
    subst convertedEq
    rfl
  have notQuick : converted.isQuickNative = false := by
    subst convertedEq
    unfold Method.isQuickNative
    dsimp only
    rw [code]
    rfl
  have recognised : converted.isFastGetAccessor = true ↔ type ≠ .tFloat ∧ type ≠ .tDouble := by
    subst convertedEq
    obtain ⟨notVoid, notIllegal⟩ := isField
    unfold Method.isFastGetAccessor
    dsimp only
    cases method.isStatic <;> cases type <;> first | contradiction | decide
  have execution : executionReads converted = false := by
    unfold executionReads
    rw [impossible]
    rfl
  have prepass : inlinePrepassReads machine converted = false := by
    unfold inlinePrepassReads
    rw [impossible]
    simp
  have visit : iterateFieldsReads converted = false ↔ type ≠ .tFloat ∧ type ≠ .tDouble := by
    unfold iterateFieldsReads
    rw [notQuick, ← recognised]
    cases converted.isFastGetAccessor <;> simp
  have stackmaps : removeRedundantStackmapsReads machine converted = false ↔
      (machine.generateROMImage = true → method.hasStackmaps = false) := by
    subst convertedEq
    unfold removeRedundantStackmapsReads
    dsimp only
    cases machine.generateROMImage <;> simp
  unfold KeepsItsWords
  rw [visit, stackmaps]
  exact ⟨fun keeps => keeps.2.2, fun keeps => ⟨execution, prepass, keeps⟩⟩

/-- The entry of a converted method stands for its bytecodes, and its words are left alone,
exactly when a static method does not handle the exception for null itself, the field is neither
a float nor a double, and there are no stack maps for the optimizer of images. -/
theorem setFastAccessorEntry_correct_iff
    (verified : Verified machine method type offset)
    (fits : offset ≤ 0x7fff)
    (converts : mayConvertToFastGetAccessor machine method constants =
      (some (type, offset), constants'))
    (kept : later (method.getJavaU2IndexAt 2) = constants' (method.getJavaU2IndexAt 2)) :
    let converted := (setFastAccessorEntry machine method constants).1
    (ActsAlike machine method converted later ∧ KeepsItsWords machine converted) ↔
      (method.isStatic = true →
          handlerFor machine method.exceptionTable machine.nullPointerException 1 = .ok none) ∧
        (type ≠ .tFloat ∧ type ≠ .tDouble) ∧
        (machine.generateROMImage = true → method.hasStackmaps = false) := by
  intro converted
  rw [actsAlike_iff verified fits converts kept, keepsItsWords_iff verified.isField fits converts]

end Converted

/-! ## Two methods -/

/-- A machine whose constants are all for one field. -/
def oneFieldMachine (type : BasicType) : Machine where
  makeROMDebuggable := false
  debuggerActive := false
  generateROMImage := false
  checksResolved := true
  resolveField := fun _ _ => .ok ⟨type, 8, false⟩
  fieldChanged := ⟨16, 2⟩
  nullPointerException := ⟨32, 3⟩
  klassAt := fun _ => .ok 3
  isSubtypeOf := fun _ _ => false
  memory := fun _ => 0

/-- A getter, with its exception table. -/
def getter (isStatic : Bool) (last : Nat) (exceptionTable : List TableEntry) : Method where
  isStatic := isStatic
  isNative := false
  isSynchronized := false
  hasMonitorBytecodes := false
  hasInvokeBytecodes := false
  sizeOfParameters := 1
  code := [42, 180, 0, 7, last]
  exceptionTable := exceptionTable
  hasStackmaps := false
  maxLocals := 1
  maxExecutionStackCount := 2
  executionEntry := .interpreter

/-- A static getter that returns the exception for null instead. -/
def catchingGetter : Method :=
  { getter true 176 [⟨1, 4, 4, 0⟩] with hasStackmaps := true }

/-- A static getter of an object whose handler around the access returns what it catches: the
bytecodes return the exception for null, and the entry throws it. -/
theorem catchingGetter_differs :
    ∃ later, mayConvertToFastGetAccessor (oneFieldMachine .tObject) catchingGetter
        (fun _ => .unresolved) = (some (.tObject, 8), later) ∧
      Verified (oneFieldMachine .tObject) catchingGetter .tObject 8 ∧
      ¬ (ActsAlike (oneFieldMachine .tObject) catchingGetter
          (setFastAccessorEntry (oneFieldMachine .tObject) catchingGetter
            (fun _ => .unresolved)).1 later ∧
        KeepsItsWords (oneFieldMachine .tObject)
          (setFastAccessorEntry (oneFieldMachine .tObject) catchingGetter
            (fun _ => .unresolved)).1) := by
  have verified : Verified (oneFieldMachine .tObject) catchingGetter .tObject 8 := {
    isField := ⟨by decide, by decide⟩
    aligned := by decide
    returns := fun memory address => rfl
    handlers := by decide
    raised := fun catchType raised failed => by cases failed }
  have converts : mayConvertToFastGetAccessor (oneFieldMachine .tObject) catchingGetter
      (fun _ => .unresolved) = (some (.tObject, 8), _) := rfl
  refine ⟨_, converts, verified, ?_⟩
  rintro ⟨alike, -⟩
  have uncaught := (actsAlike_iff verified (by decide) converts rfl).mp alike rfl
  revert uncaught
  decide

/-- An instance getter of an `int` is converted as it should be. -/
theorem intGetter_correct :
    let converted := (setFastAccessorEntry (oneFieldMachine .tInt) (getter false 172 [])
      (fun _ => .unresolved)).1
    ActsAlike (oneFieldMachine .tInt) (getter false 172 []) converted
        (mayConvertToFastGetAccessor (oneFieldMachine .tInt) (getter false 172 [])
          (fun _ => .unresolved)).2 ∧
      KeepsItsWords (oneFieldMachine .tInt) converted :=
  (@setFastAccessorEntry_correct_iff _ _ _ _ _ .tInt 8
    { isField := ⟨by decide, by decide⟩
      aligned := by decide
      returns := fun memory address => rfl
      handlers := by decide
      raised := fun catchType raised failed => by cases failed }
    (by decide) rfl rfl).mpr (by decide)

end PicoJvm.Accessors
