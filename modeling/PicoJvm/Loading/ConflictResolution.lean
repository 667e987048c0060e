import Mathlib.Data.List.Forall2
import PicoJvm.Loading.InvokeRelocation

/-!
# Separated calls

Afterwards no constant is named by an `invokespecial` and by an `invokevirtual`, as long as the
operands name constants. Nothing in the parser looks at that: operands far outside the constant
pool are outside the bitmaps too, and those just behind it may name one of the copies.
-/

namespace PicoJvm.InvokeConflicts

open PicoJvm.Lib
open PicoJvm.Lib.Bitmap
open PicoJvm.Lib.Fallible
open PicoJvm.Bytecodes
open PicoJvm.CodeBytes
open PicoJvm.CodeWalk

/-! ## What is promised -/

/-- One method before and after: its instructions are where they were, an `invokespecial` with
another operand names the same method, and only bytes of such operands are different. -/
structure MethodKept (oldCp newCp : ConstantPool) (before after : Method) : Prop where
  ownConstants : after.ownConstants = before.ownConstants
  starts : startsOf after.code = startsOf before.code
  elsewhere :
    ∀ place, after.code[place]? ≠ before.code[place]? →
      ∃ start ∈ startsOf before.code, byteD before.code start = invokespecial ∧
        operandAt after.code start ≠ operandAt before.code start ∧
        (place = start + 1 ∨ place = start + 2)
  rewritten :
    ∀ start ∈ startsOf before.code,
      operandAt after.code start ≠ operandAt before.code start →
      byteD before.code start = invokespecial →
      newCp[operandAt after.code start]? = oldCp[operandAt before.code start]? ∧
        ∀ reference, methodReference oldCp (operandAt before.code start) = some reference →
          methodReference newCp (operandAt after.code start) = some reference

/-- The class before and after. -/
structure ConflictsResolved (before after : InstanceClass) : Prop where
  separate :
    ∀ index, ¬ ((invokespecial, index) ∈ callsOf after.methods ∧
      (invokevirtual, index) ∈ callsOf after.methods)
  methods : List.Forall₂ (MethodKept before.constants after.constants) before.methods after.methods
  constants : ∀ index < before.constants.length, after.constants[index]? = before.constants[index]?

/-- The pass succeeds, or it finds that there would be too many constants. -/
def ResolvesConflicts (cls : ParsedClass) : Prop :=
  resolveInvokeSpecialVirtualConflicts cls.toInstanceClass = .error .outOfMemory ∨
    ∃ after, resolveInvokeSpecialVirtualConflicts cls.toInstanceClass = .ok after ∧
      ConflictsResolved cls.toInstanceClass after

/-! ## When it is kept -/

/-- The operands of both kinds of calls. -/
def conflicts (methods : List Method) : Set Nat :=
  {index | (invokespecial, index) ∈ callsOf methods ∧ (invokevirtual, index) ∈ callsOf methods}

/-- All operands are inside the bitmaps. Unless there are too many constants, those of both kinds
of calls name constants, and no `invokevirtual` names a copy that is still to be made. -/
structure OperandsInPlace (cls : InstanceClass) : Prop where
  inBitmap : ∀ call ∈ callsOf cls.methods, call.2 < 32 * (cls.constants.length / 32 + 1)
  inConstants :
    cls.constants.length + (conflicts cls.methods).ncard ≤ 65535 →
      (∀ index ∈ conflicts cls.methods, index < cls.constants.length) ∧
        ∀ index, (invokevirtual, index) ∈ callsOf cls.methods →
          ¬ (cls.constants.length ≤ index ∧
            index < cls.constants.length + (conflicts cls.methods).ncard)

/-! ## Parsed code is walked through -/

theorem walks_of_stub
    {code : Code}
    (isStub : IsNativeStub code) :
    Walks code [0] := by
  obtain ⟨length, opcode⟩ := isStub
  have ofLength : lengthFor (byteD code 0) = (8 : Nat) := by
    rw [opcode]
    decide
  have step : Next code 0 (0 + 8) := by
    apply Next.fixed (by omega) ofLength (by decide)
    intro _
    omega
  exact ⟨_, .cons step (.nil _), by omega⟩

theorem callsAt_stub
    {code : Code}
    (isStub : IsNativeStub code) :
    callsAt code (startsOf code) = [] := by
  have notCall : ¬ IsCall (byteD code 0) := by
    rw [isStub.2]
    decide
  rw [(walks_of_stub isStub).startsOf_eq, callsAt_cons_other _ notCall]
  rfl

theorem ParsedCode.walks
    {code : Code}
    (parsed : ParsedCode code) :
    Walks code (startsOf code) := by
  cases parsed with
  | checked ownCode accepted =>
      obtain ⟨starts, walks⟩ := walks_of_accepted ownCode (Or.inl accepted)
      rw [walks.startsOf_eq]
      exact walks
  | stub isStub =>
      rw [(walks_of_stub isStub).startsOf_eq]
      exact walks_of_stub isStub

/-! ## The constants -/

theorem methodReference_mono
    {oldCp newCp : ConstantPool} {index newIndex : Nat} {reference : MethodReference}
    (kept : ∀ index < oldCp.length, newCp[index]? = oldCp[index]?)
    (copied : newCp[newIndex]? = oldCp[index]?)
    (named : methodReference oldCp index = some reference) :
    methodReference newCp newIndex = some reference := by
  have constantAt_mono : ∀ {index : Nat} {tags : List Nat} {constant : Constant},
      constantAt oldCp index tags = some constant →
      constantAt newCp index tags = some constant := by
    intro index tags constant found
    have inside : index < oldCp.length := by
      by_contra outside
      rw [constantAt, List.getElem?_eq_none (Nat.le_of_not_lt outside)] at found
      cases found
    rw [constantAt, kept index inside]
    exact found
  simp only [methodReference, Option.bind_eq_bind, Option.bind_eq_some_iff] at named ⊢
  obtain ⟨entry, isEntry, nameAndType, isPair, klass, isKlass, name, isName, signature,
    isSignature, built⟩ := named
  refine ⟨entry, ?_, nameAndType, constantAt_mono isPair, klass, constantAt_mono isKlass, name,
    constantAt_mono isName, signature, constantAt_mono isSignature, built⟩
  rw [constantAt, copied]
  exact isEntry

/-- The constants with the copies behind them. -/
def withCopies (cp : ConstantPool) (collisions : List Nat) : ConstantPool :=
  cp ++ collisions.map fun index => cp.getD index invalidConstant

theorem copyConstants_eq
    (oldCp : ConstantPool) (collisions : List Nat) (copies : ConstantPool) :
    copyConstants oldCp (collisions.zipIdx (oldCp.length + copies.length))
        (oldCp ++ copies ++ List.replicate collisions.length invalidConstant) =
      if ∀ index ∈ collisions, index < oldCp.length then
        .ok (oldCp ++ copies ++ collisions.map fun index => oldCp.getD index invalidConstant)
      else
        .error .outsideArray := by
  induction collisions generalizing copies with
  | nil =>
      simp [copyConstants]
  | cons index collisions inductionHypothesis =>
      rw [List.zipIdx_cons, copyConstants]
      by_cases inside : index < oldCp.length
      · have constant : oldCp[index]? = some (oldCp.getD index invalidConstant) := by
          rw [List.getD_eq_getElem?_getD, List.getElem?_eq_getElem inside]
          rfl
        have room : (oldCp ++ copies ++
            List.replicate (index :: collisions).length invalidConstant)[oldCp.length + copies.length]? =
              some invalidConstant := by
          rw [List.getElem?_append_right (by simp)]
          simp
        have later := inductionHypothesis (copies ++ [oldCp.getD index invalidConstant])
        have written : (oldCp ++ copies ++
            List.replicate (index :: collisions).length invalidConstant).set
              (oldCp.length + copies.length) (oldCp.getD index invalidConstant) =
            oldCp ++ (copies ++ [oldCp.getD index invalidConstant]) ++
              List.replicate collisions.length invalidConstant := by
          rw [List.set_append_right _ _ (by simp)]
          simp [List.replicate_succ]
        rw [constant, room]
        simp only [inArray, ok_bind, written]
        rw [List.length_append, List.length_singleton, ← Nat.add_assoc] at later
        rw [later]
        simp [inside]
      · rw [List.getElem?_eq_none (Nat.le_of_not_lt inside), if_neg]
        · rfl
        · intro allInside
          exact inside (allInside index List.mem_cons_self)

theorem cloneConstants_eq (oldCp : ConstantPool) (collisions : List Nat) :
    cloneConstants oldCp (collisions.zipIdx oldCp.length) =
      if ∀ index ∈ collisions, index < oldCp.length then
        .ok (withCopies oldCp collisions)
      else
        .error .outsideArray := by
  have copied := copyConstants_eq oldCp collisions []
  rw [List.length_nil, Nat.add_zero, List.append_nil] at copied
  rw [cloneConstants, List.length_zipIdx]
  exact copied

theorem withCopies_kept
    {cp : ConstantPool} {index : Nat}
    (collisions : List Nat)
    (inside : index < cp.length) :
    (withCopies cp collisions)[index]? = cp[index]? := by
  rw [withCopies, List.getElem?_append_left inside]

theorem withCopies_copied
    {cp : ConstantPool} {collisions : List Nat} {index : Nat}
    (collides : index ∈ collisions)
    (inside : index < cp.length) :
    (withCopies cp collisions)[cp.length + collisions.idxOf index]? = cp[index]? := by
  have small := List.idxOf_lt_length_of_mem collides
  rw [withCopies, List.getElem?_append_right (by omega), Nat.add_sub_cancel_left,
    List.getElem?_map, List.getElem?_idxOf collides, Option.map_some,
    List.getD_eq_getElem _ _ inside, List.getElem?_eq_getElem inside]

/-! ## The methods -/

section Methods

variable {collisions : List Nat} {cp : ConstantPool}

/-- What becomes of a method that has been parsed. -/
structure MethodRelocated
    (collisions : List Nat) (cpLength : Nat) (before after : Method) : Prop where
  ownConstants : after.ownConstants = before.ownConstants
  starts : startsOf after.code = startsOf before.code
  code : Relocated collisions cpLength (startsOf before.code) before.code after.code

theorem relocated_of_no_calls
    {code : Code} {starts : List Nat}
    (noCalls : callsAt code starts = [])
    (cpLength : Nat) :
    Relocated collisions cpLength starts code code := by
  refine ⟨rfl, fun _ _ => rfl, ?_, fun _ _ _ => rfl, fun _ _ => rfl⟩
  intro start member isSpecial
  have isCall : (byteD code start, operandAt code start) ∈ callsAt code starts := by
    apply List.mem_map_of_mem
    apply List.mem_filter.mpr
    exact ⟨member, decide_eq_true (Or.inl isSpecial)⟩
  rw [noCalls] at isCall
  cases isCall

theorem relocateMethods_spec
    {methods : List Method} {cpLength : Nat}
    (distinct : collisions.Nodup)
    (fits : cpLength + collisions.length ≤ 65535)
    (parsed : ∀ method ∈ methods, ParsedCode method.code)
    (mirandas : ∀ method ∈ methods, method.ownConstants = false → IsNativeStub method.code) :
    ∃ methods', relocateMethods (collisions.zipIdx cpLength) methods = .ok methods' ∧
      List.Forall₂ (MethodRelocated collisions cpLength) methods methods' := by
  induction methods with
  | nil =>
      exact ⟨[], rfl, .nil⟩
  | cons method methods inductionHypothesis =>
      obtain ⟨parsedHere, parsedLater⟩ := List.forall_mem_cons.mp parsed
      obtain ⟨mirandaHere, mirandasLater⟩ := List.forall_mem_cons.mp mirandas
      obtain ⟨methods', run, kept⟩ := inductionHypothesis parsedLater mirandasLater
      rw [relocateMethods]
      by_cases own : method.ownConstants = true
      · obtain ⟨last, trail, past⟩ := parsedHere.walks
        have few := length_starts_le trail
        obtain ⟨code', runCode, relocatedCode, trailAfter⟩ :=
          relocateCode_spec distinct fits trail past (method.code.length + 1) (by omega)
        have walks : Walks code' (startsOf method.code) :=
          ⟨last, trailAfter, relocatedCode.sameLength ▸ past⟩
        rw [if_pos own, runCode, ok_bind, run]
        exact ⟨_, rfl, .cons ⟨rfl, walks.startsOf_eq, relocatedCode⟩ kept⟩
      · have isStub := mirandaHere (Bool.eq_false_of_not_eq_true own)
        rw [if_neg own, pure_eq_ok, ok_bind, run]
        exact ⟨_, rfl, .cons ⟨rfl, rfl, relocated_of_no_calls (callsAt_stub isStub) cpLength⟩ kept⟩

theorem callsOf_relocated
    {methods methods' : List Method} {cpLength : Nat}
    (kept : List.Forall₂ (MethodRelocated collisions cpLength) methods methods') :
    callsOf methods' = (callsOf methods).map (relocatedCall collisions cpLength) := by
  induction kept with
  | nil =>
      rfl
  | cons head _ inductionHypothesis =>
      rw [callsOf] at inductionHypothesis ⊢
      rw [List.flatMap_cons, inductionHypothesis, head.starts, head.code.callsAt_eq, callsOf,
        callsOf, List.flatMap_cons, List.map_append]

theorem MethodRelocated.kept
    {before after : Method}
    (allInside : ∀ index ∈ collisions, index < cp.length)
    (changed : MethodRelocated collisions cp.length before after) :
    MethodKept cp (withCopies cp collisions) before after := by
  refine ⟨changed.ownConstants, changed.starts, ?_, ?_⟩
  · intro place different
    by_contra elsewhere
    push Not at elsewhere
    apply different
    apply changed.code.elsewhere
    intro start member isSpecial collides
    have operand := changed.code.special start member isSpecial
    have inside := allInside _ collides
    rw [relocated, if_pos collides] at operand
    exact elsewhere start member isSpecial (by omega)
  · intro start member differs isSpecial
    have operand := changed.code.special start member isSpecial
    rw [relocated] at operand
    by_cases collides : operandAt before.code start ∈ collisions
    · rw [if_pos collides] at operand
      have inside := allInside _ collides
      have copied := withCopies_copied collides inside
      rw [operand]
      refine ⟨copied, ?_⟩
      intro reference
      apply methodReference_mono _ copied
      intro index inside
      exact withCopies_kept collisions inside
    · rw [if_neg collides] at operand
      exact absurd operand differs

end Methods

/-! ## Which operands are used afterwards -/

/-- The copies are all that an `invokevirtual` could have in common with an `invokespecial`. -/
theorem separate_iff
    {calls : List (Nat × Nat)} {collisions : List Nat} {cpLength : Nat}
    (distinct : collisions.Nodup)
    (collide : ∀ index, index ∈ collisions ↔
      (invokespecial, index) ∈ calls ∧ (invokevirtual, index) ∈ calls) :
    (∀ index, ¬ ((invokespecial, index) ∈ calls.map (relocatedCall collisions cpLength) ∧
        (invokevirtual, index) ∈ calls.map (relocatedCall collisions cpLength))) ↔
      ∀ index, (invokevirtual, index) ∈ calls →
        ¬ (cpLength ≤ index ∧ index < cpLength + collisions.length) := by
  have virtual_iff : ∀ index,
      (invokevirtual, index) ∈ calls.map (relocatedCall collisions cpLength) ↔
        (invokevirtual, index) ∈ calls := by
    intro index
    rw [List.mem_map]
    constructor
    · rintro ⟨call, member, same⟩
      rw [relocatedCall] at same
      by_cases isSpecial : call.1 = invokespecial
      · rw [if_pos isSpecial, isSpecial] at same
        cases same
      · rw [if_neg isSpecial] at same
        exact same ▸ member
    · intro member
      have notSpecial : invokevirtual ≠ invokespecial := by
        decide
      exact ⟨(invokevirtual, index), member, if_neg notSpecial⟩
  have special_iff : ∀ index,
      (invokespecial, index) ∈ calls.map (relocatedCall collisions cpLength) ↔
        ∃ old, (invokespecial, old) ∈ calls ∧ relocated collisions cpLength old = index := by
    intro index
    rw [List.mem_map]
    constructor
    · rintro ⟨⟨opcode, old⟩, member, same⟩
      rw [relocatedCall] at same
      by_cases isSpecial : opcode = invokespecial
      · rw [if_pos isSpecial] at same
        cases same
        exact ⟨old, member, rfl⟩
      · rw [if_neg isSpecial] at same
        cases same
        exact absurd rfl isSpecial
    · rintro ⟨old, member, rfl⟩
      exact ⟨(invokespecial, old), member, if_pos rfl⟩
  constructor
  · intro separate index isVirtual inCopies
    apply separate index
    refine ⟨(special_iff index).mpr ?_, (virtual_iff index).mpr isVirtual⟩
    have place : index - cpLength < collisions.length := by
      omega
    have member : collisions[index - cpLength] ∈ collisions :=
      List.getElem_mem place
    refine ⟨collisions[index - cpLength], ((collide _).mp member).1, ?_⟩
    rw [relocated, if_pos member, distinct.idxOf_getElem]
    omega
  · intro noCopy index usedByBoth
    obtain ⟨old, isSpecial, same⟩ := (special_iff index).mp usedByBoth.1
    have isVirtual := (virtual_iff index).mp usedByBoth.2
    rw [relocated] at same
    by_cases collides : old ∈ collisions
    · rw [if_pos collides] at same
      have small := List.idxOf_lt_length_of_mem collides
      exact noCopy index isVirtual (by omega)
    · rw [if_neg collides] at same
      subst same
      exact collides ((collide old).mpr ⟨isSpecial, isVirtual⟩)

theorem methodKept_refl (cp : ConstantPool) (method : Method) :
    MethodKept cp cp method method := by
  refine ⟨rfl, rfl, fun _ different => absurd rfl different, ?_⟩
  intro start _ differs
  exact absurd rfl differs

/-! ## The whole pass -/

section Pass

variable {cls : InstanceClass} {collisions : List Nat}

theorem ncard_conflicts
    {methods : List Method}
    (distinct : collisions.Nodup)
    (collide : ∀ index, index ∈ collisions ↔ index ∈ conflicts methods) :
    (conflicts methods).ncard = collisions.length := by
  have conflicts_eq : conflicts methods = ↑collisions.toFinset := by
    ext index
    rw [List.coe_toFinset]
    exact (collide index).symm
  rw [conflicts_eq, Set.ncard_coe_finset, List.toFinset_card_of_nodup distinct]

/-- The condition, in terms of the list of collisions. -/
theorem operandsInPlace_iff
    (distinct : collisions.Nodup)
    (collide : ∀ index, index ∈ collisions ↔ index ∈ conflicts cls.methods)
    (inBitmap : ∀ call ∈ callsOf cls.methods, call.2 < 32 * (cls.constants.length / 32 + 1)) :
    OperandsInPlace cls ↔
      (cls.constants.length + collisions.length ≤ 65535 →
        (∀ index ∈ collisions, index < cls.constants.length) ∧
          ∀ index, (invokevirtual, index) ∈ callsOf cls.methods →
            ¬ (cls.constants.length ≤ index ∧
              index < cls.constants.length + collisions.length)) := by
  have count := ncard_conflicts distinct collide
  constructor
  · intro inPlace room
    obtain ⟨named, noCopy⟩ := inPlace.inConstants (by rw [count]; exact room)
    rw [count] at noCopy
    exact ⟨fun index member => named index ((collide index).mp member), noCopy⟩
  · intro inConstants
    refine ⟨inBitmap, ?_⟩
    rw [count]
    intro room
    obtain ⟨named, noCopy⟩ := inConstants room
    exact ⟨fun index conflict => named index ((collide index).mpr conflict), noCopy⟩

/-- Without collisions nothing is changed, and nothing has to be. -/
theorem conflictsResolved_refl
    (noConflict : ∀ index, index ∉ conflicts cls.methods) :
    ConflictsResolved cls cls := by
  refine ⟨noConflict, ?_, fun _ _ => rfl⟩
  apply List.forall₂_same.mpr
  intro method _
  exact methodKept_refl _ method

/-- Cloning resolves the conflicts among constants unless an `invokevirtual` names a copy. -/
theorem clone_resolves_iff
    (cls : ParsedClass)
    (distinct : collisions.Nodup)
    (collide : ∀ index, index ∈ collisions ↔ index ∈ conflicts cls.methods)
    (room : cls.constants.length + collisions.length ≤ 65535) :
    (cloneInvokeSpecialVirtualConflicts cls.toInstanceClass
        (collisions.zipIdx cls.constants.length) = .error .outOfMemory ∨
      ∃ after, cloneInvokeSpecialVirtualConflicts cls.toInstanceClass
        (collisions.zipIdx cls.constants.length) = .ok after ∧
          ConflictsResolved cls.toInstanceClass after) ↔
      (∀ index ∈ collisions, index < cls.constants.length) ∧
        ∀ index, (invokevirtual, index) ∈ callsOf cls.methods →
          ¬ (cls.constants.length ≤ index ∧
            index < cls.constants.length + collisions.length) := by
  rw [cloneInvokeSpecialVirtualConflicts, cloneConstants_eq]
  by_cases allInside : ∀ index ∈ collisions, index < cls.constants.length
  · obtain ⟨methods', relocation, kept⟩ :=
      relocateMethods_spec distinct room cls.parsed cls.mirandas
    have separates := @separate_iff _ _ cls.constants.length distinct collide
    rw [← callsOf_relocated kept] at separates
    rw [if_pos allInside, ok_bind, relocation, ok_bind]
    constructor
    · rintro (failed | ⟨after, same, resolved⟩)
      · cases failed
      · cases same
        exact ⟨allInside, separates.mp resolved.separate⟩
    · rintro ⟨_, noCopy⟩
      refine Or.inr ⟨_, rfl, separates.mpr noCopy, ?_, ?_⟩
      · exact kept.imp fun _ _ changed => changed.kept allInside
      · intro index inside
        exact withCopies_kept collisions inside
  · rw [if_neg allInside]
    apply iff_of_false
    · rintro (failed | ⟨after, same, _⟩)
      · cases failed
      · cases same
    · intro named
      exact allInside named.1

/-- What is done with the list of collisions. -/
def resolveCollisions (cls : InstanceClass) (collisions : List Nat) :
    Except ConflictFault InstanceClass :=
  if collisions.length = 0 then
    .ok cls
  else if collisions.length + cls.constants.length > 65535 then
    .error .outOfMemory
  else
    cloneInvokeSpecialVirtualConflicts cls (collisions.zipIdx cls.constants.length)

/-- Operands inside the bitmaps lead to the list of their collisions. -/
theorem resolve_inBitmap
    (cls : ParsedClass)
    (inBitmap : ∀ call ∈ callsOf cls.methods, call.2 < 32 * (cls.constants.length / 32 + 1)) :
    ∃ collisions : List Nat, collisions.Nodup ∧
      (∀ index, index ∈ collisions ↔ index ∈ conflicts cls.methods) ∧
      resolveInvokeSpecialVirtualConflicts cls.toInstanceClass =
        resolveCollisions cls.toInstanceClass collisions := by
  obtain ⟨ids, run, recorded⟩ := recordCalls_inside
    (recorded_nil (cls.constants.length / 32 + 1))
    (fun call member => isCall_of_mem_callsOf member) (by
      intro call member
      have := inBitmap call member
      omega)
  rw [List.nil_append] at recorded
  refine ⟨members (both ids.special ids.virtual), members_nodup _, ?_, ?_⟩
  · intro index
    rw [mem_members_iff,
      holds_both_iff (recorded.specialLength.trans recorded.virtualLength.symm),
      recorded.special, recorded.virtual]
    rfl
  · rw [resolveInvokeSpecialVirtualConflicts,
      fillInInvokeIndexes_eq fun method member => (cls.parsed method member).walks]
    dsimp only
    rw [run]
    rfl

/-- An operand behind the bitmaps is recorded in memory that is not theirs. -/
theorem resolve_outside
    (cls : ParsedClass)
    (outside : ∃ call ∈ callsOf cls.methods,
      ¬ call.2 < 32 * (cls.constants.length / 32 + 1)) :
    resolveInvokeSpecialVirtualConflicts cls.toInstanceClass = .error .outsideArray := by
  have written := recordCalls_outside
    (recorded_nil (cls.constants.length / 32 + 1))
    (fun call member => isCall_of_mem_callsOf member) (by
      obtain ⟨call, member, far⟩ := outside
      exact ⟨call, member, by omega⟩)
  rw [resolveInvokeSpecialVirtualConflicts,
    fillInInvokeIndexes_eq fun method member => (cls.parsed method member).walks]
  dsimp only
  rw [written]
  rfl

end Pass

/-- The class file parser keeps its promise exactly on classes whose operands are in place. -/
theorem resolvesConflicts_iff (cls : ParsedClass) :
    ResolvesConflicts cls ↔ OperandsInPlace cls.toInstanceClass := by
  rw [ResolvesConflicts]
  by_cases inBitmap : ∀ call ∈ callsOf cls.methods,
      call.2 < 32 * (cls.constants.length / 32 + 1)
  · obtain ⟨collisions, distinct, collide, run⟩ := resolve_inBitmap cls inBitmap
    rw [run, resolveCollisions, operandsInPlace_iff distinct collide inBitmap]
    by_cases none : collisions.length = 0
    · have noConflict : ∀ index, index ∉ conflicts cls.methods := by
        intro index conflict
        rw [← collide, List.length_eq_zero_iff.mp none] at conflict
        cases conflict
      rw [if_pos none]
      apply iff_of_true
      · exact Or.inr ⟨_, rfl, conflictsResolved_refl noConflict⟩
      · intro _
        refine ⟨fun index member => absurd ((collide index).mp member) (noConflict index), ?_⟩
        intro index _ inCopies
        omega
    · rw [if_neg none]
      by_cases overflow : collisions.length + cls.constants.length > 65535
      · rw [if_pos overflow]
        apply iff_of_true (Or.inl rfl)
        intro room
        omega
      · have room : cls.constants.length + collisions.length ≤ 65535 := by
          omega
        rw [if_neg overflow, ← clone_resolves_iff cls distinct collide room]
        exact ⟨fun resolved _ => resolved, fun resolved => resolved room⟩
  · push Not at inBitmap
    obtain ⟨call, member, far⟩ := inBitmap
    rw [resolve_outside cls ⟨call, member, Nat.not_lt.mpr far⟩]
    apply iff_of_false
    · rintro (failed | ⟨after, same, _⟩)
      · cases failed
      · cases same
    · intro inPlace
      exact Nat.not_lt.mpr far (inPlace.inBitmap call member)

/-! ## A class with an operand behind its constants -/

/-- Both kinds of calls name the constant 5, and an `invokevirtual` names the first index behind
the constants. -/
def callsBehind : Code :=
  [183, 0, 5, 182, 0, 5, 182, 0, 7, 177]

def callsBehindMethod : CheckBytecodes.Method where
  code := callsBehind
  codeSizeFits := by decide
  maxExecutionStackCount := 2
  isNativeOrAbstract := false
  hasMonitorBytecodes := false
  hasInvokeBytecodes := true

theorem callsBehind_parsed : ParsedCode callsBehind :=
  @ParsedCode.checked callsBehindMethod callsBehindMethod rfl rfl

/-- A `Methodref` at 5, with the class, the pair and the texts it names. -/
def classBehind : ParsedClass where
  methods := [⟨callsBehind, true⟩]
  constants := [invalidConstant, ⟨1, 100⟩, ⟨1, 101⟩, ⟨12, 0x20001⟩, ⟨13, 102⟩, ⟨10, 0x30004⟩,
    ⟨1, 103⟩]
  parsed := by
    intro method member
    cases List.mem_singleton.mp member
    exact callsBehind_parsed
  mirandas := by
    intro method member other
    cases List.mem_singleton.mp member
    cases other
  constantCount := by decide

/-- The class with the copy of the constant 5 at 7. -/
def classBehindAfter : InstanceClass where
  methods := [⟨[183, 0, 7, 182, 0, 5, 182, 0, 7, 177], true⟩]
  constants := classBehind.constants ++ [⟨10, 0x30004⟩]

theorem operandBehind_shared : ¬ ResolvesConflicts classBehind := by
  have run : resolveInvokeSpecialVirtualConflicts classBehind.toInstanceClass =
      .ok classBehindAfter := by
    decide +kernel
  have shared : (invokespecial, 7) ∈ callsOf classBehindAfter.methods ∧
      (invokevirtual, 7) ∈ callsOf classBehindAfter.methods := by
    decide
  rintro (failed | ⟨after, same, resolved⟩)
  · rw [run] at failed
    cases failed
  · rw [run] at same
    cases same
    exact resolved.separate 7 shared

end PicoJvm.InvokeConflicts
