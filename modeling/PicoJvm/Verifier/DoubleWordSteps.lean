import PicoJvm.Verifier.DoubleWords

/-!
# Instructions keep doubles whole

One lemma for each call of the closure, put together by cases on the
instruction.
-/

namespace PicoJvm.Verifier

open PicoJvm.Lib.Fallible
open PicoJvm.Lib.Pairing

variable {frame frame' : Frame} {world : ClassWorld} {context : Context}

/-! ## Locals and arrays -/

theorem Frame.checkLocalRef_isReference
    {index : Nat} {slot : Slot}
    (checked : frame.checkLocalRef index = .ok slot) :
    slot.tag.isReference := by
  unfold Frame.checkLocalRef at checked
  split at checked
  · cases checked
  · rename_i found _
    split at checked
    · rename_i isObject
      cases checked
      rw [isObject]
      rfl
    · split at checked
      · rename_i isReference
        cases checked
        exact isReference
      · cases checked

theorem loadLocal_doublesWhole
    {kind : Kind} {index : Nat}
    (loaded : loadLocal kind index frame = .ok frame')
    (whole : frame.DoublesWhole) :
    frame'.DoublesWhole := by
  cases kind with
  | object =>
      obtain ⟨slot, checked, pushed⟩ := bind_eq_ok_iff.mp loaded
      have isReference := Frame.checkLocalRef_isReference checked
      exact Frame.push_doublesWhole (isSingle_of_isReference isReference) pushed whole
  | primitive type =>
      obtain ⟨⟨⟩, _, pushed⟩ := bind_eq_ok_iff.mp loaded
      exact pushPrimitive_doublesWhole pushed whole

theorem storeLocal_doublesWhole
    {kind : Kind} {index : Nat}
    (stored : storeLocal kind index frame = .ok frame')
    (whole : frame.DoublesWhole) :
    frame'.DoublesWhole := by
  cases kind with
  | object =>
      obtain ⟨⟨slot, middle⟩, popped, set⟩ := bind_eq_ok_iff.mp stored
      obtain ⟨isSingle, whole⟩ := Frame.popRef_doublesWhole popped whole
      exact Frame.setLocal_doublesWhole isSingle.1 set whole
  | primitive type =>
      obtain ⟨middle, popped, set⟩ := bind_eq_ok_iff.mp stored
      exact setPrimitiveLocal_doublesWhole set (popPrimitive_doublesWhole popped whole)

theorem isSingle_integer : tagHalves.IsSingle .integer := by
  rw [isSingle_iff]
  decide

theorem isSingle_float : tagHalves.IsSingle .float := by
  rw [isSingle_iff]
  decide

theorem arrayLength_doublesWhole
    (measured : arrayLength frame = .ok frame')
    (whole : frame.DoublesWhole) :
    frame'.DoublesWhole := by
  obtain ⟨⟨slot, middle⟩, popped, pushed⟩ := bind_eq_ok_iff.mp measured
  have whole := (Frame.popRef_doublesWhole popped whole).2
  dsimp only at pushed
  split at pushed
  · exact Frame.push_doublesWhole isSingle_integer pushed whole
  · cases pushed

theorem loadArray_doublesWhole
    {kind : Kind}
    (loaded : loadArray kind frame = .ok frame')
    (whole : frame.DoublesWhole) :
    frame'.DoublesWhole := by
  obtain ⟨middle, poppedIndex, loaded⟩ := bind_eq_ok_iff.mp loaded
  have whole := popInteger_doublesWhole poppedIndex whole
  cases kind with
  | object =>
      obtain ⟨⟨slot, middle'⟩, popped, pushed⟩ := bind_eq_ok_iff.mp loaded
      have whole := (Frame.popRef_doublesWhole popped whole).2
      dsimp only at pushed
      split at pushed
      · exact Frame.push_doublesWhole (isSingle_of_isReference rfl) pushed whole
      · split at pushed
        · exact Frame.push_doublesWhole (isSingle_of_isReference rfl) pushed whole
        · cases pushed
  | primitive type =>
      obtain ⟨middle', popped, pushed⟩ := bind_eq_ok_iff.mp loaded
      exact pushPrimitive_doublesWhole pushed (popArrayOf_doublesWhole popped whole)

theorem storeArray_doublesWhole
    {kind : Kind}
    (stored : storeArray kind frame = .ok frame')
    (whole : frame.DoublesWhole) :
    frame'.DoublesWhole := by
  cases kind with
  | object =>
      obtain ⟨⟨element, frame1⟩, popped1, stored⟩ := bind_eq_ok_iff.mp stored
      obtain ⟨frame2, popped2, stored⟩ := bind_eq_ok_iff.mp stored
      obtain ⟨⟨array, frame3⟩, popped3, stored⟩ := bind_eq_ok_iff.mp stored
      have whole := (Frame.popRef_doublesWhole popped1 whole).2
      have whole := popInteger_doublesWhole popped2 whole
      have whole := (Frame.popRef_doublesWhole popped3 whole).2
      obtain ⟨_, stored⟩ := guarded_eq_ok_iff.mp stored
      obtain ⟨_, ok⟩ := guarded_eq_ok_iff.mp stored
      cases ok
      exact whole
  | primitive type =>
      obtain ⟨frame1, popped1, stored⟩ := bind_eq_ok_iff.mp stored
      obtain ⟨frame2, popped2, popped3⟩ := bind_eq_ok_iff.mp stored
      have whole := popPrimitive_doublesWhole popped1 whole
      have whole := popInteger_doublesWhole popped2 whole
      exact popArrayOf_doublesWhole popped3 whole

/-! ## Stack shuffles -/

theorem dup_doublesWhole
    (shuffled : dup frame = .ok frame')
    (whole : frame.DoublesWhole) :
    frame'.DoublesWhole := by
  obtain ⟨⟨first, frame1⟩, popped, shuffled⟩ := bind_eq_ok_iff.mp shuffled
  obtain ⟨frame2, pushed1, pushed2⟩ := bind_eq_ok_iff.mp shuffled
  obtain ⟨isSingle, whole⟩ := Frame.popCategory1_doublesWhole popped whole
  have whole := Frame.push_doublesWhole isSingle pushed1 whole
  exact Frame.push_doublesWhole isSingle pushed2 whole

theorem dup2_doublesWhole
    (shuffled : dup2 frame = .ok frame')
    (whole : frame.DoublesWhole) :
    frame'.DoublesWhole := by
  obtain ⟨⟨first, second, frame1⟩, popped, shuffled⟩ := bind_eq_ok_iff.mp shuffled
  obtain ⟨frame2, pushed1, pushed2⟩ := bind_eq_ok_iff.mp shuffled
  obtain ⟨paired, whole⟩ := Frame.popCategory2_doublesWhole popped whole
  have whole := Frame.push2_doublesWhole paired pushed1 whole
  exact Frame.push2_doublesWhole paired pushed2 whole

theorem dupX1_doublesWhole
    (shuffled : dupX1 frame = .ok frame')
    (whole : frame.DoublesWhole) :
    frame'.DoublesWhole := by
  obtain ⟨⟨first, frame1⟩, popped1, shuffled⟩ := bind_eq_ok_iff.mp shuffled
  obtain ⟨⟨second, frame2⟩, popped2, shuffled⟩ := bind_eq_ok_iff.mp shuffled
  obtain ⟨frame3, pushed1, shuffled⟩ := bind_eq_ok_iff.mp shuffled
  obtain ⟨frame4, pushed2, pushed3⟩ := bind_eq_ok_iff.mp shuffled
  obtain ⟨isSingle1, whole⟩ := Frame.popCategory1_doublesWhole popped1 whole
  obtain ⟨isSingle2, whole⟩ := Frame.popCategory1_doublesWhole popped2 whole
  have whole := Frame.push_doublesWhole isSingle1 pushed1 whole
  have whole := Frame.push_doublesWhole isSingle2 pushed2 whole
  exact Frame.push_doublesWhole isSingle1 pushed3 whole

theorem dup2X1_doublesWhole
    (shuffled : dup2X1 frame = .ok frame')
    (whole : frame.DoublesWhole) :
    frame'.DoublesWhole := by
  obtain ⟨⟨first, second, frame1⟩, popped1, shuffled⟩ := bind_eq_ok_iff.mp shuffled
  obtain ⟨⟨third, frame2⟩, popped2, shuffled⟩ := bind_eq_ok_iff.mp shuffled
  obtain ⟨frame3, pushed1, shuffled⟩ := bind_eq_ok_iff.mp shuffled
  obtain ⟨frame4, pushed2, pushed3⟩ := bind_eq_ok_iff.mp shuffled
  obtain ⟨paired, whole⟩ := Frame.popCategory2_doublesWhole popped1 whole
  obtain ⟨isSingle, whole⟩ := Frame.popCategory1_doublesWhole popped2 whole
  have whole := Frame.push2_doublesWhole paired pushed1 whole
  have whole := Frame.push_doublesWhole isSingle pushed2 whole
  exact Frame.push2_doublesWhole paired pushed3 whole

theorem dupX2_doublesWhole
    (shuffled : dupX2 frame = .ok frame')
    (whole : frame.DoublesWhole) :
    frame'.DoublesWhole := by
  obtain ⟨⟨first, frame1⟩, popped1, shuffled⟩ := bind_eq_ok_iff.mp shuffled
  obtain ⟨⟨second, third, frame2⟩, popped2, shuffled⟩ := bind_eq_ok_iff.mp shuffled
  obtain ⟨frame3, pushed1, shuffled⟩ := bind_eq_ok_iff.mp shuffled
  obtain ⟨frame4, pushed2, pushed3⟩ := bind_eq_ok_iff.mp shuffled
  obtain ⟨isSingle, whole⟩ := Frame.popCategory1_doublesWhole popped1 whole
  obtain ⟨paired, whole⟩ := Frame.popCategory2_doublesWhole popped2 whole
  have whole := Frame.push_doublesWhole isSingle pushed1 whole
  have whole := Frame.push2_doublesWhole paired pushed2 whole
  exact Frame.push_doublesWhole isSingle pushed3 whole

theorem dup2X2_doublesWhole
    (shuffled : dup2X2 frame = .ok frame')
    (whole : frame.DoublesWhole) :
    frame'.DoublesWhole := by
  obtain ⟨⟨first, second, frame1⟩, popped1, shuffled⟩ := bind_eq_ok_iff.mp shuffled
  obtain ⟨⟨third, fourth, frame2⟩, popped2, shuffled⟩ := bind_eq_ok_iff.mp shuffled
  obtain ⟨frame3, pushed1, shuffled⟩ := bind_eq_ok_iff.mp shuffled
  obtain ⟨frame4, pushed2, pushed3⟩ := bind_eq_ok_iff.mp shuffled
  obtain ⟨paired1, whole⟩ := Frame.popCategory2_doublesWhole popped1 whole
  obtain ⟨paired2, whole⟩ := Frame.popCategory2_doublesWhole popped2 whole
  have whole := Frame.push2_doublesWhole paired1 pushed1 whole
  have whole := Frame.push2_doublesWhole paired2 pushed2 whole
  exact Frame.push2_doublesWhole paired1 pushed3 whole

theorem swap_doublesWhole
    (shuffled : swap frame = .ok frame')
    (whole : frame.DoublesWhole) :
    frame'.DoublesWhole := by
  obtain ⟨⟨first, frame1⟩, popped1, shuffled⟩ := bind_eq_ok_iff.mp shuffled
  obtain ⟨⟨second, frame2⟩, popped2, shuffled⟩ := bind_eq_ok_iff.mp shuffled
  obtain ⟨frame3, pushed1, pushed2⟩ := bind_eq_ok_iff.mp shuffled
  obtain ⟨isSingle1, whole⟩ := Frame.popCategory1_doublesWhole popped1 whole
  obtain ⟨isSingle2, whole⟩ := Frame.popCategory1_doublesWhole popped2 whole
  have whole := Frame.push_doublesWhole isSingle1 pushed1 whole
  exact Frame.push_doublesWhole isSingle2 pushed2 whole

/-! ## Arithmetic and control -/

theorem binary_doublesWhole
    {type : PrimitiveType} {op : BinaryOp}
    (computed : binary type op frame = .ok frame')
    (whole : frame.DoublesWhole) :
    frame'.DoublesWhole := by
  obtain ⟨frame1, popped1, computed⟩ := bind_eq_ok_iff.mp computed
  obtain ⟨frame2, popped2, pushed⟩ := bind_eq_ok_iff.mp computed
  have whole := popPrimitive_doublesWhole popped1 whole
  have whole := popPrimitive_doublesWhole popped2 whole
  exact pushPrimitive_doublesWhole pushed whole

theorem convert_doublesWhole
    {source target : PrimitiveType}
    (converted : convert source target frame = .ok frame')
    (whole : frame.DoublesWhole) :
    frame'.DoublesWhole := by
  obtain ⟨frame1, popped, pushed⟩ := bind_eq_ok_iff.mp converted
  exact pushPrimitive_doublesWhole pushed (popPrimitive_doublesWhole popped whole)

theorem compare_doublesWhole
    {type : PrimitiveType}
    (compared : compare type frame = .ok frame')
    (whole : frame.DoublesWhole) :
    frame'.DoublesWhole := by
  obtain ⟨frame1, popped1, compared⟩ := bind_eq_ok_iff.mp compared
  obtain ⟨frame2, popped2, pushed⟩ := bind_eq_ok_iff.mp compared
  have whole := popPrimitive_doublesWhole popped1 whole
  have whole := popPrimitive_doublesWhole popped2 whole
  exact pushPrimitive_doublesWhole pushed whole

theorem returnOp_doublesWhole
    {kind : Option Kind}
    (returned : returnOp context kind frame = .ok frame')
    (whole : frame.DoublesWhole) :
    frame'.DoublesWhole := by
  obtain ⟨_, returned⟩ := guarded_eq_ok_iff.mp returned
  obtain ⟨_, returned⟩ := guarded_eq_ok_iff.mp returned
  split at returned
  · cases returned
    exact whole
  · exact Frame.popObject_doublesWhole returned whole
  · exact popPrimitive_doublesWhole returned whole

theorem popTested_doublesWhole
    {isNullTest : Bool}
    (popped : popTested isNullTest frame = .ok frame')
    (whole : frame.DoublesWhole) :
    frame'.DoublesWhole := by
  cases isNullTest with
  | true =>
      exact dropRef_doublesWhole popped whole
  | false =>
      exact popInteger_doublesWhole popped whole

/-- Checking a branch target leaves the frame alone. -/
theorem checkTarget_eq
    {target : Int}
    (checked : checkTarget context target frame = .ok frame') :
    frame' = frame := by
  unfold checkTarget checkStackmapMatch at checked
  split at checked
  · cases checked
  · exact (Frame.matchStackMap_tags checked).1 rfl

theorem checkTargets_eq
    {targets : List Int}
    (checked : checkTargets context targets frame = .ok frame') :
    frame' = frame := by
  induction targets generalizing frame with
  | nil =>
      cases checked
      rfl
  | cons target rest inductionHypothesis =>
      obtain ⟨middle, first, later⟩ := bind_eq_ok_iff.mp checked
      rw [inductionHypothesis later, checkTarget_eq first]

theorem checkLookup_eq
    {last : Option Int} {pairs : List (Int × Int)}
    (checked : checkLookup context last pairs frame = .ok frame') :
    frame' = frame := by
  induction pairs generalizing last frame with
  | nil =>
      cases checked
      rfl
  | cons pair rest inductionHypothesis =>
      obtain ⟨_, checked⟩ := guarded_eq_ok_iff.mp checked
      obtain ⟨middle, first, later⟩ := bind_eq_ok_iff.mp checked
      rw [inductionHypothesis later, checkTarget_eq first]

/-! ## Fields and calls -/

theorem popFieldOwner_doublesWhole
    {holder target : ClassName} {name : String} {type : FieldType}
    (popped : popFieldOwner context holder target name type frame = .ok frame')
    (whole : frame.DoublesWhole) :
    frame'.DoublesWhole := by
  obtain ⟨⟨slot, frame1⟩, poppedRef, popped⟩ := bind_eq_ok_iff.mp popped
  obtain ⟨frame2, pushed, poppedObject⟩ := bind_eq_ok_iff.mp popped
  obtain ⟨isSingle, whole⟩ := Frame.popRef_doublesWhole poppedRef whole
  have whole : frame2.DoublesWhole := by
    apply Frame.push_doublesWhole _ pushed whole
    split
    · exact isSingle_of_isReference rfl
    · exact isSingle
  exact Frame.popObject_doublesWhole poppedObject whole

theorem handleFieldReference_doublesWhole
    {index : Nat} {isStatic isPut : Bool}
    (handled : handleFieldReference context index isStatic isPut frame = .ok frame')
    (whole : frame.DoublesWhole) :
    frame'.DoublesWhole := by
  obtain ⟨entry, _, handled⟩ := bind_eq_ok_iff.mp handled
  dsimp only at handled
  split at handled
  · split at handled
    · cases handled
    · cases isPut with
      | true =>
          obtain ⟨frame1, popped, handled⟩ := bind_eq_ok_iff.mp handled
          have whole := popValue_doublesWhole popped whole
          cases isStatic with
          | true =>
              cases handled
              exact whole
          | false =>
              exact popFieldOwner_doublesWhole handled whole
      | false =>
          cases isStatic with
          | true =>
              exact pushValue_doublesWhole handled whole
          | false =>
              obtain ⟨frame1, popped, pushed⟩ := bind_eq_ok_iff.mp handled
              exact pushValue_doublesWhole pushed (Frame.popObject_doublesWhole popped whole)
  · cases handled

theorem initReceiver_doublesWhole
    {holder : ClassName}
    (received : initReceiver context holder frame = .ok frame')
    (whole : frame.DoublesWhole) :
    frame'.DoublesWhole := by
  obtain ⟨⟨receiver, middle⟩, popped, received⟩ := bind_eq_ok_iff.mp received
  have whole := (Frame.popCategory1_doublesWhole popped whole).2
  dsimp only at received
  split at received
  · rename_i newBci isNew
    obtain ⟨name, _, ok⟩ := bind_eq_ok_iff.mp received
    cases ok
    exact Frame.replaceStackType_doublesWhole (by rw [isNew]; rfl) rfl whole
  · rename_i isThis
    obtain ⟨_, received⟩ := guarded_eq_ok_iff.mp received
    obtain ⟨_, received⟩ := guarded_eq_ok_iff.mp received
    obtain ⟨_, ok⟩ := guarded_eq_ok_iff.mp received
    cases ok
    have unneeded : ({ middle with needInitialization := false } : Frame).DoublesWhole :=
      ⟨whole.locals, whole.stack⟩
    exact Frame.replaceStackType_doublesWhole (by rw [isThis]; rfl) rfl unneeded
  · cases received

theorem plainReceiver_doublesWhole
    {opcode : InvokeCode} {index : Nat} {holder : ClassName}
    (received : plainReceiver context opcode index holder frame = .ok frame')
    (whole : frame.DoublesWhole) :
    frame'.DoublesWhole := by
  unfold plainReceiver at received
  split at received
  · split at received
    · exact Frame.popObject_doublesWhole received whole
    · cases received
  · split at received
    · cases received
    · exact Frame.popObject_doublesWhole received whole
  · exact Frame.popObject_doublesWhole received whole

theorem popReceiver_doublesWhole
    {opcode : InvokeCode} {index : Nat} {holder : ClassName} {name : String}
    (received : popReceiver context opcode index holder name frame = .ok frame')
    (whole : frame.DoublesWhole) :
    frame'.DoublesWhole := by
  unfold popReceiver at received
  split at received
  · cases received
    exact whole
  · split at received
    · exact initReceiver_doublesWhole received whole
    · exact plainReceiver_doublesWhole received whole

theorem pushInvokeResult_doublesWhole
    {signature : Signature}
    (pushed : pushInvokeResult signature frame = .ok frame')
    (whole : frame.DoublesWhole) :
    frame'.DoublesWhole := by
  unfold pushInvokeResult at pushed
  split at pushed
  · cases pushed
    exact whole
  · exact pushValue_doublesWhole pushed whole

theorem invokeMember_doublesWhole
    {opcode : InvokeCode} {index words : Nat} {holder : ClassName} {name : String}
    {signature : Signature}
    (invoked : invokeMember context opcode index holder name signature frame =
      .ok (words, frame'))
    (whole : frame.DoublesWhole) :
    frame'.DoublesWhole := by
  obtain ⟨⟨words', frame1⟩, popped, invoked⟩ := bind_eq_ok_iff.mp invoked
  obtain ⟨_, invoked⟩ := guarded_eq_ok_iff.mp invoked
  obtain ⟨frame2, received, invoked⟩ := bind_eq_ok_iff.mp invoked
  obtain ⟨frame3, pushed, ok⟩ := bind_eq_ok_iff.mp invoked
  cases ok
  have whole := Frame.popInvokeArguments_doublesWhole popped whole
  have whole := popReceiver_doublesWhole received whole
  exact pushInvokeResult_doublesWhole pushed whole

theorem handleInvoker_doublesWhole
    {opcode : InvokeCode} {index words : Nat}
    (handled : handleInvoker context opcode index frame = .ok (words, frame'))
    (whole : frame.DoublesWhole) :
    frame'.DoublesWhole := by
  obtain ⟨entry, _, handled⟩ := bind_eq_ok_iff.mp handled
  split at handled
  · exact invokeMember_doublesWhole handled whole
  · exact invokeMember_doublesWhole handled whole
  · cases handled

theorem invokeInterface_doublesWhole
    {index numOfArgs zeroByte : Nat}
    (invoked : invokeInterface context index numOfArgs zeroByte frame = .ok frame')
    (whole : frame.DoublesWhole) :
    frame'.DoublesWhole := by
  obtain ⟨⟨words, frame1⟩, handled, invoked⟩ := bind_eq_ok_iff.mp invoked
  obtain ⟨_, invoked⟩ := guarded_eq_ok_iff.mp invoked
  obtain ⟨_, ok⟩ := guarded_eq_ok_iff.mp invoked
  cases ok
  exact handleInvoker_doublesWhole handled whole

theorem invokeOther_doublesWhole
    {opcode : InvokeCode} {index : Nat}
    (invoked : invokeOther context opcode index frame = .ok frame')
    (whole : frame.DoublesWhole) :
    frame'.DoublesWhole := by
  obtain ⟨⟨words, frame1⟩, handled, ok⟩ := bind_eq_ok_iff.mp invoked
  cases ok
  exact handleInvoker_doublesWhole handled whole

/-! ## Allocation and casts -/

theorem newObject_doublesWhole
    {index : Nat}
    (allocated : newObject context index frame = .ok frame')
    (whole : frame.DoublesWhole) :
    frame'.DoublesWhole := by
  obtain ⟨name, _, allocated⟩ := bind_eq_ok_iff.mp allocated
  obtain ⟨_, pushed⟩ := guarded_eq_ok_iff.mp allocated
  exact Frame.push_doublesWhole (isSingle_of_isReference rfl) pushed whole

theorem newBasicArray_doublesWhole
    {type : Nat}
    (allocated : newBasicArray type frame = .ok frame')
    (whole : frame.DoublesWhole) :
    frame'.DoublesWhole := by
  obtain ⟨frame1, popped, allocated⟩ := bind_eq_ok_iff.mp allocated
  have whole := popInteger_doublesWhole popped whole
  split at allocated
  · exact Frame.push_doublesWhole (isSingle_of_isReference rfl) allocated whole
  · cases allocated

theorem newObjectArray_doublesWhole
    {index : Nat}
    (allocated : newObjectArray context index frame = .ok frame')
    (whole : frame.DoublesWhole) :
    frame'.DoublesWhole := by
  obtain ⟨name, _, allocated⟩ := bind_eq_ok_iff.mp allocated
  obtain ⟨frame1, popped, pushed⟩ := bind_eq_ok_iff.mp allocated
  have whole := popInteger_doublesWhole popped whole
  exact Frame.push_doublesWhole (isSingle_of_isReference rfl) pushed whole

theorem popDimensions_doublesWhole
    {dim left : Nat} {name : ClassName}
    (popped : popDimensions dim name frame = .ok (left, frame'))
    (whole : frame.DoublesWhole) :
    frame'.DoublesWhole := by
  induction dim generalizing name frame with
  | zero =>
      cases popped
      exact whole
  | succ dim inductionHypothesis =>
      obtain ⟨frame1, poppedOne, popped⟩ := bind_eq_ok_iff.mp popped
      have whole := popInteger_doublesWhole poppedOne whole
      split at popped
      · split at popped
        · exact inductionHypothesis popped whole
        · cases popped
          exact whole
      · cases popped
        exact whole

theorem newMultiArray_doublesWhole
    {index dim : Nat}
    (allocated : newMultiArray context index dim frame = .ok frame')
    (whole : frame.DoublesWhole) :
    frame'.DoublesWhole := by
  obtain ⟨name, _, allocated⟩ := bind_eq_ok_iff.mp allocated
  dsimp only at allocated
  split at allocated
  · obtain ⟨⟨left, frame1⟩, popped, allocated⟩ := bind_eq_ok_iff.mp allocated
    have whole := popDimensions_doublesWhole popped whole
    dsimp only at allocated
    split at allocated
    · exact Frame.push_doublesWhole (isSingle_of_isReference rfl) allocated whole
    · cases allocated
  · cases allocated

theorem checkCast_doublesWhole
    {index : Nat}
    (cast : checkCast context index frame = .ok frame')
    (whole : frame.DoublesWhole) :
    frame'.DoublesWhole := by
  obtain ⟨name, _, cast⟩ := bind_eq_ok_iff.mp cast
  obtain ⟨frame1, popped, pushed⟩ := bind_eq_ok_iff.mp cast
  have whole := Frame.popObject_doublesWhole popped whole
  exact Frame.push_doublesWhole (isSingle_of_isReference rfl) pushed whole

theorem instanceOf_doublesWhole
    {index : Nat}
    (tested : instanceOf context index frame = .ok frame')
    (whole : frame.DoublesWhole) :
    frame'.DoublesWhole := by
  obtain ⟨name, _, tested⟩ := bind_eq_ok_iff.mp tested
  obtain ⟨frame1, popped, pushed⟩ := bind_eq_ok_iff.mp tested
  have whole := Frame.popObject_doublesWhole popped whole
  exact Frame.push_doublesWhole isSingle_integer pushed whole

/-! ## One instruction -/

theorem verifyInstruction_doublesWhole
    {instruction : Instruction}
    (verified : verifyInstruction context instruction frame = .ok frame')
    (whole : frame.DoublesWhole) :
    frame'.DoublesWhole := by
  cases instruction with
  | pushInt =>
      exact Frame.push_doublesWhole isSingle_integer verified whole
  | pushLong =>
      exact pushPrimitive_doublesWhole verified whole
  | pushFloat =>
      exact Frame.push_doublesWhole isSingle_float verified whole
  | pushDouble =>
      exact pushPrimitive_doublesWhole verified whole
  | pushObj isNull =>
      apply Frame.push_doublesWhole _ verified whole
      cases isNull <;> exact isSingle_of_isReference rfl
  | loadLocal kind index =>
      exact loadLocal_doublesWhole verified whole
  | storeLocal kind index =>
      exact storeLocal_doublesWhole verified whole
  | incrementLocalInt index =>
      obtain ⟨⟨⟩, _, ok⟩ := bind_eq_ok_iff.mp verified
      cases ok
      exact whole
  | arrayLength =>
      exact arrayLength_doublesWhole verified whole
  | loadArray kind =>
      exact loadArray_doublesWhole verified whole
  | storeArray kind =>
      exact storeArray_doublesWhole verified whole
  | nop =>
      cases verified
      exact whole
  | pop =>
      obtain ⟨⟨slot, middle⟩, popped, ok⟩ := bind_eq_ok_iff.mp verified
      cases ok
      exact (Frame.popCategory1_doublesWhole popped whole).2
  | pop2 =>
      obtain ⟨⟨first, second, middle⟩, popped, ok⟩ := bind_eq_ok_iff.mp verified
      cases ok
      exact (Frame.popCategory2_doublesWhole popped whole).2
  | dup =>
      exact dup_doublesWhole verified whole
  | dup2 =>
      exact dup2_doublesWhole verified whole
  | dupX1 =>
      exact dupX1_doublesWhole verified whole
  | dup2X1 =>
      exact dup2X1_doublesWhole verified whole
  | dupX2 =>
      exact dupX2_doublesWhole verified whole
  | dup2X2 =>
      exact dup2X2_doublesWhole verified whole
  | swap =>
      exact swap_doublesWhole verified whole
  | neg type =>
      exact convert_doublesWhole verified whole
  | binary type op =>
      exact binary_doublesWhole verified whole
  | convert source target =>
      exact convert_doublesWhole verified whole
  | branchIf isNullTest dest =>
      obtain ⟨middle, popped, checked⟩ := bind_eq_ok_iff.mp verified
      rw [checkTarget_eq checked]
      exact popTested_doublesWhole popped whole
  | branchIfIcmp dest =>
      obtain ⟨frame1, popped1, verified⟩ := bind_eq_ok_iff.mp verified
      obtain ⟨frame2, popped2, checked⟩ := bind_eq_ok_iff.mp verified
      rw [checkTarget_eq checked]
      exact popInteger_doublesWhole popped2 (popInteger_doublesWhole popped1 whole)
  | branchIfAcmp dest =>
      obtain ⟨frame1, popped1, verified⟩ := bind_eq_ok_iff.mp verified
      obtain ⟨frame2, popped2, checked⟩ := bind_eq_ok_iff.mp verified
      rw [checkTarget_eq checked]
      exact dropRef_doublesWhole popped2 (dropRef_doublesWhole popped1 whole)
  | compare type =>
      exact compare_doublesWhole verified whole
  | branch dest =>
      rw [checkTarget_eq verified]
      exact whole
  | returnOp kind =>
      exact returnOp_doublesWhole verified whole
  | tableSwitch defaultDest dests =>
      obtain ⟨middle, popped, checked⟩ := bind_eq_ok_iff.mp verified
      rw [checkTargets_eq checked]
      exact popInteger_doublesWhole popped whole
  | lookupSwitch defaultDest pairs =>
      obtain ⟨frame1, popped, verified⟩ := bind_eq_ok_iff.mp verified
      obtain ⟨frame2, checked, looked⟩ := bind_eq_ok_iff.mp verified
      rw [checkLookup_eq looked, checkTarget_eq checked]
      exact popInteger_doublesWhole popped whole
  | getField index =>
      exact handleFieldReference_doublesWhole verified whole
  | putField index =>
      exact handleFieldReference_doublesWhole verified whole
  | getStatic index =>
      exact handleFieldReference_doublesWhole verified whole
  | putStatic index =>
      exact handleFieldReference_doublesWhole verified whole
  | invokeInterface index numOfArgs zeroByte =>
      exact invokeInterface_doublesWhole verified whole
  | invokeSpecial index =>
      exact invokeOther_doublesWhole verified whole
  | invokeStatic index =>
      exact invokeOther_doublesWhole verified whole
  | invokeVirtual index =>
      exact invokeOther_doublesWhole verified whole
  | throwException =>
      exact Frame.popObject_doublesWhole verified whole
  | newObject index =>
      exact newObject_doublesWhole verified whole
  | newBasicArray type =>
      exact newBasicArray_doublesWhole verified whole
  | newObjectArray index =>
      exact newObjectArray_doublesWhole verified whole
  | newMultiArray index dim =>
      exact newMultiArray_doublesWhole verified whole
  | checkCast index =>
      exact checkCast_doublesWhole verified whole
  | instanceOf index =>
      exact instanceOf_doublesWhole verified whole
  | monitorEnter =>
      exact dropRef_doublesWhole verified whole
  | monitorExit =>
      exact dropRef_doublesWhole verified whole
  | illegalCode =>
      cases verified

end PicoJvm.Verifier
