import PicoJvm.Verifier.DoubleWordSteps

/-!
# The frames a verification reaches

The frames between the instructions of a method, in the order in which
`Method::iterate` comes to them, and what the assertions of the verifier find in
them. The assertions are compiled out of a product build.
-/

namespace PicoJvm.Verifier

open PicoJvm.Lib.Fallible
open PicoJvm.Lib.Pairing
open PicoJvm.CheckBytecodes (lengthForAt)

/-! ## Reaching a frame -/

/-- The states in front of each bytecode index that the verification comes to. -/
inductive Arrives (method : Method) (world : ClassWorld) : Nat → VerifyState → Prop
  | start {frame : Frame} :
      initializeLocals method world = .ok frame →
        Arrives method world 0 ⟨frame, method.stackmaps, false⟩
  | next {bci : Nat} {state entered : VerifyState} {frame : Frame} {length : Int} :
      Arrives method world bci state →
      bci < method.code.length →
      bytecodeProlog ⟨method, world, bci⟩ state = .ok entered →
      verifyInstruction ⟨method, world, bci⟩ (decode method.code method.constants bci)
        entered.frame = .ok frame →
      lengthForAt method.code bci = .ok length →
      0 < length →
        Arrives method world (bci + length.toNat)
          ⟨frame, entered.remaining, (decode method.code method.constants bci).endsFlow⟩

/-- The frames of a verification: in front of an instruction, before and after the
stack map there, and on the way to a handler. -/
inductive ReachedFrame (method : Method) (world : ClassWorld) : Frame → Prop
  | arrived {bci : Nat} {state : VerifyState} :
      Arrives method world bci state →
        ReachedFrame method world state.frame
  | current {bci : Nat} {state : VerifyState} {frame : Frame} :
      Arrives method world bci state →
      bci < method.code.length →
      checkCurrentTarget ⟨method, world, bci⟩ state.noControlFlow state.frame = .ok frame →
        ReachedFrame method world frame
  | handling {frame thrown : Frame} {name : ClassName} :
      ReachedFrame method world frame →
      ({ frame with stack := [] } : Frame).push (.object name) = .ok thrown →
        ReachedFrame method world thrown

variable {method : Method} {world : ClassWorld} {context : Context}
  {frame frame' : Frame}

/-! ## Doubles in every frame -/

theorem initializeParameters_doublesWhole
    {parameters : List FieldType} {index next : Nat}
    (initialized : initializeParameters parameters index frame = .ok (next, frame'))
    (whole : frame.DoublesWhole) :
    frame'.DoublesWhole := by
  induction parameters generalizing index frame with
  | nil =>
      cases initialized
      exact whole
  | cons type rest inductionHypothesis =>
      cases type with
      | primitive type =>
          obtain ⟨middle, set, later⟩ := bind_eq_ok_iff.mp initialized
          exact inductionHypothesis later (setPrimitiveLocal_doublesWhole set whole)
      | reference name =>
          obtain ⟨middle, set, later⟩ := bind_eq_ok_iff.mp initialized
          exact inductionHypothesis later (Frame.setLocal_doublesWhole rfl set whole)

theorem clearLocals_doublesWhole
    {count index : Nat}
    (cleared : clearLocals count index frame = .ok frame')
    (whole : frame.DoublesWhole) :
    frame'.DoublesWhole := by
  induction count generalizing index frame with
  | zero =>
      cases cleared
      exact whole
  | succ count inductionHypothesis =>
      obtain ⟨middle, set, later⟩ := bind_eq_ok_iff.mp cleared
      exact inductionHypothesis later (Frame.setLocal_doublesWhole rfl set whole)

theorem initializeThis_doublesWhole
    (initialized : initializeThis method world frame = .ok frame')
    (whole : frame.DoublesWhole) :
    frame'.DoublesWhole := by
  unfold initializeThis at initialized
  split at initialized
  · cases initialized
    exact whole
  · split at initialized
    · have needing : ({ frame with needInitialization := true } : Frame).DoublesWhole :=
        ⟨whole.locals, whole.stack⟩
      exact Frame.setLocal_doublesWhole rfl initialized needing
    · exact Frame.setLocal_doublesWhole rfl initialized whole

theorem initializeLocals_doublesWhole
    (initialized : initializeLocals method world = .ok frame) :
    frame.DoublesWhole := by
  obtain ⟨frame1, this, initialized⟩ := bind_eq_ok_iff.mp initialized
  obtain ⟨⟨next, frame2⟩, parameters, cleared⟩ := bind_eq_ok_iff.mp initialized
  have empty : (⟨method.maxStack, List.replicate method.maxLocals (.of .bogus), [], false⟩ :
      Frame).DoublesWhole := by
    refine ⟨?_, .nil⟩
    apply Paired.followed
    apply Paired.of_forall_single
    intro tag member
    rw [List.map_replicate] at member
    rw [List.eq_of_mem_replicate member]
    exact isSingle_bogus
  have whole := initializeThis_doublesWhole this empty
  have whole := initializeParameters_doublesWhole parameters whole
  exact clearLocals_doublesWhole cleared whole

theorem checkCurrentTarget_doublesWhole
    {noControlFlow : Bool}
    (mapsWhole : ∀ map ∈ context.method.stackmaps, map.DoublesWhole)
    (checked : checkCurrentTarget context noControlFlow frame = .ok frame')
    (whole : frame.DoublesWhole) :
    frame'.DoublesWhole := by
  unfold checkCurrentTarget checkStackmapMatch at checked
  split at checked
  · obtain ⟨_, ok⟩ := guarded_eq_ok_iff.mp checked
    cases ok
    exact whole
  · rename_i map found
    have member : map ∈ context.method.stackmaps := List.mem_of_find?_eq_some found
    exact Frame.matchStackMap_doublesWhole (mapsWhole map member) checked whole

/-- The frame after the prolog is the one that the stack map there leaves. -/
theorem bytecodeProlog_frame
    {state entered : VerifyState}
    (prolog : bytecodeProlog context state = .ok entered) :
    checkCurrentTarget context state.noControlFlow state.frame = .ok entered.frame := by
  obtain ⟨remaining, _, prolog⟩ := bind_eq_ok_iff.mp prolog
  obtain ⟨frame, checked, prolog⟩ := bind_eq_ok_iff.mp prolog
  obtain ⟨⟨⟩, _, ok⟩ := bind_eq_ok_iff.mp prolog
  cases ok
  exact checked

theorem Arrives.doublesWhole
    {bci : Nat} {state : VerifyState}
    (isParsed : method.IsParsed)
    (arrives : Arrives method world bci state) :
    state.frame.DoublesWhole := by
  induction arrives with
  | start initialized =>
      exact initializeLocals_doublesWhole initialized
  | next _ _ prolog verified _ _ inductionHypothesis =>
      have whole := checkCurrentTarget_doublesWhole isParsed.doublesWhole
        (bytecodeProlog_frame prolog) inductionHypothesis
      exact verifyInstruction_doublesWhole verified whole

theorem ReachedFrame.doublesWhole
    (isParsed : method.IsParsed)
    (reached : ReachedFrame method world frame) :
    frame.DoublesWhole := by
  induction reached with
  | arrived arrives =>
      exact arrives.doublesWhole isParsed
  | current arrives _ checked =>
      exact checkCurrentTarget_doublesWhole isParsed.doublesWhole checked
        (arrives.doublesWhole isParsed)
  | handling _ pushed inductionHypothesis =>
      have empty := inductionHypothesis.locals
      exact Frame.push_doublesWhole (isSingle_of_isReference rfl) pushed ⟨empty, .nil⟩

/-! ## The assertions -/

/-- How a build with assertions ends early. -/
inductive Stop
  | refused (error : VerifyError)
  | assertion
  deriving DecidableEq, Repr

/-- `check_local2` with its assertions. -/
def Frame.checkLocal2Asserting (frame : Frame) (index : Nat) (tag : Tag) : Except Stop Unit :=
  if tag ≠ .double ∧ tag ≠ .long then
    .error .assertion
  else
    match frame.checkLocal2 index tag with
    | .error reason => .error (.refused reason)
    | .ok () =>
        if (frame.locals[index + 1]?).map Slot.tag = tag.second then
          .ok ()
        else
          .error .assertion

/-- `set_local2` with its assertion. -/
def Frame.setLocal2Asserting (frame : Frame) (index : Nat) (first second : Tag) :
    Except Stop Frame :=
  if first ≠ .double ∧ first ≠ .long then
    .error .assertion
  else
    (frame.setLocal2 index first second).mapError .refused

/-- The loop of `pop_invoke_arguments` with its assertions. -/
def Frame.matchArgumentsAsserting (world : ClassWorld) :
    List FieldType → List Slot → Except Stop Unit
  | [], _ => .ok ()
  | _ :: _, [] => .error (.refused .stackBadType)
  | .primitive type :: parameters, slot :: rest =>
      if slot.tag ≠ type.tag then
        .error (.refused .stackBadType)
      else if type.words = 2 ∧ rest.head?.map Slot.tag ≠ type.tag.second then
        .error .assertion
      else
        matchArgumentsAsserting world parameters (rest.drop (type.words - 1))
  | .reference name :: parameters, slot :: rest => do
      if slot.tag = .null then
        matchArgumentsAsserting world parameters rest
      else if slot.tag = .object then
        let result ← (computeIsSubtypeOf world slot.klass name).mapError .refused
        if result then
          matchArgumentsAsserting world parameters rest
        else
          .error (.refused .stackBadType)
      else
        .error (.refused .stackBadType)

/-- `pop_invoke_arguments` with its assertions. -/
def Frame.popInvokeArgumentsAsserting (world : ClassWorld) (frame : Frame)
    (signature : Signature) : Except Stop (Nat × Frame) :=
  let size := signature.parameterWordSize
  if frame.stack.length < size then
    .error (.refused .argsNotEnough)
  else do
    matchArgumentsAsserting world signature.parameters (frame.stack.take size).reverse
    .ok (size, { frame with stack := frame.stack.drop size })

theorem Frame.checkLocal_ok
    {index : Nat} {tag : Tag}
    (checked : frame.checkLocal index tag = .ok ()) :
    (frame.locals.map Slot.tag)[index]? = some tag := by
  unfold Frame.checkLocal at checked
  split at checked
  · cases checked
  · rename_i slot found
    obtain ⟨sameTag, _⟩ := guarded_eq_ok_iff.mp checked
    rw [List.getElem?_map, found, Option.map_some, not_not.mp sameTag]

theorem PrimitiveType.eq_of_words
    {type : PrimitiveType}
    (isDouble : type.words = 2) :
    type = .long ∨ type = .double := by
  cases type
  case long =>
    exact .inl rfl
  case double =>
    exact .inr rfl
  all_goals
    cases isDouble

theorem PrimitiveType.second_of_words
    {type : PrimitiveType}
    (isDouble : type.words = 2) :
    ∃ second, tagHalves.second type.tag = some second := by
  rcases PrimitiveType.eq_of_words isDouble with rfl | rfl
  · exact ⟨.long2, rfl⟩
  · exact ⟨.double2, rfl⟩

theorem Frame.checkLocal2Asserting_eq
    {type : PrimitiveType}
    (isDouble : type.words = 2)
    (index : Nat)
    (whole : frame.DoublesWhole) :
    frame.checkLocal2Asserting index type.tag =
      (frame.checkLocal2 index type.tag).mapError .refused := by
  obtain ⟨second, belongs⟩ := PrimitiveType.second_of_words isDouble
  have goodCall : ¬ (type.tag ≠ .double ∧ type.tag ≠ .long) := by
    rcases PrimitiveType.eq_of_words isDouble with rfl | rfl <;> decide
  rw [Frame.checkLocal2Asserting, if_neg goodCall]
  cases checked : frame.checkLocal2 index type.tag with
  | error reason =>
      rfl
  | ok value =>
      cases value
      unfold Frame.checkLocal2 at checked
      split at checked
      · have followed := whole.locals index _ second (Frame.checkLocal_ok checked) belongs
        have asserted : (frame.locals[index + 1]?).map Slot.tag = type.tag.second := by
          rw [← List.getElem?_map, followed]
          exact belongs.symm
        change (if _ then _ else _) = _
        rw [if_pos asserted]
        rfl
      · cases checked

theorem PrimitiveType.isSingle_of_words
    {type : PrimitiveType}
    (notDouble : type.words ≠ 2) :
    tagHalves.IsSingle type.tag ∧ type.words - 1 = 0 := by
  rw [isSingle_iff]
  cases type
  case long =>
    exact absurd rfl notDouble
  case double =>
    exact absurd rfl notDouble
  all_goals
    decide

/-- Where the argument words are whole doubles and single words, the assertions hold. -/
theorem Frame.matchArgumentsAsserting_eq
    {parameters : List FieldType} {slots : List Slot}
    (paired : PairedSlots slots) :
    Frame.matchArgumentsAsserting world parameters slots =
      (Frame.matchArguments world parameters slots).mapError .refused := by
  induction parameters generalizing slots with
  | nil =>
      rfl
  | cons type parameters inductionHypothesis =>
      cases slots with
      | nil =>
          cases type <;> rfl
      | cons slot rest =>
          cases type with
          | primitive type =>
              rw [Frame.matchArgumentsAsserting, Frame.matchArguments]
              by_cases sameTag : slot.tag = type.tag
              · rw [if_neg (not_not.mpr sameTag), if_neg (not_not.mpr sameTag)]
                rw [PairedSlots, List.map_cons, sameTag] at paired
                by_cases isDouble : type.words = 2
                · obtain ⟨second, belongs⟩ := PrimitiveType.second_of_words isDouble
                  obtain ⟨later, laterEq, laterPaired⟩ := paired.of_first belongs
                  cases rest with
                  | nil =>
                      cases laterEq
                  | cons next rest =>
                      rw [List.map_cons, List.cons.injEq] at laterEq
                      obtain ⟨nextTag, rfl⟩ := laterEq
                      have asserted :
                          ¬ (type.words = 2 ∧
                            (next :: rest).head?.map Slot.tag ≠ type.tag.second) := by
                        rw [List.head?_cons, Option.map_some, nextTag, ← belongs]
                        exact fun failed => failed.2 rfl
                      rw [if_neg asserted, isDouble]
                      exact inductionHypothesis laterPaired
                · obtain ⟨isSingle, oneWord⟩ := PrimitiveType.isSingle_of_words isDouble
                  rw [if_neg (fun failed => isDouble failed.1), oneWord]
                  exact inductionHypothesis (paired.of_single isSingle)
              · rw [if_pos sameTag, if_pos sameTag]
                rfl
          | reference name =>
              rw [Frame.matchArgumentsAsserting, Frame.matchArguments]
              by_cases isNull : slot.tag = .null
              · rw [if_pos isNull, if_pos isNull]
                rw [PairedSlots, List.map_cons, isNull] at paired
                exact inductionHypothesis (paired.of_single (isSingle_of_isReference rfl))
              · rw [if_neg isNull, if_neg isNull]
                by_cases isObject : slot.tag = .object
                · rw [if_pos isObject, if_pos isObject]
                  rw [PairedSlots, List.map_cons, isObject] at paired
                  have later :=
                    inductionHypothesis (paired.of_single (isSingle_of_isReference rfl))
                  cases Frame.computeIsSubtypeOf world slot.klass name with
                  | error reason =>
                      rfl
                  | ok result =>
                      cases result with
                      | false =>
                          rfl
                      | true =>
                          exact later
                · rw [if_neg isObject, if_neg isObject]
                  rfl

/-- A second word in place of the first argument is refused before any assertion. -/
theorem Frame.matchArgumentsAsserting_of_isSecond
    {parameters : List FieldType} {slot : Slot} {rest : List Slot}
    (isSecond : tagHalves.IsSecond slot.tag) :
    Frame.matchArgumentsAsserting world parameters (slot :: rest) =
      (Frame.matchArguments world parameters (slot :: rest)).mapError .refused := by
  cases parameters with
  | nil =>
      rfl
  | cons type parameters =>
      cases type with
      | primitive type =>
          have otherTag : slot.tag ≠ type.tag := by
            intro sameTag
            rw [sameTag] at isSecond
            exact type.tag_not_isSecond isSecond
          rw [Frame.matchArgumentsAsserting, Frame.matchArguments, if_pos otherTag,
            if_pos otherTag]
          rfl
      | reference name =>
          have notNull : slot.tag ≠ .null := by
            intro isNull
            rw [isNull] at isSecond
            exact (isSingle_of_isReference rfl).2 isSecond
          have notObject : slot.tag ≠ .object := by
            intro isObject
            rw [isObject] at isSecond
            exact (isSingle_of_isReference rfl).2 isSecond
          rw [Frame.matchArgumentsAsserting, Frame.matchArguments, if_neg notNull,
            if_neg notNull, if_neg notObject, if_neg notObject]
          rfl

theorem Frame.popInvokeArgumentsAsserting_eq
    (signature : Signature)
    (whole : frame.DoublesWhole) :
    frame.popInvokeArgumentsAsserting world signature =
      (frame.popInvokeArguments world signature).mapError .refused := by
  have argumentsEq :
      Frame.matchArgumentsAsserting world signature.parameters
          (frame.argumentWords signature) =
        (Frame.matchArguments world signature.parameters
          (frame.argumentWords signature)).mapError .refused := by
    by_cases lowest : ∀ slot ∈ (frame.argumentWords signature).head?,
        ¬ tagHalves.IsSecond slot.tag
    · exact Frame.matchArgumentsAsserting_eq (Frame.argumentWords_paired lowest whole).1
    · push Not at lowest
      obtain ⟨slot, atHead, isSecond⟩ := lowest
      obtain ⟨rest, wordsEq⟩ := List.head?_eq_some_iff.mp atHead
      rw [wordsEq]
      exact Frame.matchArgumentsAsserting_of_isSecond isSecond
  unfold Frame.popInvokeArgumentsAsserting Frame.popInvokeArguments
  dsimp only
  split
  · rfl
  · change (Frame.matchArgumentsAsserting world signature.parameters
      (frame.argumentWords signature) >>= _) = _
    rw [argumentsEq]
    change _ = (Frame.matchArguments world signature.parameters
      (frame.argumentWords signature) >>= _).mapError _
    cases Frame.matchArguments world signature.parameters (frame.argumentWords signature) with
    | error reason =>
        rfl
    | ok value =>
        rfl

/-- In every frame that is reached a `long` or `double` has its second word behind it; on
the stack each second word has its first below; and the assertions about two-word
operations hold: a build with them does the same as one without. -/
theorem doubles_whole
    (method : Method) (world : ClassWorld) (frame : Frame)
    (isParsed : method.IsParsed)
    (reached : ReachedFrame method world frame) :
    Followed tagHalves (frame.locals.map Slot.tag) ∧
      Followed tagHalves (frame.stack.reverse.map Slot.tag) ∧
      Preceded tagHalves (frame.stack.reverse.map Slot.tag) ∧
      (∀ (type : PrimitiveType) (index : Nat), type.words = 2 →
        frame.checkLocal2Asserting index type.tag =
          (frame.checkLocal2 index type.tag).mapError .refused) ∧
      (∀ (type : PrimitiveType) (index : Nat), type.words = 2 →
        ∀ second, frame.setLocal2Asserting index type.tag second =
          (frame.setLocal2 index type.tag second).mapError .refused) ∧
      ∀ signature : Signature,
        frame.popInvokeArgumentsAsserting world signature =
          (frame.popInvokeArguments world signature).mapError .refused := by
  have whole := reached.doublesWhole isParsed
  have stackWhole : Paired tagHalves (frame.stack.reverse.map Slot.tag) := by
    rw [List.map_reverse]
    exact whole.stack
  refine ⟨whole.locals, stackWhole.followed, stackWhole.preceded, ?_, ?_, ?_⟩
  · intro type index isDouble
    exact Frame.checkLocal2Asserting_eq isDouble index whole
  · intro type index isDouble second
    rcases PrimitiveType.eq_of_words isDouble with rfl | rfl
    · rfl
    · rfl
  · intro signature
    exact Frame.popInvokeArgumentsAsserting_eq signature whole

/-- A static method with a `long` parameter: `iconst_0`, `istore_0`, `return`. -/
def overwritesFirstHalf : Method where
  code := [3, 59, 177]
  maxStack := 1
  maxLocals := 2
  isStatic := true
  isObjectInitializer := false
  holderIsObject := false
  signature := ⟨[.primitive .long], none⟩
  constants := []
  exceptionTable := []
  stackmaps := []

/-- A class without a hierarchy. -/
def plainWorld : ClassWorld where
  holderName := .plain "Sample"
  superName := some javaLangObject
  isSubtype := fun _ _ => some false
  isSubclassOfHolder := fun _ => false
  isProtectedAccess := fun _ => some false
  declaresField := fun _ _ => false
  isThrowable := fun _ => some false
  overridesNoFinal := true

theorem overwritesFirstHalf_isParsed : overwritesFirstHalf.IsParsed :=
  ⟨0, [], [], rfl⟩

/-- The frame of the method after its store, with a second word left over. -/
def leftOver : Frame :=
  ⟨1, [.of .integer, .of .long2], [], false⟩

theorem leftOver_reached : ReachedFrame overwritesFirstHalf plainWorld leftOver := by
  have atZero : Arrives overwritesFirstHalf plainWorld 0
      ⟨⟨1, [.of .long, .of .long2], [], false⟩, [], false⟩ := .start rfl
  have atOne : Arrives overwritesFirstHalf plainWorld 1
      ⟨⟨1, [.of .long, .of .long2], [.of .integer], false⟩, [], false⟩ :=
    atZero.next (by decide) rfl rfl rfl (by decide)
  have atTwo : Arrives overwritesFirstHalf plainWorld 2 ⟨leftOver, [], false⟩ :=
    atOne.next (by decide) rfl rfl rfl (by decide)
  exact .arrived atTwo

theorem doubles_whole_leftOver :
    Followed tagHalves (leftOver.locals.map Slot.tag) :=
  (doubles_whole overwritesFirstHalf plainWorld leftOver overwritesFirstHalf_isParsed
    leftOver_reached).1

/-- The method is verified, and a second word is without its first in a frame on the
way. -/
theorem leftOver_not_preceded :
    overwritesFirstHalf.IsParsed ∧
      verify overwritesFirstHalf plainWorld = .ok () ∧
      ReachedFrame overwritesFirstHalf plainWorld leftOver ∧
      ¬ Preceded tagHalves (leftOver.locals.map Slot.tag) := by
  refine ⟨overwritesFirstHalf_isParsed, ?_, leftOver_reached, ?_⟩
  · rfl
  · intro preceded
    obtain ⟨before, beforeEq, atBefore⟩ := preceded 1 .long .long2 rfl rfl
    cases beforeEq
    cases atBefore

end PicoJvm.Verifier
