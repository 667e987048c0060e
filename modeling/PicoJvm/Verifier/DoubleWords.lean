import PicoJvm.Verifier.Moves
import PicoJvm.Verifier.ParseStackmaps

/-!
# Doubles in a frame

The two words of a `long` or `double` lie side by side. On the stack they always
come together. In the locals a first word is never without its second, but a store
may leave a second word behind. Each operation of the frame keeps this.
-/

namespace PicoJvm.Verifier

open PicoJvm.Lib.Fallible
open PicoJvm.Lib.Pairing

/-- Slots of a stack, top first, with both words of each double. -/
abbrev PairedStack (slots : List Slot) : Prop :=
  Paired tagHalves (slots.map Slot.tag).reverse

/-- The doubles of a frame: whole on the stack, and never without their second word
in the locals. -/
structure Frame.DoublesWhole (frame : Frame) : Prop where
  locals : Followed tagHalves (frame.locals.map Slot.tag)
  stack : PairedStack frame.stack

variable {frame frame' : Frame} {world : ClassWorld}

/-! ## Moves on the stack -/

/-- Slots are taken from the top, the lowest of which is no second word, and whole
doubles are put there. -/
theorem Moves.doublesWhole
    {taken put : List Slot}
    (moves : Moves frame taken put frame')
    (lowest : ∀ slot ∈ taken.getLast?, ¬ tagHalves.IsSecond slot.tag)
    (putWhole : PairedStack put)
    (whole : frame.DoublesWhole) :
    PairedStack taken ∧ frame'.DoublesWhole := by
  obtain ⟨rest, stackEq, rfl⟩ := moves
  have stackWhole := whole.stack
  rw [PairedStack, stackEq, List.map_append, List.reverse_append] at stackWhole
  obtain ⟨restWhole, takenWhole⟩ := stackWhole.split (by
    intro tag atHead
    rw [List.head?_reverse, List.getLast?_map, Option.mem_def, Option.map_eq_some_iff]
      at atHead
    obtain ⟨slot, isLowest, rfl⟩ := atHead
    exact lowest slot isLowest)
  refine ⟨takenWhole, whole.locals, ?_⟩
  change PairedStack (put ++ rest)
  rw [PairedStack, List.map_append, List.reverse_append]
  exact restWhole.append putWhole

/-- A frame after slots have been popped. -/
theorem Moves.doublesWhole_of_pop
    {taken : List Slot}
    (moves : Moves frame taken [] frame')
    (lowest : ∀ slot ∈ taken.getLast?, ¬ tagHalves.IsSecond slot.tag)
    (whole : frame.DoublesWhole) :
    PairedStack taken ∧ frame'.DoublesWhole :=
  moves.doublesWhole lowest .nil whole

/-- A frame after slots have been pushed. -/
theorem Moves.doublesWhole_of_push
    {put : List Slot}
    (moves : Moves frame [] put frame')
    (putWhole : PairedStack put)
    (whole : frame.DoublesWhole) :
    frame'.DoublesWhole :=
  (moves.doublesWhole (by intro slot atLast; cases atLast) putWhole whole).2

/-! ## Pushing -/

theorem Frame.push_doublesWhole
    {slot : Slot}
    (isSingle : tagHalves.IsSingle slot.tag)
    (pushed : frame.push slot = .ok frame')
    (whole : frame.DoublesWhole) :
    frame'.DoublesWhole :=
  (Frame.push_moves pushed).doublesWhole_of_push (paired_singleton isSingle) whole

theorem Frame.push2_doublesWhole
    {first second : Slot}
    (putWhole : PairedStack [second, first])
    (pushed : frame.push2 first second = .ok frame')
    (whole : frame.DoublesWhole) :
    frame'.DoublesWhole :=
  (Frame.push2_moves pushed).doublesWhole_of_push putWhole whole

theorem PrimitiveType.tags_paired (type : PrimitiveType) :
    Paired tagHalves type.tags.reverse := by
  cases type
  case long =>
    exact .pair rfl .nil
  case double =>
    exact .pair rfl .nil
  all_goals
    exact paired_singleton (by rw [isSingle_iff]; decide)

theorem pushPrimitive_doublesWhole
    {type : PrimitiveType}
    (pushed : pushPrimitive type frame = .ok frame')
    (whole : frame.DoublesWhole) :
    frame'.DoublesWhole := by
  apply (pushPrimitive_moves pushed).doublesWhole_of_push _ whole
  rw [PairedStack, List.map_map]
  have sameTags : type.tags.map (Slot.tag ∘ Slot.of) = type.tags := List.map_id _
  rw [sameTags]
  exact type.tags_paired

theorem pushValue_doublesWhole
    {type : FieldType}
    (pushed : pushValue type frame = .ok frame')
    (whole : frame.DoublesWhole) :
    frame'.DoublesWhole := by
  cases type with
  | primitive type =>
      exact pushPrimitive_doublesWhole pushed whole
  | reference name =>
      exact Frame.push_doublesWhole (isSingle_of_isReference rfl) pushed whole

/-! ## Popping -/

theorem Frame.popCategory1_doublesWhole
    {slot : Slot}
    (popped : frame.popCategory1 = .ok (slot, frame'))
    (whole : frame.DoublesWhole) :
    tagHalves.IsSingle slot.tag ∧ frame'.DoublesWhole := by
  have notSecond : ¬ tagHalves.IsSecond slot.tag := by
    unfold Frame.popCategory1 at popped
    split at popped
    · cases popped
    · obtain ⟨notSecond, ok⟩ := guarded_eq_ok_iff.mp popped
      cases ok
      rw [isSecond_iff]
      tauto
  have lowest : ∀ other ∈ [slot].getLast?, ¬ tagHalves.IsSecond other.tag := by
    intro other atLast
    cases atLast
    exact notSecond
  obtain ⟨takenWhole, whole'⟩ :=
    (Frame.popCategory1_moves popped).doublesWhole_of_pop lowest whole
  cases takenWhole with
  | single isSingle _ =>
      exact ⟨isSingle, whole'⟩

theorem Frame.popCategory2_doublesWhole
    {first second : Slot}
    (popped : frame.popCategory2 = .ok (first, second, frame'))
    (whole : frame.DoublesWhole) :
    PairedStack [second, first] ∧ frame'.DoublesWhole := by
  have notSecond : ¬ tagHalves.IsSecond first.tag := by
    unfold Frame.popCategory2 at popped
    split at popped
    · obtain ⟨notSecond, ok⟩ := guarded_eq_ok_iff.mp popped
      cases ok
      rw [isSecond_iff]
      tauto
    · cases popped
  apply (Frame.popCategory2_moves popped).doublesWhole_of_pop _ whole
  intro other atLast
  cases atLast
  exact notSecond

theorem Frame.popRef_doublesWhole
    {slot : Slot}
    (popped : frame.popRef = .ok (slot, frame'))
    (whole : frame.DoublesWhole) :
    tagHalves.IsSingle slot.tag ∧ frame'.DoublesWhole := by
  obtain ⟨moves, isReference⟩ := Frame.popRef_moves popped
  have isSingle := isSingle_of_isReference isReference
  refine ⟨isSingle, (moves.doublesWhole_of_pop ?_ whole).2⟩
  intro other atLast
  cases atLast
  exact isSingle.2

theorem dropRef_doublesWhole
    (popped : dropRef frame = .ok frame')
    (whole : frame.DoublesWhole) :
    frame'.DoublesWhole := by
  obtain ⟨⟨slot, middle⟩, first, later⟩ := bind_eq_ok_iff.mp popped
  cases later
  exact (Frame.popRef_doublesWhole first whole).2

theorem Tag.IsInitialised.isReference
    {tag : Tag}
    (isInitialised : tag.IsInitialised) :
    tag.isReference := by
  rcases isInitialised with rfl | rfl
  · rfl
  · rfl

/-- A single initialised reference was popped. -/
theorem Moves.doublesWhole_of_popInitialised
    (popped : ∃ slot : Slot, slot.tag.IsInitialised ∧ Moves frame [slot] [] frame')
    (whole : frame.DoublesWhole) :
    frame'.DoublesWhole := by
  obtain ⟨slot, isInitialised, moves⟩ := popped
  refine (moves.doublesWhole_of_pop ?_ whole).2
  intro other atLast
  cases atLast
  exact (isSingle_of_isReference isInitialised.isReference).2

theorem Frame.popObject_doublesWhole
    {name : ClassName}
    (popped : frame.popObject world name = .ok frame')
    (whole : frame.DoublesWhole) :
    frame'.DoublesWhole :=
  Moves.doublesWhole_of_popInitialised (Frame.popObject_moves popped) whole

theorem popArrayOf_doublesWhole
    {type : PrimitiveType}
    (popped : popArrayOf type frame = .ok frame')
    (whole : frame.DoublesWhole) :
    frame'.DoublesWhole :=
  Moves.doublesWhole_of_popInitialised (popArrayOf_moves popped) whole

theorem PrimitiveType.tags_getLast? (type : PrimitiveType) :
    type.tags.getLast? = some type.tag := by
  cases type <;> rfl

theorem PrimitiveType.tag_not_isSecond (type : PrimitiveType) :
    ¬ tagHalves.IsSecond type.tag := by
  rw [isSecond_iff]
  cases type <;> decide

theorem popPrimitive_doublesWhole
    {type : PrimitiveType}
    (popped : popPrimitive type frame = .ok frame')
    (whole : frame.DoublesWhole) :
    frame'.DoublesWhole := by
  obtain ⟨slots, sameTags, moves⟩ := popPrimitive_moves popped
  refine (moves.doublesWhole_of_pop ?_ whole).2
  intro slot atLast
  have lowest : (slots.map Slot.tag).getLast? = some slot.tag := by
    rw [List.getLast?_map, Option.mem_def.mp atLast, Option.map_some]
  rw [sameTags, type.tags_getLast?, Option.some.injEq] at lowest
  rw [← lowest]
  exact type.tag_not_isSecond

theorem popInteger_doublesWhole
    (popped : popInteger frame = .ok frame')
    (whole : frame.DoublesWhole) :
    frame'.DoublesWhole := by
  obtain ⟨slot, isInteger, moves⟩ := popInteger_moves popped
  refine (moves.doublesWhole_of_pop ?_ whole).2
  intro other atLast
  cases atLast
  change ¬ tagHalves.IsSecond slot.tag
  rw [isSecond_iff, isInteger]
  decide

theorem popValue_doublesWhole
    {type : FieldType}
    (popped : popValue world type frame = .ok frame')
    (whole : frame.DoublesWhole) :
    frame'.DoublesWhole := by
  cases type with
  | primitive type =>
      exact popPrimitive_doublesWhole popped whole
  | reference name =>
      exact Frame.popObject_doublesWhole popped whole

/-! ## Arguments of a call -/

/-- The lowest argument word is no second word. -/
theorem Frame.matchArguments_head
    {parameters : List FieldType} {slots : List Slot}
    (someParameter : parameters ≠ [])
    (matched : Frame.matchArguments world parameters slots = .ok ()) :
    ∀ slot ∈ slots.head?, ¬ tagHalves.IsSecond slot.tag := by
  intro slot atHead
  cases slots with
  | nil =>
      cases atHead
  | cons head rest =>
      cases atHead
      cases parameters with
      | nil =>
          exact absurd rfl someParameter
      | cons type parameters =>
          cases type with
          | primitive type =>
              obtain ⟨sameTag, _⟩ := guarded_eq_ok_iff.mp matched
              rw [not_not.mp sameTag]
              exact type.tag_not_isSecond
          | reference name =>
              rw [Frame.matchArguments] at matched
              split at matched
              · rename_i isNull
                rw [isSecond_iff, isNull]
                decide
              · split at matched
                · rename_i isObject
                  rw [isSecond_iff, isObject]
                  decide
                · cases matched

/-- The words of the arguments, first argument first. -/
def Frame.argumentWords (frame : Frame) (signature : Signature) : List Slot :=
  (frame.stack.take signature.parameterWordSize).reverse

theorem Frame.argumentWords_paired
    {signature : Signature}
    (lowest : ∀ slot ∈ (frame.argumentWords signature).head?,
      ¬ tagHalves.IsSecond slot.tag)
    (whole : frame.DoublesWhole) :
    PairedSlots (frame.argumentWords signature) ∧
      PairedStack (frame.stack.drop signature.parameterWordSize) := by
  have stackWhole := whole.stack
  rw [PairedStack, ← List.take_append_drop signature.parameterWordSize frame.stack,
    List.map_append, List.reverse_append] at stackWhole
  obtain ⟨below, arguments⟩ := stackWhole.split (by
    intro tag atHead
    rw [← List.map_reverse, List.head?_map, Option.mem_def, Option.map_eq_some_iff] at atHead
    obtain ⟨slot, isLowest, rfl⟩ := atHead
    exact lowest slot isLowest)
  rw [← List.map_reverse] at arguments
  exact ⟨arguments, below⟩

theorem Frame.popInvokeArguments_doublesWhole
    {signature : Signature} {words : Nat}
    (popped : frame.popInvokeArguments world signature = .ok (words, frame'))
    (whole : frame.DoublesWhole) :
    frame'.DoublesWhole := by
  obtain ⟨_, popped⟩ := guarded_eq_ok_iff.mp popped
  obtain ⟨⟨⟩, matched, ok⟩ := bind_eq_ok_iff.mp popped
  cases ok
  refine ⟨whole.locals, ?_⟩
  by_cases noParameter : signature.parameters = []
  · have noWords : signature.parameterWordSize = 0 := by
      rw [Signature.parameterWordSize, noParameter]
      rfl
    rw [noWords]
    exact whole.stack
  · exact (Frame.argumentWords_paired
      (Frame.matchArguments_head noParameter matched) whole).2

/-! ## The locals -/

/-- What is bogified, by tags. -/
theorem bogifySurroundingDoublewords_tags
    (locals : List Slot) (index : Nat) :
    (Frame.bogifySurroundingDoublewords locals index).map Slot.tag =
      clearBefore tagHalves .bogus (locals.map Slot.tag) index := by
  cases index with
  | zero =>
      rfl
  | succ previous =>
      rw [Frame.bogifySurroundingDoublewords, clearBefore, List.getElem?_map]
      cases locals[previous]? with
      | none =>
          rfl
      | some slot =>
          have isFirst : (slot.tag = .double ∨ slot.tag = .long) ↔
              ((some slot.tag).bind tagHalves.second).isSome := by
            cases slot.tag <;> simp [tagHalves, Tag.second]
          simp only [Option.map_some, isFirst]
          split
          · rw [List.map_set]
          · rfl

theorem Frame.setLocal_doublesWhole
    {index : Nat} {slot : Slot}
    (notFirst : tagHalves.second slot.tag = none)
    (stored : frame.setLocal index slot = .ok frame')
    (whole : frame.DoublesWhole) :
    frame'.DoublesWhole := by
  unfold Frame.setLocal at stored
  split at stored
  · cases stored
    refine ⟨?_, whole.stack⟩
    rw [bogifySurroundingDoublewords_tags, List.map_set]
    exact whole.locals.overwrite rfl notFirst
  · cases stored

theorem Frame.setLocal2_doublesWhole
    {index : Nat} {first second : Tag}
    (belongs : tagHalves.second first = some second)
    (stored : frame.setLocal2 index first second = .ok frame')
    (whole : frame.DoublesWhole) :
    frame'.DoublesWhole := by
  unfold Frame.setLocal2 at stored
  split at stored
  · rename_i inside
    cases stored
    refine ⟨?_, whole.stack⟩
    rw [bogifySurroundingDoublewords_tags, List.map_set, List.map_set]
    exact whole.locals.overwritePair rfl belongs (by simpa using inside)
  · cases stored

theorem setPrimitiveLocal_doublesWhole
    {type : PrimitiveType} {index : Nat}
    (stored : setPrimitiveLocal type index frame = .ok frame')
    (whole : frame.DoublesWhole) :
    frame'.DoublesWhole := by
  cases type
  case long =>
    exact Frame.setLocal2_doublesWhole rfl stored whole
  case double =>
    exact Frame.setLocal2_doublesWhole rfl stored whole
  all_goals
    exact Frame.setLocal_doublesWhole rfl stored whole

/-- Objects take the place of references. -/
theorem Frame.replaceStackType_doublesWhole
    {source : Tag} {target : Slot}
    (sourceReference : source.isReference)
    (targetReference : target.tag.isReference)
    (whole : frame.DoublesWhole) :
    (frame.replaceStackType source target).DoublesWhole := by
  have sourceSingle := isSingle_of_isReference sourceReference
  have targetSingle := isSingle_of_isReference targetReference
  have tagsEq (slots : List Slot) :
      (slots.map fun slot => if slot.tag = source then target else slot).map Slot.tag =
        (slots.map Slot.tag).map fun tag => if tag = source then target.tag else tag := by
    rw [List.map_map, List.map_map]
    apply List.map_congr_left
    intro slot _
    simp only [Function.comp_apply, apply_ite Slot.tag]
  constructor
  · change Followed tagHalves ((frame.locals.map _).map Slot.tag)
    rw [tagsEq]
    apply whole.locals.map
    · intro tag notFirst
      split
      · exact targetSingle.1
      · exact notFirst
    · intro tag second belongs
      have notSource : tag ≠ source := by
        rintro rfl
        rw [sourceSingle.1] at belongs
        cases belongs
      have secondNotSource : second ≠ source := by
        rintro rfl
        exact sourceSingle.2 ⟨tag, belongs⟩
      rw [if_neg notSource, if_neg secondNotSource]
      exact ⟨rfl, rfl⟩
  · change PairedStack (frame.stack.map _)
    rw [PairedStack, tagsEq, ← List.map_reverse]
    apply whole.stack.map
    · intro tag isSingle
      split
      · exact targetSingle
      · exact isSingle
    · intro tag notSingle
      rw [if_neg]
      rintro rfl
      exact notSingle sourceSingle

/-! ## Stack maps -/

/-- The slots after the loop: those of the frame, or those of the map as far as it
goes. -/
theorem Frame.matchSlots_tags
    {flags : Frame.MatchFlags} {error : VerifyError} {klass : Option ClassName}
    {entries slots result : List Slot}
    (matched : Frame.matchSlots world flags error klass entries slots = .ok result) :
    (flags.merge = false → result = slots) ∧
      (flags.merge = true →
        result.map Slot.tag =
          entries.map Slot.tag ++ (slots.drop entries.length).map Slot.tag) := by
  induction entries generalizing klass slots result with
  | nil =>
      cases matched
      exact ⟨fun _ => rfl, fun _ => rfl⟩
  | cons entry entries inductionHypothesis =>
      cases slots with
      | nil =>
          cases matched
      | cons slot slots =>
          obtain ⟨_, matched⟩ := guarded_eq_ok_iff.mp matched
          obtain ⟨rest, matchedRest, ok⟩ := bind_eq_ok_iff.mp matched
          cases ok
          obtain ⟨kept, taken⟩ := inductionHypothesis matchedRest
          constructor
          · intro noMerge
            rw [kept noMerge, noMerge]
            rfl
          · intro isMerge
            rw [List.map_cons, taken isMerge, isMerge]
            rfl

/-- A match that does not merge leaves the frame alone; one that merges takes the tags
of the map. -/
theorem Frame.matchStackMap_tags
    {isObjectInitializer : Bool} {flags : Frame.MatchFlags} {error : VerifyError}
    {map : StackMap}
    (matched : frame.matchStackMap world isObjectInitializer flags error map = .ok frame') :
    (flags.merge = false → frame' = frame) ∧
      (flags.merge = true →
        (∃ count, frame'.locals.map Slot.tag =
          map.locals.map Slot.tag ++ List.replicate count .bogus) ∧
        frame'.stack.map Slot.tag = (map.stack.map Slot.tag).reverse) := by
  obtain ⟨locals, matchedLocals, matched⟩ := bind_eq_ok_iff.mp matched
  obtain ⟨sameDepth, matched⟩ := guarded_eq_ok_iff.mp matched
  obtain ⟨stack, matchedStack, matched⟩ := bind_eq_ok_iff.mp matched
  obtain ⟨_, ok⟩ := guarded_eq_ok_iff.mp matched
  cases ok
  obtain ⟨keptLocals, takenLocals⟩ := Frame.matchSlots_tags matchedLocals
  obtain ⟨_, takenStack⟩ := Frame.matchSlots_tags matchedStack
  constructor
  · intro noMerge
    have kept := keptLocals noMerge
    cases frame
    simp_all [Frame.clearBeyond]
  · intro isMerge
    constructor
    · refine ⟨(locals.drop map.locals.length).length, ?_⟩
      change (Frame.clearBeyond flags map.locals.length locals).map Slot.tag = _
      rw [Frame.clearBeyond, if_pos isMerge, List.map_append, List.map_map, List.map_take,
        takenLocals isMerge, List.take_left' (List.length_map ..)]
      exact congrArg _ List.map_const'
    · change (if flags.merge then stack.reverse else frame.stack).map Slot.tag = _
      rw [if_pos isMerge, List.map_reverse, takenStack isMerge]
      have nothingLeft :
          (if flags.check then frame.stack.reverse else map.stack).drop map.stack.length =
            [] := by
        by_cases isCheck : flags.check = true
        · rw [if_pos isCheck]
          apply List.drop_of_length_le
          have depthEq : map.stack.length = frame.stack.length := by
            by_contra otherDepth
            exact sameDepth ⟨isCheck, otherDepth⟩
          rw [List.length_reverse, depthEq]
        · rw [if_neg isCheck]
          exact List.drop_length
      rw [nothingLeft, List.map_nil, List.append_nil]

theorem isSingle_bogus : tagHalves.IsSingle .bogus := by
  rw [isSingle_iff]
  decide

theorem Frame.matchStackMap_doublesWhole
    {isObjectInitializer : Bool} {flags : Frame.MatchFlags} {error : VerifyError}
    {map : StackMap}
    (mapWhole : map.DoublesWhole)
    (matched : frame.matchStackMap world isObjectInitializer flags error map = .ok frame')
    (whole : frame.DoublesWhole) :
    frame'.DoublesWhole := by
  obtain ⟨kept, taken⟩ := Frame.matchStackMap_tags matched
  by_cases isMerge : flags.merge = true
  · obtain ⟨⟨count, localsEq⟩, stackEq⟩ := taken isMerge
    constructor
    · rw [localsEq]
      apply Paired.followed
      apply mapWhole.locals.append
      apply Paired.of_forall_single
      intro tag member
      rw [List.eq_of_mem_replicate member]
      exact isSingle_bogus
    · rw [PairedStack, stackEq, List.reverse_reverse]
      exact mapWhole.stack
  · rw [kept (by simpa using isMerge)]
    exact whole

end PicoJvm.Verifier
