import PicoJvm.Stackmaps.Generator

/-!
# Interpretations with the same marks

Two frames with the same marks are interpreted side by side. The marks stay the same unless a
reference is stored behind a local that holds the first word of a `long` or a `double` in one of
the frames only.
-/

namespace PicoJvm.Stackmaps

open PicoJvm.Verifier (Instruction Kind PrimitiveType Tag)

/-! ## The stack -/

section Stack

variable {α β : Type} (image : α → β)

theorem pop_map (slots : Nat) (stack : List α) :
    pop slots (stack.map image) = (pop slots stack).map (List.map image) := by
  unfold pop
  rw [List.length_map, ← List.map_drop]
  split <;> rfl

variable (of : Tag → α)

theorem push_map (tags : List Tag) (stack : List α) :
    push (image ∘ of) tags (stack.map image) = (push of tags stack).map image := by
  unfold push
  rw [List.map_append, List.map_map]

theorem replace_map (slots : Nat) (tags : List Tag) (stack : List α) :
    replace (image ∘ of) slots tags (stack.map image) =
      (replace of slots tags stack).map (List.map image) := by
  unfold replace
  rw [pop_map, Option.map_map, Option.map_map]
  exact congrFun (congrArg _ (funext (push_map image of tags))) _

theorem interpretFieldOps_map (type : Kind) (isPut isStatic : Bool) (stack : List α) :
    interpretFieldOps (image ∘ of) type isPut isStatic (stack.map image) =
      (interpretFieldOps of type isPut isStatic stack).map (List.map image) := by
  unfold interpretFieldOps
  split
  · exact pop_map image _ stack
  · exact replace_map image of _ _ stack

variable (method : Method)

theorem interpretInvokeOps_map (index : Nat) (stack : List α) :
    interpretInvokeOps (image ∘ of) method index (stack.map image) =
      (interpretInvokeOps of method index stack).map (List.map image) :=
  replace_map image of _ _ stack

/-- The interpretation moves words without looking at them. -/
theorem instructionStack_map (stack : List α) (instruction : Instruction) :
    instructionStack (image ∘ of) method (stack.map image) instruction =
      (instructionStack of method stack instruction).map (List.map image) := by
  cases instruction with
  | dup | dup2 | dupX1 | dup2X1 | dupX2 | dup2X2 | swap =>
      rcases stack with _ | ⟨kind1, _ | ⟨kind2, _ | ⟨kind3, _ | ⟨kind4, rest⟩⟩⟩⟩ <;> rfl
  | binary type op =>
      cases op <;> exact pop_map image _ stack
  | _ =>
      simp only [instructionStack, pop_map, push_map, replace_map, interpretFieldOps_map,
        interpretInvokeOps_map, Option.map_some, Option.map_none]

theorem operationStack_map (stack : List α) (operation : Operation) :
    operationStack (image ∘ of) method (stack.map image) operation =
      (operationStack of method stack operation).map (List.map image) := by
  cases operation with
  | plain instruction => exact instructionStack_map image of method stack instruction
  | _ =>
      simp only [operationStack, pop_map, push_map, replace_map, interpretInvokeOps_map,
        Option.map_some, Option.map_none]

end Stack

/-! ## Stores -/

/-- Which locals hold the first word of a `long` or a `double` after an operation. -/
def leavesOpen (operation : Operation) (opened : Nat → Bool) (index : Nat) : Bool :=
  match operation with
  | .plain (.storeLocal kind stored) =>
      if index = stored then
        decide (kind.words = 2) && !(decide (0 < stored) && opened (stored - 1))
      else if index = stored + 1 ∧ kind.words = 2 then
        false
      else
        opened index
  | _ => opened index

/-- The marks of the locals after a store. -/
def storeMarks (kind : Kind) (index : Nat) (opened : Nat → Bool) (marks : List Bool) :
    List Bool :=
  match kind with
  | .object => marks.set index !(decide (0 < index) && opened (index - 1))
  | .primitive type =>
      if type.words = 2 then
        (marks.set index false).set (index + 1) false
      else
        marks.set index false

theorem testLocal_set (test : Tag → Bool) (locals : List Tag) (index place : Nat) (tag : Tag) :
    testLocal test (locals.set index tag) place =
      if index = place ∧ index < locals.length then test tag else testLocal test locals place := by
  unfold testLocal
  rw [List.getElem?_set]
  by_cases here : index = place
  · subst here
    by_cases inside : index < locals.length
    · simp [inside]
    · simp [inside]
  · simp [here]

theorem map_set_closed
    {locals : List Tag}
    {index : Nat}
    (closed : testLocal closesTwoWords locals index = true) :
    (locals.set index .bogus).map Tag.isReference = locals.map Tag.isReference := by
  apply List.ext_getElem?
  intro place
  unfold testLocal at closed
  rw [List.getElem?_map, List.getElem?_map, List.getElem?_set]
  by_cases here : index = place
  · subst here
    cases found : locals[index]? with
    | none => simp [List.getElem?_eq_none_iff.mp found]
    | some tag =>
        rw [found] at closed
        have inside : index < locals.length := (List.getElem?_eq_some_iff.mp found).1
        cases tag <;> simp_all [closesTwoWords, Tag.isReference]
  · rw [if_neg here]

section Spoiling

variable {locals : List Tag}

theorem spoilClosed_map (next : Nat) :
    (spoilClosed next locals).map Tag.isReference = locals.map Tag.isReference := by
  unfold spoilClosed
  split
  · rename_i closed
    exact map_set_closed closed
  · rfl

theorem spoilClosed_opened (next place : Nat) :
    testLocal opensTwoWords (spoilClosed next locals) place =
      testLocal opensTwoWords locals place := by
  unfold spoilClosed
  split
  · rename_i closed
    rw [testLocal_set]
    split
    · rename_i here
      rw [← here.1]
      unfold testLocal at closed ⊢
      cases found : locals[next]? with
      | none => rfl
      | some tag =>
          rw [found] at closed
          cases tag <;> first | rfl | cases closed
    · rfl
  · rfl

theorem spoilClosed_length (next : Nat) :
    (spoilClosed next locals).length = locals.length := by
  unfold spoilClosed
  split
  · exact List.length_set
  · rfl

theorem spoilBehindOpen_length (index : Nat) :
    (spoilBehindOpen index locals).length = locals.length := by
  unfold spoilBehindOpen
  split
  · exact List.length_set
  · rfl

@[simp]
theorem writeTags_nil (index : Nat) : writeTags [] index locals = locals :=
  rfl

@[simp]
theorem writeTags_cons (tag : Tag) (tags : List Tag) (index : Nat) :
    writeTags (tag :: tags) index locals = writeTags tags (index + 1) (locals.set index tag) :=
  rfl

theorem writeTags_length (tags : List Tag) (index : Nat) :
    (writeTags tags index locals).length = locals.length := by
  induction tags generalizing index locals with
  | nil => rfl
  | cons tag tags induction =>
      rw [writeTags_cons, induction, List.length_set]

theorem writeTags_before
    (test : Tag → Bool)
    (tags : List Tag)
    {index place : Nat}
    (before : place < index) :
    testLocal test (writeTags tags index locals) place = testLocal test locals place := by
  induction tags generalizing index locals with
  | nil => rfl
  | cons tag tags induction =>
      rw [writeTags_cons, induction (Nat.lt_succ_of_lt before), testLocal_set, if_neg]
      rintro ⟨same, -⟩
      exact Nat.lt_irrefl _ (same ▸ before)

/-- What decides whether a stored word is spoiled. -/
theorem spoilBehindOpen_eq (tags : List Tag) (index : Nat) :
    spoilBehindOpen index (writeTags tags index locals) =
      if decide (0 < index) && testLocal opensTwoWords locals (index - 1) then
        (writeTags tags index locals).set index .bogus
      else
        writeTags tags index locals := by
  unfold spoilBehindOpen
  by_cases positive : 0 < index
  · rw [writeTags_before _ _ (Nat.sub_lt positive Nat.one_pos)]
    simp [positive]
  · simp [positive]

end Spoiling

section Stores

variable {locals : List Tag} {kind : Kind} {index : Nat}

theorem storeLocal_length :
    (storeLocal kind index locals).length = locals.length := by
  unfold storeLocal
  rw [spoilClosed_length, spoilBehindOpen_length, writeTags_length]

theorem storeLocal_marks :
    (storeLocal kind index locals).map Tag.isReference =
      storeMarks kind index (testLocal opensTwoWords locals) (locals.map Tag.isReference) := by
  unfold storeLocal storeMarks
  rw [spoilClosed_map, spoilBehindOpen_eq]
  generalize (decide (0 < index) && testLocal opensTwoWords locals (index - 1)) = behind
  cases kind with
  | object =>
      cases behind <;> simp [tagsOf, List.map_set, Tag.isReference]
  | primitive type =>
      cases type <;> cases behind <;>
        simp [tagsOf, List.map_set, Tag.isReference, PrimitiveType.tags,
          PrimitiveType.words, List.set_comm]

/-- A value takes one word, or two of which only the first opens it. -/
theorem tagsOf_cases (kind : Kind) :
    (kind.words = 1 ∧ ∃ tag, (tagsOf kind).reverse = [tag] ∧ opensTwoWords tag = false) ∨
      (kind.words = 2 ∧ ∃ first second, (tagsOf kind).reverse = [first, second] ∧
        opensTwoWords first = true ∧ opensTwoWords second = false) := by
  cases kind with
  | object => exact .inl ⟨rfl, _, rfl, rfl⟩
  | primitive type =>
      cases type with
      | long | double => exact .inr ⟨rfl, _, _, rfl, rfl, rfl⟩
      | _ => exact .inl ⟨rfl, _, rfl, rfl⟩

theorem storeLocal_opened
    (inside : index + kind.words ≤ locals.length)
    (place : Nat) :
    testLocal opensTwoWords (storeLocal kind index locals) place =
      leavesOpen (.plain (.storeLocal kind index)) (testLocal opensTwoWords locals) place := by
  unfold storeLocal leavesOpen
  rw [spoilClosed_opened, spoilBehindOpen_eq]
  dsimp only
  generalize (decide (0 < index) && testLocal opensTwoWords locals (index - 1)) = behind
  rcases tagsOf_cases kind with ⟨words, tag, tags, closed⟩ | ⟨words, first, second, tags, opened, closed⟩
  · rw [words] at inside
    rw [tags, words]
    have bogus : opensTwoWords .bogus = false := rfl
    have inside' : index < locals.length := inside
    by_cases here : place = index
    · subst here
      cases behind <;> simp [testLocal_set, inside', closed, bogus]
    · cases behind <;> simp [testLocal_set, here, Ne.symm here]
  · rw [words] at inside
    rw [tags, words]
    have bogus : opensTwoWords .bogus = false := rfl
    have inside' : index < locals.length := Nat.lt_of_succ_lt inside
    have inside₂ : index + 1 < locals.length := inside
    by_cases here : place = index
    · subst here
      cases behind <;> simp [testLocal_set, inside', opened, bogus]
    · by_cases next : place = index + 1
      · subst next
        cases behind <;> simp [testLocal_set, inside₂, closed]
      · cases behind <;>
          simp [testLocal_set, here, next, Ne.symm here, Ne.symm next]

end Stores

/-! ## One operation -/

/-- Two frames that mark the same words. -/
structure Similar (frame other : Frame) : Prop where
  locals : frame.locals.map Tag.isReference = other.locals.map Tag.isReference
  stack : frame.stack.map Tag.isReference = other.stack.map Tag.isReference

theorem Similar.refl (frame : Frame) : Similar frame frame :=
  ⟨rfl, rfl⟩

theorem Similar.symm {frame other : Frame} (similar : Similar frame other) :
    Similar other frame :=
  ⟨similar.locals.symm, similar.stack.symm⟩

theorem Similar.trans
    {frame other third : Frame}
    (similar : Similar frame other)
    (similar' : Similar other third) :
    Similar frame third :=
  ⟨similar.locals.trans similar'.locals, similar.stack.trans similar'.stack⟩

theorem Similar.length {frame other : Frame} (similar : Similar frame other) :
    frame.locals.length = other.locals.length := by
  simpa using congrArg List.length similar.locals

theorem marks_eq_iff
    {frame other : Frame}
    (length : frame.locals.length = other.locals.length) :
    frame.marks = other.marks ↔ Similar frame other := by
  unfold Frame.marks
  constructor
  · intro same
    obtain ⟨locals, stack⟩ := List.append_inj same (by simpa using length)
    exact ⟨locals, List.reverse_injective stack⟩
  · rintro ⟨locals, stack⟩
    rw [locals, stack]

/-- The first words of `long`s and `double`s in a frame. -/
def Frame.opened (frame : Frame) : Nat → Bool :=
  testLocal opensTwoWords frame.locals

section Operations

variable {method : Method} {operation : Operation} {frame other next : Frame}

/-- The operations that do not store into a local leave the locals alone. -/
theorem interpretOperation_cases (method : Method) (operation : Operation) (frame : Frame) :
    (∃ kind index, operation = .plain (.storeLocal kind index) ∧
      interpretOperation method operation frame =
        if index + kind.words ≤ frame.locals.length then
          (pop kind.words frame.stack).map fun stack =>
            { locals := storeLocal kind index frame.locals, stack }
        else
          none) ∨
      (∀ opened, leavesOpen operation opened = opened) ∧
      (∀ kind index, operation ≠ .plain (.storeLocal kind index)) ∧
      interpretOperation method operation frame =
        (operationStack id method frame.stack operation).map fun stack => { frame with stack } := by
  cases operation with
  | plain instruction =>
      cases instruction with
      | storeLocal kind index => exact .inl ⟨kind, index, rfl, rfl⟩
      | _ => exact .inr ⟨fun _ => rfl, (fun _ _ same => by cases same), rfl⟩
  | _ => exact .inr ⟨fun _ => rfl, (fun _ _ same => by cases same), rfl⟩

theorem stack_similar
    {stack stack' : List Tag}
    (similar : stack.map Tag.isReference = stack'.map Tag.isReference)
    {result : List Tag}
    (run : operationStack id method stack operation = some result) :
    ∃ result', operationStack id method stack' operation = some result' ∧
      result.map Tag.isReference = result'.map Tag.isReference := by
  have marked := operationStack_map Tag.isReference id method stack operation
  rw [similar, operationStack_map, run, Option.map_some, Option.map_eq_some_iff] at marked
  obtain ⟨result', run', same⟩ := marked
  exact ⟨result', run', same.symm⟩

theorem operation_opened
    (run : interpretOperation method operation frame = some next) :
    next.opened = leavesOpen operation frame.opened ∧ next.locals.length = frame.locals.length := by
  rcases interpretOperation_cases method operation frame with
    ⟨kind, index, rfl, step⟩ | ⟨same, -, step⟩
  · rw [step] at run
    split at run
    · rename_i inside
      obtain ⟨stack, -, rfl⟩ := Option.map_eq_some_iff.mp run
      exact ⟨funext (storeLocal_opened inside), storeLocal_length⟩
    · cases run
  · rw [step] at run
    obtain ⟨stack, -, rfl⟩ := Option.map_eq_some_iff.mp run
    exact ⟨(same _).symm, rfl⟩

/-- An operation stores a reference behind a local. -/
def storesBehind (operation : Operation) (index : Nat) : Prop :=
  operation = .plain (.storeLocal .object (index + 1))

theorem set_inj
    {marks : List Bool}
    {index : Nat}
    (inside : index < marks.length)
    {mark mark' : Bool}
    (same : marks.set index mark = marks.set index mark') :
    mark = mark' := by
  have here := congrArg (·[index]?) same
  simpa [inside] using here

/-- The marks after a store depend on the word before only when a reference is stored. -/
theorem storeMarks_eq_iff
    {kind : Kind}
    {index : Nat}
    {marks : List Bool}
    (inside : index < marks.length)
    (opened opened' : Nat → Bool) :
    storeMarks kind index opened marks = storeMarks kind index opened' marks ↔
      ∀ before, storesBehind (.plain (.storeLocal kind index)) before →
        opened before = opened' before := by
  cases kind with
  | primitive type =>
      refine ⟨fun _ before stores => ?_, fun _ => rfl⟩
      cases stores
  | object =>
      constructor
      · intro same before stores
        cases stores
        have marked := set_inj inside same
        simpa using marked
      · intro same
        unfold storeMarks
        cases index with
        | zero => rfl
        | succ before => rw [Nat.add_sub_cancel, same before rfl]

theorem operation_similar
    (similar : Similar frame other)
    (run : interpretOperation method operation frame = some next) :
    ∃ next', interpretOperation method operation other = some next' ∧
      (Similar next next' ↔
        ∀ index, storesBehind operation index → frame.opened index = other.opened index) := by
  rcases interpretOperation_cases method operation frame with
    ⟨kind, index, rfl, step⟩ | ⟨-, notStore, step⟩
  · rw [step] at run
    split at run
    · rename_i inside
      obtain ⟨stack, popped, rfl⟩ := Option.map_eq_some_iff.mp run
      obtain ⟨stack', popped', same⟩ :=
        @stack_similar method (.plain (.storeLocal kind index)) _ _ similar.stack _ popped
      have positive : 0 < kind.words := by
        rcases tagsOf_cases kind with ⟨words, -⟩ | ⟨words, -⟩ <;> omega
      have inside' : index < (other.locals.map Tag.isReference).length := by
        rw [List.length_map, ← similar.length]
        omega
      rw [similar.length] at inside
      have step' : interpretOperation method (.plain (.storeLocal kind index)) other =
          some ⟨storeLocal kind index other.locals, stack'⟩ := by
        change (if index + kind.words ≤ other.locals.length then
          (pop kind.words other.stack).map _ else none) = _
        rw [if_pos inside]
        exact congrArg (Option.map _) popped'
      refine ⟨_, step', Iff.trans ?_ (storeMarks_eq_iff inside' frame.opened other.opened)⟩
      constructor
      · rintro ⟨locals, -⟩
        rw [storeLocal_marks, storeLocal_marks, similar.locals] at locals
        exact locals
      · intro marked
        refine ⟨?_, same⟩
        rw [storeLocal_marks, storeLocal_marks, similar.locals]
        exact marked
    · cases run
  · rw [step] at run
    obtain ⟨stack, moved, rfl⟩ := Option.map_eq_some_iff.mp run
    obtain ⟨stack', moved', same⟩ := stack_similar similar.stack moved
    rcases interpretOperation_cases method operation other with
      ⟨kind, index, stores, -⟩ | ⟨-, -, step'⟩
    · exact absurd stores (notStore kind index)
    · refine ⟨{ other with stack := stack' }, by rw [step', moved']; rfl, ?_⟩
      exact ⟨fun _ index stores => absurd stores (notStore _ _), fun _ => ⟨similar.locals, same⟩⟩

end Operations

end PicoJvm.Stackmaps
