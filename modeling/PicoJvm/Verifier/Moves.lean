import PicoJvm.Verifier.Codes

/-!
# What the frame operations do to the stack

Each operation of the frame takes some slots from the top of the stack and puts
others there; `Moves` says which. The lemmas below give one such fact for each
operation, and compose them.
-/

namespace PicoJvm.Verifier

open PicoJvm.Lib.Fallible

/-- `Moves frame taken put frame'`: the slots `taken` are on top of the stack of
`frame`, and `frame'` has `put` in their place. Both lists are top first. -/
def Moves (frame : Frame) (taken put : List Slot) (frame' : Frame) : Prop :=
  ∃ rest, frame.stack = taken ++ rest ∧ frame' = { frame with stack := put ++ rest }

namespace Moves

variable {frame frame' frame'' : Frame} {taken put : List Slot}

theorem refl (frame : Frame) : Moves frame [] [] frame :=
  ⟨frame.stack, rfl, rfl⟩

/-- Taking in two steps; the second step may also put something. -/
theorem pop
    {taken' : List Slot}
    (first : Moves frame taken [] frame')
    (second : Moves frame' taken' put frame'') :
    Moves frame (taken ++ taken') put frame'' := by
  obtain ⟨rest, stackEq, rfl⟩ := first
  obtain ⟨rest', stackEq', rfl⟩ := second
  refine ⟨rest', ?_, rfl⟩
  rw [stackEq, List.append_assoc]
  exact congrArg (taken ++ ·) stackEq'

/-- Putting something on top of what has been put. -/
theorem push
    {put' : List Slot}
    (first : Moves frame taken put frame')
    (second : Moves frame' [] put' frame'') :
    Moves frame taken (put' ++ put) frame'' := by
  obtain ⟨rest, stackEq, rfl⟩ := first
  obtain ⟨rest', stackEq', rfl⟩ := second
  refine ⟨rest, stackEq, ?_⟩
  have restEq : put ++ rest = rest' := stackEq'
  simp [restEq]

end Moves

variable {frame frame' : Frame} {world : ClassWorld}

/-! ## Pushing -/

theorem Frame.push_moves
    {slot : Slot}
    (pushed : frame.push slot = .ok frame') :
    Moves frame [] [slot] frame' := by
  unfold Frame.push at pushed
  split at pushed
  · cases pushed
    exact ⟨frame.stack, rfl, rfl⟩
  · cases pushed

theorem Frame.push2_moves
    {first second : Slot}
    (pushed : frame.push2 first second = .ok frame') :
    Moves frame [] [second, first] frame' := by
  unfold Frame.push2 at pushed
  split at pushed
  · cases pushed
    exact ⟨frame.stack, rfl, rfl⟩
  · cases pushed

theorem Frame.pushTags_moves
    {tags : List Tag}
    (pushed : frame.pushTags tags = .ok frame') :
    Moves frame [] (tags.reverse.map .of) frame' := by
  induction tags generalizing frame with
  | nil =>
      cases pushed
      exact .refl _
  | cons tag rest inductionHypothesis =>
      obtain ⟨middle, first, later⟩ := bind_eq_ok_iff.mp pushed
      have moves := (Frame.push_moves first).push (inductionHypothesis later)
      simpa using moves

theorem pushPrimitive_moves
    {type : PrimitiveType}
    (pushed : pushPrimitive type frame = .ok frame') :
    Moves frame [] (type.tags.map .of) frame' := by
  have moves := Frame.pushTags_moves pushed
  rwa [List.reverse_reverse] at moves

/-! ## Popping -/

theorem Frame.popCategory1_moves
    {slot : Slot}
    (popped : frame.popCategory1 = .ok (slot, frame')) :
    Moves frame [slot] [] frame' := by
  unfold Frame.popCategory1 at popped
  split at popped
  · cases popped
  · rename_i top rest stackEq
    split at popped
    · cases popped
    · cases popped
      exact ⟨rest, stackEq, rfl⟩

theorem Frame.popCategory2_moves
    {first second : Slot}
    (popped : frame.popCategory2 = .ok (first, second, frame')) :
    Moves frame [second, first] [] frame' := by
  unfold Frame.popCategory2 at popped
  split at popped
  · rename_i top below rest stackEq
    split at popped
    · cases popped
    · cases popped
      exact ⟨rest, stackEq, rfl⟩
  · cases popped

theorem Frame.popRef_moves
    {slot : Slot}
    (popped : frame.popRef = .ok (slot, frame')) :
    Moves frame [slot] [] frame' ∧ slot.tag.isReference := by
  obtain ⟨⟨top, middle⟩, first, later⟩ := bind_eq_ok_iff.mp popped
  dsimp only at later
  split at later
  · rename_i isReference
    cases later
    exact ⟨Frame.popCategory1_moves first, isReference⟩
  · cases later

theorem Frame.popTag_moves
    {tag : Tag}
    (popped : frame.popTag tag = .ok frame') :
    ∃ slot : Slot, slot.tag = tag ∧ Moves frame [slot] [] frame' := by
  unfold Frame.popTag at popped
  split at popped
  · cases popped
  · rename_i slot rest stackEq
    obtain ⟨sameTag, ok⟩ := guarded_eq_ok_iff.mp popped
    cases ok
    exact ⟨slot, not_not.mp sameTag, rest, stackEq, rfl⟩

theorem Frame.popTags_moves
    {tags : List Tag}
    (popped : frame.popTags tags = .ok frame') :
    ∃ slots : List Slot, slots.map Slot.tag = tags ∧ Moves frame slots [] frame' := by
  induction tags generalizing frame with
  | nil =>
      cases popped
      exact ⟨[], rfl, .refl _⟩
  | cons tag rest inductionHypothesis =>
      obtain ⟨middle, first, later⟩ := bind_eq_ok_iff.mp popped
      obtain ⟨slot, rfl, moves⟩ := Frame.popTag_moves first
      obtain ⟨slots, rfl, moves'⟩ := inductionHypothesis later
      exact ⟨slot :: slots, rfl, moves.pop moves'⟩

theorem popPrimitive_moves
    {type : PrimitiveType}
    (popped : popPrimitive type frame = .ok frame') :
    ∃ slots : List Slot, slots.map Slot.tag = type.tags ∧ Moves frame slots [] frame' :=
  Frame.popTags_moves popped

theorem popInteger_moves
    (popped : popInteger frame = .ok frame') :
    ∃ slot : Slot, slot.tag = .integer ∧ Moves frame [slot] [] frame' :=
  Frame.popTag_moves popped

/-- The tag of an initialised object, or of no object. -/
def Tag.IsInitialised (tag : Tag) : Prop :=
  tag = .object ∨ tag = .null

instance (tag : Tag) : Decidable tag.IsInitialised :=
  inferInstanceAs (Decidable (_ ∨ _))

theorem Frame.popObject_moves
    {name : ClassName}
    (popped : frame.popObject world name = .ok frame') :
    ∃ slot : Slot, slot.tag.IsInitialised ∧ Moves frame [slot] [] frame' := by
  obtain ⟨⟨slot, middle⟩, first, later⟩ := bind_eq_ok_iff.mp popped
  have moves := Frame.popCategory1_moves first
  dsimp only at later
  split at later
  · rename_i isObject
    obtain ⟨result, _, decided⟩ := bind_eq_ok_iff.mp later
    split at decided
    · cases decided
      exact ⟨slot, .inl isObject, moves⟩
    · cases decided
  · rename_i isNull
    cases later
    exact ⟨slot, .inr isNull, moves⟩
  · cases later

theorem popArrayOf_moves
    {type : PrimitiveType}
    (popped : popArrayOf type frame = .ok frame') :
    ∃ slot : Slot, slot.tag.IsInitialised ∧ Moves frame [slot] [] frame' := by
  obtain ⟨⟨slot, middle⟩, first, later⟩ := bind_eq_ok_iff.mp popped
  have moves := (Frame.popRef_moves first).1
  dsimp only at later
  split at later
  · rename_i isNull
    cases later
    exact ⟨slot, .inr isNull, moves⟩
  · rename_i isObject _
    split at later
    · cases later
      exact ⟨slot, .inl isObject, moves⟩
    · cases later
  · cases later

end PicoJvm.Verifier
