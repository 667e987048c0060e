import PicoJvm.Execution.ExceptionFrame
import Mathlib.Data.List.Nodup

/-!
# Exception propagation

What `find_exception_frame` should do, said without its loop: which exception is in
force after some frames were given up, which frames let it pass, and which monitors
are released.
-/

namespace PicoJvm.Execution

variable {isSubtypeOf : Subtypes} {killing : Bool} {replacement exception : Exn}

/-! ## Handlers -/

/-- The range of an entry contains the frame's bytecode index, and its catch type is
any or a supertype of the exception's class. -/
def Matches (isSubtypeOf : Subtypes) (frame : JavaFrame) (exception : Exn)
    (entry : TableEntry) : Prop :=
  (entry.startBci ≤ frame.bci ∧ frame.bci < entry.endBci) ∧
    (entry.catchType = 0 ∨ ∃ catchClass, frame.method.klassAt entry.catchType = .ok catchClass ∧
      (catchClass = exception.klass ∨ isSubtypeOf exception.klass catchClass = true))

/-- The first matching entry of the frame, in table order, has its handler there. -/
def Catches (isSubtypeOf : Subtypes) (killing : Bool) (frame : JavaFrame) (exception : Exn)
    (bci : Nat) : Prop :=
  killing = false ∧ ∃ before entry after,
    frame.method.exceptionTable = before ++ entry :: after ∧
      (∀ earlier ∈ before, ¬ Matches isSubtypeOf frame exception earlier) ∧
        Matches isSubtypeOf frame exception entry ∧ bci = entry.handlerBci

/-- The frame has no handler for the exception, or the thread is being killed. -/
def Passes (isSubtypeOf : Subtypes) (killing : Bool) (frame : JavaFrame) (exception : Exn) :
    Prop :=
  killing = true ∨
    ∀ entry ∈ frame.method.exceptionTable, ¬ Matches isSubtypeOf frame exception entry

/-- The catch types of all entries around the frame's bytecode index can be
resolved. -/
def Resolves (frame : JavaFrame) : Prop :=
  ∀ entry ∈ frame.method.exceptionTable,
    entry.startBci ≤ frame.bci → frame.bci < entry.endBci → entry.catchType ≠ 0 →
      ∃ catchClass, frame.method.klassAt entry.catchType = .ok catchClass

/-- The result of searching a table: no entry matches, or the handler of the first one
that does. -/
def SearchResult (isSubtypeOf : Subtypes) (exception : Exn) (frame : JavaFrame)
    (table : List TableEntry) (result : Except Exn (Option Nat)) : Prop :=
  (result = .ok none ∧ ∀ entry ∈ table, ¬ Matches isSubtypeOf frame exception entry) ∨
    ∃ before entry after, result = .ok (some entry.handlerBci) ∧
      table = before ++ entry :: after ∧
        (∀ earlier ∈ before, ¬ Matches isSubtypeOf frame exception earlier) ∧
          Matches isSubtypeOf frame exception entry

theorem SearchResult.cons
    {frame : JavaFrame} {entry : TableEntry} {rest : List TableEntry}
    {result : Except Exn (Option Nat)}
    (skipped : ¬ Matches isSubtypeOf frame exception entry)
    (later : SearchResult isSubtypeOf exception frame rest result) :
    SearchResult isSubtypeOf exception frame (entry :: rest) result := by
  rcases later with ⟨notFound, passes⟩ | ⟨before, found, after, handler, split, earlier, isMatch⟩
  · exact .inl ⟨notFound, List.forall_mem_cons.mpr ⟨skipped, passes⟩⟩
  · exact .inr ⟨entry :: before, found, after, handler, by rw [split]; rfl,
      List.forall_mem_cons.mpr ⟨skipped, earlier⟩, isMatch⟩

theorem SearchResult.head
    {frame : JavaFrame} {entry : TableEntry} {rest : List TableEntry}
    (isMatch : Matches isSubtypeOf frame exception entry) :
    SearchResult isSubtypeOf exception frame (entry :: rest)
      (.ok (some entry.handlerBci)) :=
  .inr ⟨[], entry, rest, rfl, rfl, by simp, isMatch⟩

theorem exceptionHandlerBciFor_spec
    (isSubtypeOf : Subtypes) (exception : Exn)
    {frame : JavaFrame} {table : List TableEntry}
    (resolves : ∀ entry ∈ table, entry.startBci ≤ frame.bci → frame.bci < entry.endBci →
      entry.catchType ≠ 0 → ∃ catchClass, frame.method.klassAt entry.catchType = .ok catchClass) :
    SearchResult isSubtypeOf exception frame table
      (exceptionHandlerBciFor isSubtypeOf frame.method exception.klass frame.bci table) := by
  induction table with
  | nil =>
      exact .inl ⟨rfl, by simp⟩
  | cons entry rest inductionHypothesis =>
      have here := resolves entry List.mem_cons_self
      have later := inductionHypothesis fun entry member => resolves entry (.tail _ member)
      simp only [exceptionHandlerBciFor]
      split
      · rename_i inRange
        split
        · rename_i isAny
          exact .head ⟨inRange, .inl isAny⟩
        · rename_i notAny
          obtain ⟨catchClass, resolved⟩ := here inRange.1 inRange.2 notAny
          simp only [resolved]
          split
          · rename_i isSuper
            exact .head ⟨inRange, .inr ⟨catchClass, resolved, isSuper⟩⟩
          · rename_i notSuper
            refine later.cons ?_
            rintro ⟨_, isAny | ⟨catchClass', resolved', isSuper⟩⟩
            · exact notAny isAny
            · rw [resolved] at resolved'
              cases resolved'
              exact notSuper isSuper
      · rename_i outOfRange
        exact later.cons fun isMatch => outOfRange isMatch.1

/-- The search in a frame whose catch types resolve. -/
theorem handlerOf_spec
    {frame : JavaFrame}
    (resolves : Resolves frame)
    (isSubtypeOf : Subtypes) (killing : Bool) (exception : Exn) :
    (handlerOf isSubtypeOf killing exception frame = .ok none ∧
        Passes isSubtypeOf killing frame exception) ∨
      ∃ bci, handlerOf isSubtypeOf killing exception frame = .ok (some bci) ∧
        Catches isSubtypeOf killing frame exception bci := by
  cases killing with
  | true =>
      exact .inl ⟨rfl, .inl rfl⟩
  | false =>
      rcases exceptionHandlerBciFor_spec isSubtypeOf exception resolves with
        ⟨notFound, passes⟩ | ⟨before, entry, after, found, split, earlier, isMatch⟩
      · exact .inl ⟨notFound, .inr passes⟩
      · exact .inr ⟨entry.handlerBci, found, rfl, before, entry, after, split, earlier, isMatch,
          rfl⟩

/-! ## Monitors -/

/-- A frame that gives back its monitors in good order: a synchronized method still
holds its own and no other, any other method holds none. -/
def Balanced (frame : JavaFrame) : Prop :=
  if frame.method.isSynchronized ∧ frame.isOverflow = false then
    ∃ owner rest, frame.locks = some owner :: rest ∧ ∀ lock ∈ rest, lock = none
  else
    ∀ lock ∈ frame.locks, lock = none

/-- A stack lock of the frame is in use. -/
def Holds (frame : JavaFrame) (slot : Nat) : Prop :=
  ∃ owner, frame.locks[slot]? = some (some owner)

theorem mem_unlockAll
    {locks : List (Option Nat)} {start slot : Nat} :
    slot ∈ unlockAll start locks ↔
      ∃ place, slot = start + place ∧ ∃ owner, locks[place]? = some (some owner) := by
  induction locks generalizing start with
  | nil =>
      simp [unlockAll]
  | cons lock rest inductionHypothesis =>
      have shift : slot ∈ unlockAll (start + 1) rest ↔
          ∃ place, slot = start + (place + 1) ∧
            ∃ owner, (lock :: rest)[place + 1]? = some (some owner) := by
        rw [inductionHypothesis]
        simp [Nat.add_comm, Nat.add_left_comm]
      cases lock with
      | none =>
          rw [unlockAll, shift]
          constructor
          · rintro ⟨place, slotEq, held⟩
            exact ⟨place + 1, slotEq, held⟩
          · rintro ⟨place, slotEq, owner, held⟩
            cases place with
            | zero =>
                simp at held
            | succ place =>
                exact ⟨place, slotEq, owner, held⟩
      | some owner =>
          rw [unlockAll, List.mem_cons, shift]
          constructor
          · rintro (rfl | ⟨place, slotEq, held⟩)
            · exact ⟨0, rfl, owner, rfl⟩
            · exact ⟨place + 1, slotEq, held⟩
          · rintro ⟨place, slotEq, held⟩
            cases place with
            | zero =>
                exact .inl slotEq
            | succ place =>
                exact .inr ⟨place, slotEq, held⟩

theorem nodup_unlockAll (start : Nat) (locks : List (Option Nat)) :
    (unlockAll start locks).Nodup := by
  induction locks generalizing start with
  | nil =>
      exact List.nodup_nil
  | cons lock rest inductionHypothesis =>
      cases lock with
      | none =>
          exact inductionHypothesis (start + 1)
      | some owner =>
          refine List.nodup_cons.mpr ⟨?_, inductionHypothesis (start + 1)⟩
          intro again
          obtain ⟨place, startEq, _⟩ := mem_unlockAll.1 again
          omega

theorem unlockAll_eq_nil_iff
    {start : Nat} {locks : List (Option Nat)} :
    unlockAll start locks = [] ↔ ∀ lock ∈ locks, lock = none := by
  induction locks generalizing start with
  | nil =>
      simp [unlockAll]
  | cons lock rest inductionHypothesis =>
      cases lock <;> simp [unlockAll, inductionHypothesis]

/-- In every case the slots unlocked are those the loop alone would unlock. -/
theorem releaseLocks_slots (frame : JavaFrame) :
    (releaseLocks frame).1 = unlockAll 0 frame.locks := by
  unfold releaseLocks
  split
  · split
    · rename_i isEmpty
      rw [isEmpty]
      rfl
    · rename_i locksEq
      rw [locksEq]
      rfl
    · rename_i locksEq
      rw [locksEq]
      rfl
  · rfl

theorem mem_releaseLocks_iff
    {frame : JavaFrame} {slot : Nat} :
    slot ∈ (releaseLocks frame).1 ↔ Holds frame slot := by
  rw [releaseLocks_slots, mem_unlockAll]
  simp [Holds]

theorem releaseLocks_isError_iff (frame : JavaFrame) :
    (releaseLocks frame).2 = false ↔ Balanced frame := by
  unfold releaseLocks Balanced
  split
  · split
    · rename_i isEmpty
      simp [isEmpty]
    · rename_i locksEq
      simp [locksEq]
    · rename_i owner rest locksEq
      simp only [locksEq, decide_eq_false_iff_not, not_not, unlockAll_eq_nil_iff]
      constructor
      · intro restFree
        exact ⟨owner, rest, rfl, restFree⟩
      · rintro ⟨_, _, split, restFree⟩
        cases split
        exact restFree
  · simp [unlockAll_eq_nil_iff]

theorem releaseLocks_unlocked (frame : JavaFrame) :
    (releaseLocks frame.unlocked).1 = [] := by
  rw [releaseLocks_slots, unlockAll_eq_nil_iff]
  simp [JavaFrame.unlocked]

/-! ## The specification -/

/-- The exception in force once the frames `above` have been given up: the one of the
illegal monitor state as soon as a frame was not balanced, unless the exception is
already one that sticks. -/
def InForce (replacement : Exn) (sticky : Bool) (exception : Exn) (above : List Frame)
    (current : Exn) : Prop :=
  (current = exception ∧ (sticky = true ∨ ∀ frame, .java frame ∈ above → Balanced frame)) ∨
    (current = replacement ∧ sticky = false ∧ ∃ frame, .java frame ∈ above ∧ ¬ Balanced frame)

/-- Each of the frames let pass the exception in force when it was reached, and the one
in force when it was left. -/
def GivenUp (isSubtypeOf : Subtypes) (killing : Bool) (replacement : Exn) (sticky : Bool)
    (exception : Exn) (above : List Frame) : Prop :=
  ∀ before frame after, above = before ++ .java frame :: after →
    ∀ current,
      InForce replacement sticky exception before current ∨
          InForce replacement sticky exception (before ++ [.java frame]) current →
        Passes isSubtypeOf killing frame current

/-- Exactly the monitors held by the first frames are released, each once. Positions
are counted from `start`. -/
def Released (start count : Nat) (frames : List Frame) (unlocks : List (Nat × Nat)) : Prop :=
  unlocks.Nodup ∧
    ∀ position slot, (position, slot) ∈ unlocks ↔
      ∃ place < count, position = start + place ∧
        ∃ frame, frames[place]? = some (.java frame) ∧ Holds frame slot

/-- The exception reaches the first entry frame, or resumes the innermost frame with a
handler for the exception in force there. The frame that brought the illegal monitor
state to light has given up its monitors before it is searched for its own handler. -/
inductive Propagates (isSubtypeOf : Subtypes) (killing : Bool) (replacement : Exn)
    (start : Nat) (sticky : Bool) (exception : Exn) (frames : List Frame) : Walk → Prop
  | entryFrame {current : Exn} {unlocks : List (Nat × Nat)} :
      GivenUp isSubtypeOf killing replacement sticky exception frames →
      InForce replacement sticky exception frames current →
      Released start frames.length frames unlocks →
      Propagates isSubtypeOf killing replacement start sticky exception frames
        ⟨.entryFrame current, unlocks⟩
  | resumed {above below : List Frame} {frame : JavaFrame} {current : Exn} {bci : Nat}
      {unlocks : List (Nat × Nat)} :
      frames = above ++ .java frame :: below →
      GivenUp isSubtypeOf killing replacement sticky exception above →
      InForce replacement sticky exception above current →
      Catches isSubtypeOf killing frame current bci →
      Released start above.length frames unlocks →
      Propagates isSubtypeOf killing replacement start sticky exception frames
        ⟨.resumed (frame.resumeAt bci current) below, unlocks⟩
  | resumedReplaced {above below : List Frame} {frame : JavaFrame} {bci : Nat}
      {unlocks : List (Nat × Nat)} :
      frames = above ++ .java frame :: below →
      GivenUp isSubtypeOf killing replacement sticky exception above →
      sticky = false →
      (∀ frame, .java frame ∈ above → Balanced frame) →
      Passes isSubtypeOf killing frame exception →
      ¬ Balanced frame →
      Catches isSubtypeOf killing frame replacement bci →
      Released start (above.length + 1) frames unlocks →
      Propagates isSubtypeOf killing replacement start sticky exception frames
        ⟨.resumed (frame.unlocked.resumeAt bci replacement) below, unlocks⟩

/-! ## One more frame on top -/

theorem Released.nil (start : Nat) (frames : List Frame) : Released start 0 frames [] := by
  refine ⟨List.nodup_nil, ?_⟩
  simp

/-- The slots a frame holds, as a list without repetitions. -/
structure HeldSlots (frame : Frame) (slots : List Nat) : Prop where
  nodup : slots.Nodup
  mem_iff : ∀ slot, slot ∈ slots ↔ ∃ inner, frame = .java inner ∧ Holds inner slot

theorem heldSlots_releaseLocks (frame : JavaFrame) :
    HeldSlots (.java frame) (releaseLocks frame).1 := by
  refine ⟨?_, ?_⟩
  · rw [releaseLocks_slots]
    exact nodup_unlockAll 0 frame.locks
  · intro slot
    rw [mem_releaseLocks_iff]
    constructor
    · intro holds
      exact ⟨frame, rfl, holds⟩
    · rintro ⟨_, same, holds⟩
      cases same
      exact holds

theorem heldSlots_entry : HeldSlots .entry [] :=
  ⟨List.nodup_nil, by simp⟩

theorem Released.cons
    {start count : Nat} {top : Frame} {below : List Frame} {slots : List Nat}
    {unlocks : List (Nat × Nat)}
    (held : HeldSlots top slots)
    (later : Released (start + 1) count below unlocks) :
    Released start (count + 1) (top :: below) (slotsAt start slots ++ unlocks) := by
  obtain ⟨nodup, members⟩ := later
  have here (position slot : Nat) :
      (position, slot) ∈ slotsAt start slots ↔ position = start ∧ slot ∈ slots := by
    simp [slotsAt, and_comm, eq_comm]
  constructor
  · refine List.Nodup.append (held.nodup.map fun _ _ same => (Prod.mk.inj same).2) nodup ?_
    rintro ⟨position, slot⟩ isHere isLater
    obtain ⟨place, _, positionEq, _⟩ := (members position slot).mp isLater
    have := ((here position slot).mp isHere).1
    omega
  · intro position slot
    rw [List.mem_append, here, members, held.mem_iff]
    constructor
    · rintro (⟨rfl, inner, rfl, holds⟩ | ⟨place, inside, rfl, holds⟩)
      · exact ⟨0, Nat.succ_pos count, rfl, inner, rfl, holds⟩
      · exact ⟨place + 1, Nat.succ_lt_succ inside, by omega, holds⟩
    · rintro ⟨place, inside, rfl, inner, atPlace, holds⟩
      cases place with
      | zero =>
          exact .inl ⟨rfl, inner, by simpa using atPlace, holds⟩
      | succ place =>
          exact .inr ⟨place, Nat.lt_of_succ_lt_succ inside, by omega, inner,
            by simpa using atPlace, holds⟩

/-- How the exception in force and the stickiness change over a frame. -/
structure Carries (isSubtypeOf : Subtypes) (killing : Bool) (replacement : Exn)
    (sticky : Bool) (exception : Exn) (top : Frame) (sticky' : Bool) (exception' : Exn) :
    Prop where
  inForce : ∀ above current,
    InForce replacement sticky exception (top :: above) current ↔
      InForce replacement sticky' exception' above current
  passes : ∀ frame, top = .java frame → ∀ current,
    InForce replacement sticky exception [] current ∨
        InForce replacement sticky exception [top] current →
      Passes isSubtypeOf killing frame current
  same : sticky' = false →
    sticky = false ∧ exception' = exception ∧ ∀ frame, top = .java frame → Balanced frame

section Carries

variable {sticky sticky' : Bool} {exception' : Exn} {top : Frame} {below : List Frame}
  {start : Nat} {slots : List Nat} {outcome : Outcome} {unlocks : List (Nat × Nat)}

theorem GivenUp.cons
    {above : List Frame}
    (carries : Carries isSubtypeOf killing replacement sticky exception top sticky' exception')
    (later : GivenUp isSubtypeOf killing replacement sticky' exception' above) :
    GivenUp isSubtypeOf killing replacement sticky exception (top :: above) := by
  intro before frame after split current inForce
  cases before with
  | nil =>
      simp only [List.nil_append, List.cons.injEq] at split
      obtain ⟨rfl, _⟩ := split
      exact carries.passes frame rfl current inForce
  | cons first before =>
      simp only [List.cons_append, List.cons.injEq] at split
      obtain ⟨rfl, split⟩ := split
      rw [List.cons_append, carries.inForce, carries.inForce] at inForce
      exact later before frame after split current inForce

theorem Propagates.cons
    (carries : Carries isSubtypeOf killing replacement sticky exception top sticky' exception')
    (held : HeldSlots top slots)
    (later : Propagates isSubtypeOf killing replacement (start + 1) sticky' exception' below
      ⟨outcome, unlocks⟩) :
    Propagates isSubtypeOf killing replacement start sticky exception (top :: below)
      ⟨outcome, slotsAt start slots ++ unlocks⟩ := by
  cases later with
  | entryFrame givenUp inForce released =>
      exact .entryFrame (givenUp.cons carries) ((carries.inForce _ _).mpr inForce)
        (released.cons held)
  | resumed split givenUp inForce catches released =>
      subst split
      exact .resumed (List.cons_append ..).symm (givenUp.cons carries)
        ((carries.inForce _ _).mpr inForce) catches (released.cons held)
  | @resumedReplaced above _ _ _ _ split givenUp notSticky balanced passes unbalanced catches
      released =>
      subst split
      obtain ⟨notSticky', rfl, balancedHere⟩ := carries.same notSticky
      refine .resumedReplaced (List.cons_append ..).symm (givenUp.cons carries) notSticky' ?_
        passes unbalanced catches (released.cons held)
      intro frame member
      rcases List.mem_cons.mp member with isTop | deeper
      · exact balancedHere frame isTop.symm
      · exact balanced frame deeper

theorem carries_entry :
    Carries isSubtypeOf killing replacement sticky exception .entry sticky exception where
  inForce above current := by simp [InForce]
  passes frame isJava := by cases isJava
  same notSticky := ⟨notSticky, rfl, fun _ isJava => by cases isJava⟩

/-- A frame without a handler that is balanced, or met when no other exception can come
up. -/
theorem carries_kept
    {frame : JavaFrame}
    (passes : Passes isSubtypeOf killing frame exception)
    (kept : sticky = true ∨ Balanced frame) :
    Carries isSubtypeOf killing replacement sticky exception (.java frame) sticky exception where
  inForce above current := by
    rcases kept with isSticky | balanced
    · simp [InForce, isSticky]
    · simp only [InForce, List.mem_cons, Frame.java.injEq, forall_eq_or_imp]
      constructor
      · rintro (⟨same, still⟩ | ⟨same, notSticky, other, rfl | member, unbalanced⟩)
        · exact .inl ⟨same, still.imp id And.right⟩
        · exact absurd balanced unbalanced
        · exact .inr ⟨same, notSticky, other, member, unbalanced⟩
      · rintro (⟨same, still⟩ | ⟨same, notSticky, other, member, unbalanced⟩)
        · exact .inl ⟨same, still.imp id (.intro balanced)⟩
        · exact .inr ⟨same, notSticky, other, .inr member, unbalanced⟩
  passes other isJava current inForce := by
    cases isJava
    have same : current = exception := by
      rcases inForce with inForce | inForce
      · rcases inForce with ⟨same, _⟩ | ⟨_, _, other, member, _⟩
        · exact same
        · cases member
      · rcases inForce with ⟨same, _⟩ | ⟨_, notSticky, other, member, unbalanced⟩
        · exact same
        · cases List.mem_singleton.mp member
          rcases kept with isSticky | balanced
          · rw [isSticky] at notSticky
            cases notSticky
          · exact absurd balanced unbalanced
    rw [same]
    exact passes
  same notSticky := by
    refine ⟨notSticky, rfl, ?_⟩
    intro other isJava
    cases isJava
    rcases kept with isSticky | balanced
    · rw [isSticky] at notSticky
      cases notSticky
    · exact balanced

/-- The first frame that is not balanced changes the exception. -/
theorem carries_replaced
    {frame : JavaFrame}
    (passes : Passes isSubtypeOf killing frame exception)
    (passesReplacement : Passes isSubtypeOf killing frame replacement)
    (unbalanced : ¬ Balanced frame) :
    Carries isSubtypeOf killing replacement false exception (.java frame) true replacement where
  inForce above current := by
    simp only [InForce, List.mem_cons, Frame.java.injEq, forall_eq_or_imp]
    constructor
    · rintro (⟨_, still | ⟨balanced, _⟩⟩ | ⟨same, _⟩)
      · cases still
      · exact absurd balanced unbalanced
      · exact .inl ⟨same, .inl trivial⟩
    · rintro (⟨same, _⟩ | ⟨_, still, _⟩)
      · exact .inr ⟨same, trivial, frame, .inl rfl, unbalanced⟩
      · cases still
  passes other isJava current inForce := by
    cases isJava
    rcases inForce with (⟨rfl, _⟩ | ⟨rfl, _⟩) | (⟨rfl, _⟩ | ⟨rfl, _⟩)
    · exact passes
    · exact passesReplacement
    · exact passes
    · exact passesReplacement
  same still := by cases still

end Carries

/-! ## The walk -/

theorem GivenUp.nil {sticky : Bool} :
    GivenUp isSubtypeOf killing replacement sticky exception [] := by
  intro before frame after split
  simp at split

theorem InForce.nil {sticky : Bool} : InForce replacement sticky exception [] exception :=
  .inl ⟨rfl, .inr (by simp)⟩

/-- The loop propagates the exception over the frames it has still to visit. -/
theorem walk_propagates
    {all frames : List Frame}
    (resolves : ∀ frame, .java frame ∈ frames → Resolves frame)
    (position : Nat) (sticky : Bool) (exception : Exn) (unlocks : List (Nat × Nat)) :
    ∃ outcome later,
      walk isSubtypeOf killing replacement all position sticky exception unlocks frames =
          ⟨outcome, unlocks ++ later⟩ ∧
        Propagates isSubtypeOf killing replacement position sticky exception frames
          ⟨outcome, later⟩ := by
  induction frames generalizing position sticky exception unlocks with
  | nil =>
      exact ⟨.entryFrame exception, [], by simp [walk], .entryFrame .nil .nil (.nil _ _)⟩
  | cons top below inductionHypothesis =>
      have resolvesBelow : ∀ frame, .java frame ∈ below → Resolves frame :=
        fun frame member => resolves frame (.tail _ member)
      have continues := inductionHypothesis resolvesBelow (position + 1)
      cases top with
      | entry =>
          obtain ⟨outcome, later, walkEq, propagates⟩ := continues sticky exception unlocks
          exact ⟨outcome, later, by simpa [walk] using walkEq,
            propagates.cons carries_entry heldSlots_entry⟩
      | java frame =>
          have resolvesHere := resolves frame List.mem_cons_self
          have held := heldSlots_releaseLocks frame
          rcases handlerOf_spec resolvesHere isSubtypeOf killing exception with
            ⟨noHandler, passes⟩ | ⟨bci, handler, catches⟩
          · cases isError : (releaseLocks frame).2 with
            | false =>
                have balanced := (releaseLocks_isError_iff frame).mp isError
                obtain ⟨outcome, later, walkEq, propagates⟩ := continues sticky exception
                  (unlocks ++ slotsAt position (releaseLocks frame).1)
                refine ⟨outcome, slotsAt position (releaseLocks frame).1 ++ later, ?_,
                  propagates.cons (carries_kept passes (.inr balanced)) held⟩
                simpa [walk, noHandler, isError] using walkEq
            | true =>
                have unbalanced : ¬ Balanced frame := by
                  rw [← releaseLocks_isError_iff, isError]
                  exact Bool.noConfusion
                cases sticky with
                | true =>
                    obtain ⟨outcome, later, walkEq, propagates⟩ := continues true exception
                      (unlocks ++ slotsAt position (releaseLocks frame).1)
                    refine ⟨outcome, slotsAt position (releaseLocks frame).1 ++ later, ?_,
                      propagates.cons (carries_kept passes (.inl rfl)) held⟩
                    simpa [walk, noHandler, isError] using walkEq
                | false =>
                    rcases handlerOf_spec resolvesHere isSubtypeOf killing replacement with
                      ⟨noHandler', passes'⟩ | ⟨bci, handler', catches⟩
                    · obtain ⟨outcome, later, walkEq, propagates⟩ := continues true replacement
                        (unlocks ++ slotsAt position (releaseLocks frame).1)
                      refine ⟨outcome, slotsAt position (releaseLocks frame).1 ++ later, ?_,
                        propagates.cons (carries_replaced passes passes' unbalanced) held⟩
                      simpa [walk, noHandler, isError, noHandler', releaseLocks_unlocked,
                        slotsAt] using walkEq
                    · refine ⟨.resumed (frame.unlocked.resumeAt bci replacement) below,
                        slotsAt position (releaseLocks frame).1 ++ [],
                        by simp [walk, noHandler, isError, handler'], ?_⟩
                      exact .resumedReplaced (List.nil_append _).symm .nil rfl (by simp) passes
                        unbalanced catches ((Released.nil _ _).cons held)
          · exact ⟨.resumed (frame.resumeAt bci exception) below, [], by simp [walk, handler],
              .resumed (List.nil_append _).symm .nil .nil catches (.nil _ _)⟩

/-- The frames that are searched, and the position of the first one: all but a frame
built for a stack overflow, which holds no monitor. -/
def searchedFrames : List Frame → Nat × List Frame
  | [] => (0, [])
  | top :: below => if isOverflowFrame top then (1, below) else (0, top :: below)

/-- When the catch types around each frame's bytecode index resolve,
`find_exception_frame` propagates the exception. -/
theorem findExceptionFrame_propagates
    {frames : List Frame}
    (resolves : ∀ frame, .java frame ∈ frames → Resolves frame) :
    Propagates isSubtypeOf killing replacement (searchedFrames frames).1 killing exception
      (searchedFrames frames).2
      (findExceptionFrame isSubtypeOf killing replacement exception frames) := by
  cases frames with
  | nil =>
      exact .entryFrame .nil .nil (.nil _ _)
  | cons top below =>
      simp only [searchedFrames, findExceptionFrame]
      split
      · obtain ⟨outcome, later, walkEq, propagates⟩ := walk_propagates
          (fun frame member => resolves frame (.tail _ member)) 1 killing exception []
        rw [walkEq]
        exact propagates
      · obtain ⟨outcome, later, walkEq, propagates⟩ := walk_propagates resolves 0 killing
          exception []
        rw [walkEq]
        exact propagates

/-! ## A frame that resumes without its monitor -/

/-- No monitor of the frame that resumes was released. -/
def KeepsResumedMonitors (frames : List Frame) (result : Walk) : Prop :=
  ∀ frame below, result.outcome = .resumed frame below →
    ∀ slot, (frames.length - below.length - 1, slot) ∉ result.unlocks

/-- A method that is left with a monitor of object 7 held, and catches exceptions of
class 20 only. -/
def unbalancedFrame : JavaFrame where
  method :=
    { exceptionTable := [⟨0, 10, 12, 1⟩]
      isSynchronized := false
      klassAt := fun _ => .ok 20 }
  bci := 4
  isOverflow := false
  locks := [some 7]
  expressionStack := []
  overflowUnlocked := by simp

def equalOnly : Subtypes := fun klass super => decide (klass = super)

/-- The exception of class 10 goes by; the illegal monitor state, of class 20, resumes
the frame whose monitor has just been released. -/
theorem unbalancedFrame_loses_monitor :
    ¬ KeepsResumedMonitors [.java unbalancedFrame]
      (findExceptionFrame equalOnly false ⟨2, 20⟩ ⟨1, 10⟩ [.java unbalancedFrame]) := by
  intro keeps
  exact keeps (unbalancedFrame.unlocked.resumeAt 12 ⟨2, 20⟩) [] rfl 0 List.mem_cons_self

theorem unbalancedFrame_propagates :
    Propagates equalOnly false ⟨2, 20⟩ 0 false ⟨1, 10⟩ [.java unbalancedFrame]
      (findExceptionFrame equalOnly false ⟨2, 20⟩ ⟨1, 10⟩ [.java unbalancedFrame]) := by
  have resolves : ∀ frame, Frame.java frame ∈ [Frame.java unbalancedFrame] → Resolves frame := by
    intro frame member
    cases List.mem_singleton.mp member
    intro entry _ _ _ _
    exact ⟨20, rfl⟩
  exact findExceptionFrame_propagates resolves

end PicoJvm.Execution
