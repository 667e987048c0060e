import PicoJvm.Monitors.QueueChanges

/-!
# Leaving monitors

`monitorexit`, returns and exceptions. A thread that leaves an object with its real stack lock has
left it with all others, since these lie above.
-/

namespace PicoJvm.Monitors

open State

variable {state state' state'' : State} {reals : Nat → JavaNear} {loose : Nat → Nat → Nat → Prop}

/-! ## What unlocking leaves alone -/

/-- The thread and its stack locks are as before, but one of them is free. -/
structure Frees (thread lock : Nat) (state state' : State) : Prop where
  sameThread : state'.threads thread = state.threads thread
  sameLocks : ∀ lock' ∈ state.stackLocks thread, lock' ≠ lock →
    state'.locks lock' = state.locks lock'
  isFree : (state'.locks lock).owner = none

theorem Frees.stackLocks_eq
    {thread lock : Nat}
    (frees : Frees thread lock state state') :
    state'.stackLocks thread = state.stackLocks thread :=
  stackLocks_of_frames (by rw [frees.sameThread])

/-- The thread that is woken is another one. -/
theorem Invariant.signalWaiters_frees
    {obj lock thread : Nat}
    (invariant : Invariant reals loose
      (Function.update nobody obj (state.locks lock).waiters) state)
    (isFree : (state.locks lock).owner = none)
    (inStack : lock ∈ state.stackLocks thread)
    (notWaiting : (state.threads thread).waitObj = none) :
    Frees thread lock state (state.signalWaiters lock) := by
  have others {lock' : Nat} (other : lock' ≠ lock) :
      (state.clearRealJavaNear lock).locks lock' = state.locks lock' := by
    simp [clearRealJavaNear, Function.update_of_ne other]
  have isFree' : ((state.clearRealJavaNear lock).locks lock).owner = none := by
    simpa [clearRealJavaNear] using isFree
  simp only [State.signalWaiters]
  cases isWaiters : (state.locks lock).waiters with
  | nil => exact ⟨rfl, fun lock' _ other => others other, isFree'⟩
  | cons waker nextWaiters =>
      have isWaiting := (invariant.listed.mem_iff waker obj).mp (by simp [isWaiters])
      obtain ⟨_, _, waitLock, isLock, inWaker, _⟩ := invariant.waits_of_some isWaiting
      have notWaker : thread ≠ waker := by
        rintro rfl
        rw [notWaiting] at isWaiting
        cases isWaiting
      have notWaitLock {lock' : Nat} (inStack' : lock' ∈ state.stackLocks thread) :
          lock' ≠ waitLock := by
        rintro rfl
        exact notWaker (invariant.placement.apart inStack' inWaker)
      have isWaiting' : (((state.clearRealJavaNear lock).addToActive waker).threads
          waker).waitObj = some obj := by
        simpa [addToActive, clearRealJavaNear] using isWaiting
      have isLock' : (((state.clearRealJavaNear lock).addToActive waker).threads
          waker).waitStackLock = some waitLock := by
        simpa [addToActive, clearRealJavaNear] using isLock
      simp only [isWaiting', isLock']
      rw [clear_wait]
      constructor
      · split <;>
          simp [State.lock, setWaiters, clearRealJavaNear, Function.update_of_ne notWaker]
      · intro lock' inStack' other
        have other' := notWaitLock inStack'
        rw [← others other]
        split <;> simp [State.lock, setWaiters, Function.update_of_ne other']
      · have other' := notWaitLock inStack
        split <;> simpa [State.lock, setWaiters, Function.update_of_ne other'] using isFree'

theorem Invariant.freed_frees
    (invariant : Invariant reals loose nobody state)
    {obj lock near thread : Nat}
    (isStack : state.klass obj = .stack lock)
    (isReal : (state.locks lock).realJavaNear = some near)
    (inStack : lock ∈ state.stackLocks thread)
    (notWaiting : (state.threads thread).waitObj = none) :
    Frees thread lock state
        (((state.clearOwner lock).putKlass obj (.heap near)).signalWaiters lock) ∧
      Frees thread lock state ((state.clearOwner lock).putKlass obj (.heap near)) := by
  have freed := invariant.freed isStack isReal
  have sameWaiters : (((state.clearOwner lock).putKlass obj (.heap near)).locks lock).waiters =
      (state.locks lock).waiters := by
    simp [clearOwner]
  rw [← sameWaiters] at freed
  have frees := freed.signalWaiters_frees (by simp [clearOwner])
    (by simpa [clearOwner] using inStack)
    notWaiting
  have others {lock' : Nat} (other : lock' ≠ lock) :
      ((state.clearOwner lock).putKlass obj (.heap near)).locks lock' = state.locks lock' := by
    simp [clearOwner, Function.update_of_ne other]
  refine ⟨⟨frees.sameThread, ?_, frees.isFree⟩, rfl, fun lock' _ other => others other, ?_⟩
  · intro lock' inStack' other
    rw [frees.sameLocks lock' (by simpa [clearOwner] using inStack') other, others other]
  · simp [clearOwner]

theorem Invariant.unlockStackLock_frees
    (invariant : Invariant reals loose nobody state)
    {thread obj lock : Nat}
    (inStack : lock ∈ state.stackLocks thread)
    (isOwner : (state.locks lock).owner = some obj)
    (notWaiting : (state.threads thread).waitObj = none) :
    Frees thread lock state (state.unlockStackLock lock) := by
  simp only [State.unlockStackLock, isOwner]
  rcases invariant.real_or inStack isOwner with ⟨isStack, _, near, isReal⟩ | ⟨_, isNone⟩
  · rw [isReal]
    exact (invariant.freed_frees isStack isReal inStack notWaiting).1
  · rw [isNone]
    refine ⟨rfl, ?_, by simp [clearOwner]⟩
    intro lock' _ other
    simp [clearOwner, Function.update_of_ne other]

theorem Invariant.unlockObject_frees
    (invariant : Invariant reals loose nobody state)
    {thread obj lock : Nat}
    (inStack : lock ∈ state.stackLocks thread)
    (isOwner : (state.locks lock).owner = some obj)
    (notWaiting : (state.threads thread).waitObj = none) :
    Frees thread lock state (state.unlockObject obj lock) := by
  simp only [State.unlockObject]
  rcases invariant.real_or inStack isOwner with ⟨isStack, _, near, isReal⟩ | ⟨_, isNone⟩
  · rw [isReal]
    have frees := invariant.freed_frees isStack isReal inStack notWaiting
    simp only
    split
    · exact frees.2
    · exact frees.1
  · rw [isNone]
    refine ⟨rfl, ?_, by simp [clearOwner]⟩
    intro lock' _ other
    simp [clearOwner, Function.update_of_ne other]

/-! ## The stack locks above one -/

/-- What lies above a stack lock lies in front of it. -/
theorem mem_of_above
    {block rest : List Nat} {lock first : Nat}
    (nodup : (block ++ rest).Nodup)
    (inBlock : first ∈ block)
    (isAbove : [lock, first].Sublist (block ++ rest)) :
    lock ∈ block := by
  by_contra notIn
  have inRest : first ∈ rest := (sublist_of_append isAbove notIn).subset (by simp)
  exact (List.disjoint_of_nodup_append nodup) inBlock inRest

theorem mem_front_of_above
    {front back : List Nat} {lock first : Nat}
    (nodup : (front ++ first :: back).Nodup)
    (isAbove : [lock, first].Sublist (front ++ first :: back)) :
    lock ∈ front := by
  have other : lock ≠ first := by
    have distinct := nodup.sublist isAbove
    simpa using distinct
  rw [List.append_cons] at nodup isAbove
  have inFront := mem_of_above nodup (by simp) isAbove
  simpa [other] using inFront

/-- No stack lock for the object lies above one that the thread frees. -/
theorem Invariant.settle_freed
    {thread obj lock : Nat} {front back : List Nat}
    (invariant : Invariant reals (Loosen nowhere thread obj lock) nobody state')
    (nodup : (state.stackLocks thread).Nodup)
    (frees : Frees thread lock state state')
    (isSplit : state.stackLocks thread = front ++ lock :: back)
    (others : ∀ slot ∈ front, (state.locks slot).owner ≠ some obj) :
    Invariant reals nowhere nobody state' := by
  refine invariant.settle ?_
  rintro thread' obj' lock' first (isLoose | ⟨rfl, rfl, rfl⟩) inStack isOwner _ isAbove
  · exact isLoose.elim
  · rw [frees.stackLocks_eq] at inStack isAbove
    rw [isSplit] at isAbove nodup
    have inFront := mem_front_of_above nodup isAbove
    have isOther : lock' ≠ first := by
      rintro rfl
      rw [frees.isFree] at isOwner
      cases isOwner
    rw [frees.sameLocks lock' inStack isOther] at isOwner
    exact absurd isOwner (others lock' inFront)

/-! ## `monitorexit` -/

theorem Invariant.monitorExit
    (invariant : Invariant reals nowhere nobody state)
    {thread : Nat}
    (obj : Nat)
    (isActive : (state.threads thread).isActive = true) :
    Invariant reals nowhere nobody (state.monitorExit thread obj).2 := by
  rw [State.monitorExit]
  split
  · exact invariant
  · next lock isFound =>
      obtain ⟨isOwner, front, back, isBlock, others⟩ := List.find?_eq_some_iff_append.mp isFound
      obtain ⟨rest, isStack⟩ := stackLocks_eq state thread
      have isSplit : state.stackLocks thread = front ++ lock :: (back ++ rest) := by
        rw [isStack, isBlock, List.append_assoc, List.cons_append]
      have inStack : lock ∈ state.stackLocks thread := by simp [isSplit]
      have isOwner' : (state.locks lock).owner = some obj := by simpa using isOwner
      have notWaiting := invariant.waitObj_of_active isActive
      have frees := invariant.unlockObject_frees inStack isOwner' notWaiting
      refine (invariant.unlockObject inStack isOwner').settle_freed
        (invariant.placement.nodup thread) frees isSplit ?_
      intro slot inFront
      simpa using others slot inFront

/-! ## Returns -/

/-- A synchronized method that is left has no other stack lock of its frame for its object. -/
def Structured (state : State) (thread : Nat) : Prop :=
  ∀ frame ∈ state.topFrame thread, frame.isSynchronized = true →
    ∀ lock ∈ frame.locks.getLast?, ∀ obj ∈ (state.locks lock).owner,
      ∀ slot ∈ frame.locks.dropLast, (state.locks slot).owner ≠ some obj

instance (state : State) (thread : Nat) : Decidable (Structured state thread) :=
  inferInstanceAs (Decidable (∀ frame ∈ state.topFrame thread, frame.isSynchronized = true →
    ∀ lock ∈ frame.locks.getLast?, ∀ obj ∈ (state.locks lock).owner,
      ∀ slot ∈ frame.locks.dropLast, (state.locks slot).owner ≠ some obj))

theorem frames_of_topFrame
    {thread : Nat} {frame : Frame}
    (isTop : state.topFrame thread = some frame) :
    (state.threads thread).frames = frame :: (state.threads thread).frames.tail := by
  rw [topFrame] at isTop
  exact (List.cons_head?_tail isTop).symm

theorem stackLocks_of_topFrame
    {thread : Nat} {frame : Frame}
    (isTop : state.topFrame thread = some frame) :
    state.stackLocks thread =
      frame.locks ++ (state.threads thread).frames.tail.flatMap Frame.locks := by
  rw [stackLocks, frames_of_topFrame isTop]
  simp

/-- A frame is removed when its stack locks are free. -/
theorem Invariant.popFrame
    (invariant : Invariant reals loose nobody state)
    {thread : Nat} {frame : Frame}
    (isActive : (state.threads thread).isActive = true)
    (isTop : state.topFrame thread = some frame)
    (areFree : ∀ lock ∈ frame.locks, (state.locks lock).owner = none) :
    Invariant reals loose nobody (state.popFrame thread) :=
  invariant.popLocks frame.locks isActive (stackLocks_of_topFrame isTop) areFree

theorem Invariant.unlockSynchronizedMethod
    (invariant : Invariant reals nowhere nobody state)
    {thread : Nat} {frame : Frame}
    (isActive : (state.threads thread).isActive = true)
    (isTop : state.topFrame thread = some frame)
    (isSynchronized : frame.isSynchronized = true)
    (structured : Structured state thread) :
    Invariant reals nowhere nobody (state.unlockSynchronizedMethod thread).2 ∧
      (state.unlockSynchronizedMethod thread).2.threads thread = state.threads thread := by
  have isBlock : state.monitorBlock thread = frame.locks := by rw [monitorBlock, isTop]
  rw [State.unlockSynchronizedMethod, isBlock]
  cases isLast : frame.locks.getLast? with
  | none => exact ⟨invariant, rfl⟩
  | some lock =>
      cases isOwner : (state.locks lock).owner with
      | none => simpa [isOwner] using invariant
      | some obj =>
          have isLocks : frame.locks = frame.locks.dropLast ++ [lock] :=
            (List.dropLast_append_getLast? lock (by rw [isLast]; rfl)).symm
          have isSplit : state.stackLocks thread = frame.locks.dropLast ++
              lock :: (state.threads thread).frames.tail.flatMap Frame.locks := by
            rw [stackLocks_of_topFrame isTop, List.append_cons, ← isLocks]
          have inStack : lock ∈ state.stackLocks thread := by simp [isSplit]
          have frees := invariant.unlockObject_frees inStack isOwner
            (invariant.waitObj_of_active isActive)
          have settled := (invariant.unlockObject inStack isOwner).settle_freed
            (invariant.placement.nodup thread) frees isSplit
            (structured frame isTop isSynchronized lock isLast obj isOwner)
          simp only [isOwner]
          exact ⟨settled, frees.sameThread⟩

theorem Invariant.returnFrame
    (invariant : Invariant reals nowhere nobody state)
    {thread : Nat}
    (isActive : (state.threads thread).isActive = true)
    (structured : Structured state thread) :
    Invariant reals nowhere nobody (state.returnFrame thread).2 := by
  rw [State.returnFrame]
  cases isTop : state.topFrame thread with
  | none => exact invariant
  | some frame =>
      -- what is left once a synchronized method has unlocked its object
      have leave (outcome : Outcome) (state' : State)
          (invariant' : Invariant reals nowhere nobody state')
          (sameThread : state'.threads thread = state.threads thread) :
          Invariant reals nowhere nobody
            (if outcome = .done then
              if frame.locks.all (fun lock => (state'.locks lock).owner == none) then
                (Outcome.done, state'.popFrame thread)
              else (Outcome.illegalMonitorState, state')
            else (outcome, state')).2 := by
        split
        · split
          · next areFree =>
              have isTop' : state'.topFrame thread = some frame := by
                rw [topFrame, sameThread, ← isTop, topFrame]
              refine invariant'.popFrame (by rw [sameThread, isActive]) isTop' ?_
              simpa using areFree
          · exact invariant'
        · exact invariant'
      dsimp only
      split
      · next isEmpty =>
          refine invariant.popFrame isActive isTop ?_
          simp [List.isEmpty_iff.mp isEmpty]
      · split
        · next isSynchronized =>
            have unlocked := invariant.unlockSynchronizedMethod isActive isTop isSynchronized
              structured
            exact leave _ _ unlocked.1 unlocked.2
        · exact leave _ _ invariant rfl

/-! ## Exceptions -/

/-- The stack locks of a block may lie below others of their thread. -/
def Within (thread : Nat) (block : List Nat) : Nat → Nat → Nat → Prop :=
  fun thread' _ lock => thread' = thread ∧ lock ∈ block

/-- The thread is as before, and of a block of its stack locks those are free that were, and some
more. -/
structure Swept (reals : Nat → JavaNear) (thread : Nat) (block slots : List Nat)
    (state state' : State) : Prop where
  invariant : Invariant reals (Within thread block) nobody state'
  sameThread : state'.threads thread = state.threads thread
  areFree : ∀ slot ∈ block, slot ∈ slots ∨ (state.locks slot).owner = none →
    (state'.locks slot).owner = none
  hands : HandsOver thread state state'

theorem Swept.trans
    {thread : Nat} {block slots slots' : List Nat}
    (swept : Swept reals thread block slots state state')
    (swept' : Swept reals thread block slots' state' state'') :
    Swept reals thread block (slots ++ slots') state state'' where
  invariant := swept'.invariant
  sameThread := swept'.sameThread.trans swept.sameThread
  areFree := by
    intro slot inBlock isSlot
    rw [List.mem_append, or_right_comm] at isSlot
    refine swept'.areFree slot inBlock ?_
    rcases isSlot with isSlot | isSlot
    · exact Or.inr (swept.areFree slot inBlock isSlot)
    · exact Or.inl isSlot
  hands := swept.hands.trans swept'.hands

section Sweeps

variable {thread : Nat} {block : List Nat}

theorem Invariant.swept
    (invariant : Invariant reals (Within thread block) nobody state) :
    Swept reals thread block [] state state :=
  ⟨invariant, rfl, fun _ _ isSlot => isSlot.resolve_left (by simp), .refl _ _⟩

theorem Invariant.sweep
    (invariant : Invariant reals (Within thread block) nobody state)
    (inStack : ∀ slot ∈ block, slot ∈ state.stackLocks thread)
    (notWaiting : (state.threads thread).waitObj = none)
    {slot : Nat}
    (inBlock : slot ∈ block)
    (isLocked : (state.locks slot).owner ≠ none) :
    Swept reals thread block [slot] state (state.unlockStackLock slot) := by
  obtain ⟨obj, isOwner⟩ := Option.ne_none_iff_exists'.mp isLocked
  have frees := invariant.unlockStackLock_frees (inStack slot inBlock) isOwner notWaiting
  refine ⟨?_, frees.sameThread, ?_,
    invariant.unlockStackLock_hands (inStack slot inBlock) isOwner⟩
  · refine (invariant.unlockStackLock (inStack slot inBlock) isOwner).settle ?_
    rintro thread' obj' lock' first (isLoose | ⟨rfl, rfl, rfl⟩) _ _ _ _
    · exact Or.inr (Or.inr isLoose)
    · exact Or.inr (Or.inr ⟨rfl, inBlock⟩)
  · intro slot' inBlock' isSlot
    by_cases isSame : slot' = slot
    · rw [isSame, frees.isFree]
    · rw [frees.sameLocks slot' (inStack slot' inBlock') isSame]
      exact isSlot.resolve_left (by simpa using isSame)

theorem Invariant.unlockSlots
    (slots : List Nat)
    {result : Bool × State}
    (invariant : Invariant reals (Within thread block) nobody result.2)
    (inStack : ∀ slot ∈ block, slot ∈ result.2.stackLocks thread)
    (notWaiting : (result.2.threads thread).waitObj = none)
    (inBlock : ∀ slot ∈ slots, slot ∈ block) :
    Swept reals thread block slots result.2 (slots.foldl unlockSlot result).2 := by
  induction slots generalizing result with
  | nil => exact invariant.swept
  | cons slot slots inductionHypothesis =>
      have first : Swept reals thread block [slot] result.2 (unlockSlot result slot).2 := by
        rw [unlockSlot]
        split
        · next isFree =>
            refine ⟨invariant, rfl, ?_, .refl _ _⟩
            rintro slot' _ (isSlot | isFree')
            · rw [List.mem_singleton.mp isSlot, isFree]
            · exact isFree'
        · next isLocked =>
            exact invariant.sweep inStack notWaiting (inBlock slot (by simp)) isLocked
      have sameLocks := stackLocks_of_frames (congrArg JavaThread.frames first.sameThread)
      refine first.trans (inductionHypothesis first.invariant ?_ ?_ ?_)
      · intro slot' inBlock'
        rw [sameLocks]
        exact inStack slot' inBlock'
      · rw [first.sameThread]
        exact notWaiting
      · intro slot' isSlot
        exact inBlock slot' (List.mem_cons_of_mem _ isSlot)

end Sweeps

/-- An exception frees the stack locks of a frame. -/
theorem Invariant.unlockFrame
    (invariant : Invariant reals nowhere nobody state)
    {thread : Nat} {frame : Frame}
    (isActive : (state.threads thread).isActive = true)
    (isTop : state.topFrame thread = some frame) :
    Invariant reals nowhere nobody (state.unlockFrame frame).2 ∧
      (state.unlockFrame frame).2.threads thread = state.threads thread ∧
      (∀ lock ∈ frame.locks, ((state.unlockFrame frame).2.locks lock).owner = none) ∧
      HandsOver thread state (state.unlockFrame frame).2 := by
  have isStack := stackLocks_of_topFrame isTop
  have inStack (slot : Nat) (inBlock : slot ∈ frame.locks) : slot ∈ state.stackLocks thread := by
    rw [isStack]
    exact List.mem_append_left _ inBlock
  have notWaiting := invariant.waitObj_of_active isActive
  have widened : Invariant reals (Within thread frame.locks) nobody state :=
    invariant.settle (fun _ _ _ _ isLoose => isLoose.elim)
  have rest (result : Bool × State) (slots : List Nat)
      (before : Swept reals thread frame.locks slots state result.2) :
      Swept reals thread frame.locks (slots ++ frame.locks.reverse) state
        (frame.locks.reverse.foldl unlockSlot result).2 := by
    have sameLocks := stackLocks_of_frames (congrArg JavaThread.frames before.sameThread)
    refine before.trans (before.invariant.unlockSlots _ ?_ ?_ ?_)
    · rw [sameLocks]
      exact inStack
    · rw [before.sameThread]
      exact notWaiting
    · simp
  have swept : ∃ slots, Swept reals thread frame.locks (slots ++ frame.locks.reverse) state
      (state.unlockFrame frame).2 := by
    rw [State.unlockFrame]
    split
    · split
      · exact ⟨[], rest _ [] widened.swept⟩
      · next lock isLast =>
          split
          · exact ⟨[], rest _ [] widened.swept⟩
          · next isLocked =>
              have inBlock := List.mem_of_getLast? isLast
              exact ⟨[lock], rest _ [lock] (widened.sweep inStack notWaiting inBlock isLocked)⟩
    · exact ⟨[], rest _ [] widened.swept⟩
  obtain ⟨slots, swept⟩ := swept
  have areFree (lock : Nat) (inBlock : lock ∈ frame.locks) :
      ((state.unlockFrame frame).2.locks lock).owner = none :=
    swept.areFree lock inBlock (Or.inl (by simp [inBlock]))
  refine ⟨?_, swept.sameThread, areFree, swept.hands⟩
  refine swept.invariant.settle ?_
  rintro thread' obj lock first ⟨rfl, inBlock⟩ _ isOwner _ isAbove
  -- a stack lock above one of the frame lies in the frame, so it is free
  rw [stackLocks_of_frames (congrArg JavaThread.frames swept.sameThread), isStack] at isAbove
  have nodup := invariant.placement.nodup thread'
  rw [isStack] at nodup
  rw [areFree lock (mem_of_above nodup inBlock isAbove)] at isOwner
  cases isOwner

theorem Invariant.findExceptionFrame
    {thread : Nat}
    (turns : List Bool) (stickyException : Bool)
    (invariant : Invariant reals nowhere nobody state)
    (isActive : (state.threads thread).isActive = true) :
    Invariant reals nowhere nobody
      (State.findExceptionFrame thread turns stickyException state) := by
  induction turns generalizing state stickyException with
  | nil => exact invariant
  | cons turn turns inductionHypothesis =>
      cases turn with
      | true => exact invariant
      | false =>
          rw [State.findExceptionFrame]
          cases isTop : state.topFrame thread with
          | none => exact invariant
          | some frame =>
              obtain ⟨unlocked, sameThread, areFree, _⟩ := invariant.unlockFrame isActive isTop
              have isActive' : ((state.unlockFrame frame).2.threads thread).isActive = true := by
                rw [sameThread, isActive]
              dsimp only
              split
              · exact inductionHypothesis true unlocked isActive'
              · refine inductionHypothesis stickyException ?_ ?_
                · refine unlocked.popFrame isActive' ?_ areFree
                  rw [topFrame, sameThread, ← isTop, topFrame]
                · simpa [State.popFrame] using isActive'

end PicoJvm.Monitors
