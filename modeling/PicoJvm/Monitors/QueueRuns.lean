import PicoJvm.Monitors.MonitorRuns

/-!
# Nobody is overtaken

For each object the virtual machine is a lock with a queue that is served in front. A thread that
waits to lock an object is not overtaken by another one, whatever the threads do.
-/

namespace PicoJvm.Monitors

open PicoJvm.Lib.QueueOrder
open PicoJvm.Lib.Transducer
open State

variable {state : State} {reals : Nat → JavaNear}

/-! ## Leaving monitors -/

section Leaving

variable {thread : Nat}

theorem Invariant.monitorExit_hands
    (invariant : Invariant reals nowhere nobody state)
    (thread obj : Nat) :
    HandsOver thread state (state.monitorExit thread obj).2 := by
  rw [State.monitorExit]
  split
  · exact .refl _ _
  · next lock isFound =>
      obtain ⟨rest, isStack⟩ := stackLocks_eq state thread
      have inStack : lock ∈ state.stackLocks thread := by
        rw [isStack]
        exact List.mem_append_left _ (List.mem_of_find?_eq_some isFound)
      have isOwner : (state.locks lock).owner = some obj := by
        simpa using List.find?_some isFound
      exact invariant.unlockObject_hands inStack isOwner

theorem Invariant.unlockSynchronizedMethod_hands
    (invariant : Invariant reals nowhere nobody state)
    (thread : Nat) :
    HandsOver thread state (state.unlockSynchronizedMethod thread).2 := by
  rw [State.unlockSynchronizedMethod]
  split
  · exact .refl _ _
  · next lock isLast =>
      obtain ⟨rest, isStack⟩ := stackLocks_eq state thread
      have inStack : lock ∈ state.stackLocks thread := by
        rw [isStack]
        exact List.mem_append_left _ (List.mem_of_getLast? isLast)
      split
      · exact .refl _ _
      · next obj isOwner => exact invariant.unlockObject_hands inStack isOwner

theorem Invariant.returnFrame_hands
    (invariant : Invariant reals nowhere nobody state)
    (thread : Nat) :
    HandsOver thread state (state.returnFrame thread).2 := by
  have leave (frame : Frame) (outcome : Outcome) (state' : State)
      (hands : HandsOver thread state state') :
      HandsOver thread state (if outcome = .done then
        if frame.locks.all (fun lock => (state'.locks lock).owner == none) then
          (Outcome.done, state'.popFrame thread)
        else (Outcome.illegalMonitorState, state')
      else (outcome, state')).2 := by
    split
    · split
      · exact hands
      · exact hands
    · exact hands
  rw [State.returnFrame]
  cases state.topFrame thread with
  | none => exact .refl _ _
  | some frame =>
      dsimp only
      split
      · exact .refl _ _
      · split
        · exact leave frame _ _ (invariant.unlockSynchronizedMethod_hands thread)
        · exact leave frame _ _ (.refl _ _)

theorem Invariant.findExceptionFrame_hands
    (turns : List Bool) (stickyException : Bool)
    (invariant : Invariant reals nowhere nobody state)
    (isActive : (state.threads thread).isActive = true) :
    HandsOver thread state (State.findExceptionFrame thread turns stickyException state) := by
  induction turns generalizing state stickyException with
  | nil => exact .refl _ _
  | cons turn turns inductionHypothesis =>
      cases turn with
      | true => exact .refl _ _
      | false =>
          rw [State.findExceptionFrame]
          cases isTop : state.topFrame thread with
          | none => exact .refl _ _
          | some frame =>
              obtain ⟨unlocked, sameThread, areFree, hands⟩ := invariant.unlockFrame isActive isTop
              have isActive' : ((state.unlockFrame frame).2.threads thread).isActive = true := by
                rw [sameThread, isActive]
              dsimp only
              split
              · exact hands.trans (inductionHypothesis true unlocked isActive')
              · have isTop' : (state.unlockFrame frame).2.topFrame thread = some frame := by
                  rw [topFrame, sameThread, ← isTop, topFrame]
                have popped := unlocked.popFrame isActive' isTop' areFree
                refine hands.trans (inductionHypothesis stickyException popped ?_)
                simpa [State.popFrame] using isActive'

theorem Invariant.wait_hands
    (invariant : Invariant reals nowhere nobody state)
    (thread obj : Nat) :
    HandsOver thread state (state.wait thread obj).2 := by
  rw [State.wait]
  split
  · exact .refl _ _
  · next isLockedBy =>
      split
      · exact .refl _ _
      · have isHeld : state.isLockedBy obj thread = true := by simpa using isLockedBy
        obtain ⟨lock, isStack, isThread⟩ := (invariant.isLockedBy_iff obj thread).mp isHeld
        have isLocked := invariant.locked isStack
        obtain ⟨near, isReal, _⟩ := isLocked.real
        have isLock : state.fromJavaOop obj = lock := by rw [fromJavaOop, isStack]
        have hands := invariant.freed_hands isStack isThread isReal
        rw [← exit_eq isLocked.owner isReal] at hands
        dsimp only
        rw [isLock]
        exact hands

end Leaving

/-! ## Entering monitors -/

theorem Invariant.lockNew_joins
    (invariant : Invariant reals nowhere nobody state)
    {thread : Nat}
    (obj : Nat)
    (isActive : (state.threads thread).isActive = true)
    (hasFrame : (state.threads thread).frames ≠ []) :
    Joins thread state
      ((state.allocateMonitor thread).2.lockObject thread obj
        (state.allocateMonitor thread).1) := by
  obtain ⟨frame, frames, isFrames⟩ := List.exists_cons_of_ne_nil hasFrame
  have pushed : (({ frame with locks := state.lockCount :: frame.locks } : Frame) ::
      frames).flatMap Frame.locks = state.lockCount :: state.stackLocks thread := by
    simp [stackLocks, isFrames]
  have extended := invariant.pushLock isActive pushed
  rw [allocateMonitor_eq isFrames]
  exact extended.lockObject_joins obj (invariant.placement.fresh (Nat.le_refl _))

theorem Invariant.monitorEnter_joins
    (invariant : Invariant reals nowhere nobody state)
    {thread : Nat}
    (obj : Nat)
    (isActive : (state.threads thread).isActive = true)
    (hasFrame : (state.threads thread).frames ≠ []) :
    Joins thread state (state.monitorEnter thread obj) := by
  rw [State.monitorEnter]
  split
  · next lock isFound =>
      rcases findFreeSlot_some isFound with isNone | ⟨front, back, isBlock, isFree, _⟩
      · cases isNone
      · exact invariant.lockObject_joins obj isFree
  · exact invariant.lockNew_joins obj isActive hasFrame

theorem Invariant.invoke_joins
    (invariant : Invariant reals nowhere nobody state)
    {thread : Nat}
    (receiver : Option Nat)
    (isActive : (state.threads thread).isActive = true) :
    Joins thread state (state.invoke thread receiver) := by
  have framed : Invariant reals nowhere nobody
      (state.withFrames thread (⟨receiver.isSome, []⟩ :: (state.threads thread).frames)
        state.lockCount) := by
    refine invariant.popLocks [] isActive ?_ (by simp)
    simp [stackLocks]
  cases receiver with
  | none => exact joins_of_eq (fun _ => rfl)
  | some obj =>
      exact framed.lockNew_joins obj (by simpa using isActive) (by simp)

/-! ## The end of a wait -/

theorem Invariant.wakeWaiter_joins
    (invariant : Invariant reals nowhere nobody state)
    {waker obj : Nat}
    (isWaiting : waker ∈ state.waiting obj) :
    Joins waker state ((state.removeWaitingThread waker).notifyWakeup waker) := by
  have isObj := invariant.waitObj_of_notified isWaiting
  obtain ⟨_, _, lock, isLock, _, isFree⟩ := invariant.waits_of_some isObj
  have woken : Invariant reals (Loosen nowhere waker obj lock) nobody
      (state.notified waker obj) :=
    invariant.notified isWaiting isLock
  rw [wakeWaiter_eq isObj isLock]
  exact woken.enter_joins isFree rfl

theorem Invariant.wakeAll_enters
    {obj : Nat} {comes : Nat → Prop}
    (wakers : List Nat)
    (invariant : Invariant reals nowhere nobody state)
    (areWaiting : ∀ waker ∈ wakers, waker ∈ state.waiting obj)
    (nodup : wakers.Nodup)
    (areNew : ∀ waker ∈ wakers, comes waker)
    (obj' : Nat) :
    Enters comes (state.standing obj') ((state.wakeAll wakers).standing obj') := by
  induction wakers generalizing state with
  | nil => exact .same _
  | cons waker wakers inductionHypothesis =>
      have isWaiting := areWaiting waker (by simp)
      rw [List.nodup_cons] at nodup
      rw [State.wakeAll]
      have first := (invariant.wakeWaiter_joins isWaiting obj').mono
        (fun other (isOther : other = waker) => isOther ▸ areNew waker (by simp))
      refine first.trans (inductionHypothesis (invariant.wakeWaiter isWaiting) ?_ nodup.2 ?_)
      · exact invariant.stay_waiting isWaiting nodup.1
          (fun other isNext => areWaiting other (List.mem_cons_of_mem _ isNext))
      · exact fun other isNext => areNew other (List.mem_cons_of_mem _ isNext)

/-! ## Steps -/

/-- The lock of each object after a step of a thread: only threads come that were not queued for
it. -/
def LocksStep (acts : Nat → Prop) (state state' : State) : Prop :=
  ∀ obj, LockStep acts (fun thread => thread ∉ state.queue obj) (state.standing obj)
    (state'.standing obj)

section LocksStep

variable {acts : Nat → Prop} {thread : Nat} {state' : State}

theorem locksStep_of_eq
    (same : ∀ obj, state'.standing obj = state.standing obj) :
    LocksStep acts state state' := by
  intro obj
  rw [same]
  exact .entered (.same _)

theorem locksStep_of_joins
    (notQueued : ∀ obj, thread ∉ state.queue obj)
    (joins : Joins thread state state') :
    LocksStep acts state state' := by
  intro obj
  refine .entered ((joins obj).mono ?_)
  intro other isOther
  rw [isOther]
  exact notQueued obj

theorem locksStep_of_hands
    (isActing : acts thread)
    (hands : HandsOver thread state state') :
    LocksStep acts state state' := by
  intro obj
  rcases hands obj with same | ⟨isHeld, _, isNext⟩
  · rw [same]
    exact .entered (.same _)
  · have isStanding : state.standing obj = (some thread, state.queue obj) :=
      Prod.ext isHeld (standing_queue state obj)
    rw [isStanding, isNext]
    cases state.queue obj with
    | nil => exact .freed isActing
    | cons first rest => exact .handed isActing first rest

end LocksStep

/-- A thread that runs is not queued. -/
theorem Invariant.not_queued_of_active
    (invariant : Invariant reals nowhere nobody state)
    {thread : Nat}
    (isActive : (state.threads thread).isActive = true)
    (obj : Nat) :
    thread ∉ state.queue obj := by
  intro isQueued
  have isWaiting := invariant.waitObj_of_queued isQueued
  rw [invariant.waitObj_of_active isActive] at isWaiting
  cases isWaiting

/-- A thread that waits for a notification is not queued. -/
theorem Invariant.not_queued_of_notified
    (invariant : Invariant reals nowhere nobody state)
    {thread obj : Nat}
    (isWaiting : thread ∈ state.waiting obj)
    (obj' : Nat) :
    thread ∉ state.queue obj' := by
  intro isQueued
  have isObj := invariant.waitObj_of_queued isQueued
  rw [invariant.waitObj_of_notified isWaiting] at isObj
  cases isObj
  exact invariant.not_notified_of_queued isQueued isWaiting

theorem Invariant.wake_locksStep
    (invariant : Invariant reals nowhere nobody state)
    {acts : Nat → Prop} {thread : Nat}
    (isWaiting : state.isWaiting thread = true) :
    LocksStep acts state ((state.removeWaitingThread thread).notifyWakeup thread) := by
  cases isObj : (state.threads thread).waitObj with
  | some obj =>
      have isWaiting' : thread ∈ state.waiting obj := by
        simpa [State.isWaiting, isObj] using isWaiting
      exact locksStep_of_joins (invariant.not_queued_of_notified isWaiting')
        (invariant.wakeWaiter_joins isWaiting')
  | none =>
      have isNone : (({ state with sleeping := state.sleeping.erase thread } : State).addToActive
          thread).threads thread = { state.threads thread with isActive := true } := by
        simp [addToActive]
      simp only [removeWaitingThread, isObj, notifyWakeup, isNone]
      exact locksStep_of_eq (fun _ => rfl)

theorem Invariant.notify_locksStep
    (invariant : Invariant reals nowhere nobody state)
    {acts : Nat → Prop}
    (thread obj : Nat) (all mustBeOwner : Bool) :
    LocksStep acts state (state.notify thread obj all mustBeOwner).2 := by
  have nodup : (state.waiting obj).Nodup :=
    (List.nodup_append.mp (invariant.listed.nodup obj)).2.1
  have areNew (obj' waker : Nat) (isWaiting : waker ∈ state.waiting obj) :
      waker ∉ state.queue obj' :=
    invariant.not_queued_of_notified isWaiting obj'
  rw [State.notify]
  split
  · exact locksStep_of_eq (fun _ => rfl)
  · intro obj'
    cases all with
    | true =>
        exact .entered
          (invariant.wakeAll_enters _ (fun _ isWaiting => isWaiting) nodup (areNew obj') obj')
    | false =>
        have areWaiting (waker : Nat) (isFirst : waker ∈ (state.waiting obj).take 1) :
            waker ∈ state.waiting obj :=
          List.mem_of_mem_take isFirst
        exact .entered
          (invariant.wakeAll_enters _ areWaiting (nodup.sublist (List.take_sublist 1 _))
            (fun waker isFirst => areNew obj' waker (areWaiting waker isFirst)) obj')

/-- A hash code says nothing about the locks. -/
theorem Invariant.standing_giveHash
    (invariant : Invariant reals nowhere nobody state)
    (obj : Nat) (newHash random : BitVec 32) (obj' : Nat) :
    (state.giveHash obj newHash random).2.standing obj' = state.standing obj' := by
  rw [State.giveHash]
  cases isKlass : state.klass obj with
  | heap near =>
      have notLocked : (state.nearOf obj).isLocked = false := by
        simpa [isKlass] using invariant.isLocked_iff obj
      rw [notLocked]
      simp only [Bool.not_false, if_true]
      by_cases isObj : obj' = obj
      · subst isObj
        rw [standing_of_heap isKlass]
        simp [State.standing]
      · rw [standing_putKlass isObj]
        rfl
  | stack lock =>
      rw [(invariant.isLocked_iff obj).mpr ⟨lock, isKlass⟩]
      simp only [Bool.not_true, Bool.false_eq_true, if_false]
      refine standing_eq state rfl ?_
      intro lock' _
      by_cases isLock : lock' = lock
      · simp [fromJavaOop, isKlass, isLock]
      · simp [fromJavaOop, isKlass, Function.update_of_ne isLock]

theorem Invariant.hashCode_locksStep
    (invariant : Invariant reals nowhere nobody state)
    {acts : Nat → Prop}
    (memory : Bool) (obj : Nat) :
    LocksStep acts state (state.hashCode memory obj).2 := by
  refine locksStep_of_eq ?_
  intro obj'
  have given := invariant.standing_giveHash obj (drawHash 2 state.random).1
    (drawHash 2 state.random).2 obj'
  rw [State.hashCode]
  generalize drawHash 2 state.random = drawn at given ⊢
  dsimp only
  split
  · rfl
  · split
    · rfl
    · exact given

theorem Invariant.perform_locksStep
    (invariant : Invariant reals nowhere nobody state)
    {event : Event}
    (isEnabled : state.enabled event = true) :
    LocksStep (fun thread => event.thread = some thread) state (state.perform event).2 := by
  obtain ⟨isActive, isPossible⟩ := Bool.and_eq_true_iff.mp isEnabled
  cases event with
  | monitorEnter thread obj =>
      exact locksStep_of_joins (invariant.not_queued_of_active isActive)
        (invariant.monitorEnter_joins obj isActive (by simpa using isPossible))
  | monitorExit thread obj => exact locksStep_of_hands rfl (invariant.monitorExit_hands thread obj)
  | invoke thread receiver =>
      exact locksStep_of_joins (invariant.not_queued_of_active isActive)
        (invariant.invoke_joins receiver isActive)
  | returnFrame thread => exact locksStep_of_hands rfl (invariant.returnFrame_hands thread)
  | throw thread killing turns =>
      exact locksStep_of_hands rfl (invariant.findExceptionFrame_hands turns killing isActive)
  | hashCode thread obj memory =>
      have stepped : LocksStep (fun other => (Event.hashCode thread obj memory).thread = some other)
          state (state.hashCode memory obj).2 :=
        invariant.hashCode_locksStep memory obj
      rw [State.perform]
      split
      · next isResult => rw [isResult] at stepped; exact stepped
      · next isResult => rw [isResult] at stepped; exact stepped
  | wait thread obj => exact locksStep_of_hands rfl (invariant.wait_hands thread obj)
  | notify thread obj all => exact invariant.notify_locksStep thread obj all true
  | finish thread obj => exact invariant.notify_locksStep thread obj true false
  | sleep thread => exact locksStep_of_eq (fun _ => rfl)
  | interrupt thread other =>
      rw [State.perform, State.interruptThread]
      dsimp only
      split
      · next isWaiting => exact invariant.wake_locksStep isWaiting
      · exact locksStep_of_eq (fun _ => rfl)
  | timeOut thread =>
      rw [State.perform, State.timeOut]
      dsimp only
      split
      · next isWaiting => exact invariant.wake_locksStep isWaiting
      · exact locksStep_of_eq (fun _ => rfl)
  | start thread other => exact locksStep_of_eq (fun _ => rfl)
  | terminate thread => exact locksStep_of_eq (fun _ => rfl)

theorem Invariant.respond_locksStep
    (invariant : Invariant reals nowhere nobody state)
    (event : Event) :
    LocksStep (fun thread => event.thread = some thread) state (state.respond event).2 := by
  rw [State.respond]
  split
  · next isEnabled => exact invariant.perform_locksStep isEnabled
  · exact locksStep_of_eq (fun _ => rfl)

/-! ## Runs -/

/-- Two threads are queued behind the owner, and the first of them gets the object. -/
def twoQueued : List Event :=
  [.invoke 0 (some 5), .start 0 1, .start 0 2, .invoke 1 (some 5), .invoke 2 (some 5)]

theorem twoQueued_meets :
    StepsMeet respond oneNear Meets (twoQueued ++ [.wait 0 5, .notify 1 5 true]) := by
  decide

end PicoJvm.Monitors
