import PicoJvm.Monitors.MonitorExits

/-!
# Waiting and notification

A thread that waits leaves its object and stands in the list of the threads that wait for a
notification. A thread that is woken enters the monitor again with the stack lock it left.
-/

namespace PicoJvm.Monitors

open State

variable {state : State} {reals : Nat → JavaNear} {loose : Nat → Nat → Nat → Prop}

/-! ## Schedules -/

/-- One thread is scheduled differently. -/
theorem Resting.putThread
    (resting : Resting state)
    {thread : Nat} {value : JavaThread} {sleeping' : List Nat}
    (mem_iff : thread ∈ sleeping' ↔
      value.isAlive = true ∧ value.isActive = false ∧ value.waitObj = none)
    (others : ∀ thread', thread' ≠ thread → (thread' ∈ sleeping' ↔ thread' ∈ state.sleeping))
    (nodup : sleeping'.Nodup)
    (dead : value.isAlive = false → value.isActive = false ∧ value.frames = []) :
    Resting { state.putThread thread value with sleeping := sleeping' } where
  mem_iff := by
    intro thread'
    by_cases isThread : thread' = thread
    · subst isThread
      simpa using mem_iff
    · simpa [Function.update_of_ne isThread, others thread' isThread] using
        resting.mem_iff thread'
  nodup := nodup
  dead := by
    intro thread' isDead
    by_cases isThread : thread' = thread
    · subst isThread
      simpa using dead (by simpa using isDead)
    · simp only [putThread_threads, Function.update_of_ne isThread] at isDead ⊢
      exact resting.dead thread' isDead

section Schedules

variable {pending : Nat → List Nat}

/-- The flag for interrupts says nothing about the schedule. -/
theorem Invariant.setInterrupt
    (invariant : Invariant reals loose pending state)
    (thread : Nat) (pendingInterrupt : Bool) :
    Invariant reals loose pending
      (state.putThread thread
        { state.threads thread with pendingInterrupt := pendingInterrupt }) := by
  have resting := invariant.resting
  refine invariant.reschedule rfl rfl rfl (fun _ => ⟨rfl, rfl⟩)
    (resting.putThread (resting.mem_iff thread) (fun _ _ => Iff.rfl) resting.nodup ?_)
  exact resting.dead thread

theorem Invariant.sleepCurrentThread
    (invariant : Invariant reals loose pending state)
    {thread : Nat}
    (isActive : (state.threads thread).isActive = true) :
    Invariant reals loose pending (state.sleepCurrentThread thread) := by
  have resting := invariant.resting
  have isAlive := invariant.alive_of_active isActive
  have notWaiting := invariant.waitObj_of_active isActive
  have notSleeping : thread ∉ state.sleeping := by
    rw [resting.mem_iff, isActive]
    simp
  refine invariant.reschedule rfl rfl rfl (fun waits => absurd notWaiting waits)
    (resting.putThread ?_ ?_ ?_ ?_)
  · simp [isAlive, notWaiting]
  · intro thread' other
    simp [removeFromActive, other]
  · rw [List.nodup_append_comm]
    exact List.nodup_cons.mpr ⟨notSleeping, resting.nodup⟩
  · simp [isAlive]

theorem Invariant.start
    (invariant : Invariant reals loose pending state)
    {thread : Nat}
    (isDead : (state.threads thread).isAlive = false) :
    Invariant reals loose pending (state.start thread) := by
  have resting := invariant.resting
  have notWaiting : (state.threads thread).waitObj = none := by
    by_contra waits
    obtain ⟨obj, isObj⟩ := Option.ne_none_iff_exists'.mp waits
    rw [(invariant.waits_of_some isObj).1] at isDead
    cases isDead
  refine invariant.reschedule rfl rfl rfl (fun waits => absurd notWaiting waits)
    (resting.putThread ?_ (fun _ _ => Iff.rfl) resting.nodup ?_)
  · simp [resting.mem_iff, isDead]
  · simp

theorem Invariant.terminate
    (invariant : Invariant reals loose pending state)
    {thread : Nat}
    (isActive : (state.threads thread).isActive = true)
    (noFrame : (state.threads thread).frames = []) :
    Invariant reals loose pending (state.terminate thread) := by
  have resting := invariant.resting
  have notWaiting := invariant.waitObj_of_active isActive
  refine invariant.reschedule rfl rfl rfl (fun waits => absurd notWaiting waits)
    (resting.putThread ?_ (fun _ _ => Iff.rfl) resting.nodup ?_)
  · simp [resting.mem_iff, isActive]
  · simp [noFrame]

/-- A thread that sleeps comes back to an active queue. -/
theorem Invariant.wakeSleeper
    (invariant : Invariant reals loose pending state)
    {thread : Nat}
    (isSleeping : thread ∈ state.sleeping) :
    Invariant reals loose pending
      { state.putThread thread { state.threads thread with isActive := true } with
        sleeping := state.sleeping.erase thread } := by
  have resting := invariant.resting
  obtain ⟨isAlive, _, notWaiting⟩ := (resting.mem_iff thread).mp isSleeping
  refine invariant.reschedule rfl rfl rfl (fun waits => absurd notWaiting waits)
    (resting.putThread ?_ ?_ (resting.nodup.erase thread) ?_)
  · simp [resting.nodup.not_mem_erase]
  · intro thread' other
    exact List.mem_erase_of_ne other
  · simp [isAlive]

end Schedules

/-! ## `wait` -/

theorem Invariant.isLockedBy_iff
    {pending : Nat → List Nat}
    (invariant : Invariant reals loose pending state)
    (obj thread : Nat) :
    state.isLockedBy obj thread = true ↔
      ∃ lock, state.klass obj = .stack lock ∧ (state.locks lock).thread = thread := by
  have isLocked := invariant.isLocked_iff obj
  cases isKlass : state.klass obj with
  | heap near =>
      have notLocked : (state.nearOf obj).isLocked = false := by simpa [isKlass] using isLocked
      simp [isLockedBy, notLocked]
  | stack lock =>
      have isLocked' := isLocked.mpr ⟨lock, isKlass⟩
      simp [isLockedBy, isLocked', fromJavaOop, isKlass]

/-- `exit` of a real stack lock. -/
theorem exit_eq
    {obj lock near : Nat}
    (isOwner : (state.locks lock).owner = some obj)
    (isReal : (state.locks lock).realJavaNear = some near) :
    state.exit lock =
      ((state.clearOwner lock).putKlass obj (.heap near)).signalWaiters lock := by
  rw [State.exit, isOwner, isReal]
  rfl

/-- A thread that has freed its real stack lock does not have the object. -/
theorem Invariant.notHeld_of_frees
    {state' : State} {loose' : Nat → Nat → Nat → Prop}
    (invariant : Invariant reals loose nobody state)
    (invariant' : Invariant reals loose' nobody state')
    {thread obj lock : Nat}
    (isStack : state.klass obj = .stack lock)
    (frees : Frees thread lock state state')
    (lock' : Nat)
    (isStack' : state'.klass obj = .stack lock') :
    (state'.locks lock').thread ≠ thread := by
  intro isThread
  have isLocked := invariant'.locked isStack'
  obtain ⟨near, isReal, _⟩ := isLocked.real
  have isOwner := isLocked.owner
  have inStack : lock' ∈ state.stackLocks thread := by
    rw [← frees.stackLocks_eq, ← isThread]
    exact isLocked.inStack
  have isOther : lock' ≠ lock := by
    rintro rfl
    rw [frees.isFree] at isOwner
    cases isOwner
  rw [frees.sameLocks lock' inStack isOther] at isOwner isReal
  rcases invariant.owned inStack isOwner with isStack'' | ⟨isNone, _⟩
  · rw [isStack] at isStack''
    cases isStack''
    exact isOther rfl
  · rw [isNone] at isReal
    cases isReal

/-- The thread with a free stack lock in the list of those that wait for the object. -/
theorem Invariant.awaitNotification
    {thread obj lock : Nat}
    (invariant : Invariant reals (Loosen loose thread obj lock) nobody state)
    (isActive : (state.threads thread).isActive = true)
    (inStack : lock ∈ state.stackLocks thread)
    (isFree : (state.locks lock).owner = none)
    (notHeld : ∀ lock', state.klass obj = .stack lock' → (state.locks lock').thread ≠ thread) :
    Invariant reals loose nobody
      ((state.setWaitStackLock thread (some lock)).addWaitingThread thread obj) := by
  have attached := invariant.attach isActive inStack isFree notHeld
  have listed : Invariant reals (Loosen loose thread obj lock) nobody
      { state.putThread thread ((state.threads thread).parked obj lock) with
        waiting := Function.update state.waiting obj (state.waiting obj ++ [thread]) } := by
    refine attached.rearrange ?_
    intro obj'
    by_cases isObj : obj' = obj
    · subst isObj
      simp only [nobody, Function.update_self, List.nil_append, putThread_queue, putThread_waiting,
        List.cons_append]
      rw [← List.append_assoc]
      exact List.perm_append_singleton thread _
    · simp [Function.update_of_ne isObj]
  have isState : (state.setWaitStackLock thread (some lock)).addWaitingThread thread obj =
      { state.putThread thread ((state.threads thread).parked obj lock) with
        waiting := Function.update state.waiting obj (state.waiting obj ++ [thread]) } := by
    simp [setWaitStackLock, addWaitingThread, removeFromActive, putWaiting, setWaitObj, putThread,
      JavaThread.parked]
  rw [isState]
  refine listed.settle ?_
  rintro thread' obj' lock' first (isLoose | ⟨rfl, rfl, rfl⟩) _ _ _ _
  · exact Or.inr (Or.inr isLoose)
  · refine Or.inr (Or.inl ?_)
    simp [JavaThread.parked]

theorem Invariant.wait
    (invariant : Invariant reals nowhere nobody state)
    {thread : Nat}
    (obj : Nat)
    (isActive : (state.threads thread).isActive = true) :
    Invariant reals nowhere nobody (state.wait thread obj).2 := by
  rw [State.wait]
  split
  · exact invariant
  · next isLockedBy =>
      split
      · exact invariant.setInterrupt thread false
      · have isHeld : state.isLockedBy obj thread = true := by simpa using isLockedBy
        obtain ⟨lock, isStack, isThread⟩ := (invariant.isLockedBy_iff obj thread).mp isHeld
        have isLocked := invariant.locked isStack
        obtain ⟨near, isReal, _⟩ := isLocked.real
        have isLock : state.fromJavaOop obj = lock := by rw [fromJavaOop, isStack]
        have inStack : lock ∈ state.stackLocks thread := isThread ▸ isLocked.inStack
        have notWaiting := invariant.waitObj_of_active isActive
        have signalled := invariant.freed_signal isStack isReal
        have frees := (invariant.freed_frees isStack isReal inStack notWaiting).1
        rw [← exit_eq isLocked.owner isReal] at signalled frees
        rw [isThread] at signalled
        dsimp only
        rw [isLock]
        refine signalled.awaitNotification ?_ ?_ frees.isFree ?_
        · rw [frees.sameThread, isActive]
        · rw [frees.stackLocks_eq]
          exact inStack
        · exact invariant.notHeld_of_frees signalled isStack frees

/-! ## The end of a wait -/

theorem enter_waiting (state : State) (thread lock : Nat) :
    (state.enter thread lock).waiting = state.waiting := by
  rw [State.enter]
  split
  · rfl
  · dsimp only
    split <;> rfl

/-- The state in which a thread that is notified enters the monitor. -/
def State.notified (state : State) (thread obj : Nat) : State :=
  { state.putThread thread (state.threads thread).woken with
    waiting := Function.update state.waiting obj ((state.waiting obj).erase thread) }

theorem wakeWaiter_eq
    {waker obj lock : Nat}
    (isObj : (state.threads waker).waitObj = some obj)
    (isLock : (state.threads waker).waitStackLock = some lock) :
    (state.removeWaitingThread waker).notifyWakeup waker =
      ((state.notified waker obj).putLock lock
        { state.locks lock with owner := some obj }).enter waker lock := by
  have isObj' : (((state.removeWaitingThread waker).addToActive waker).threads waker).waitObj =
      some obj := by
    simp [removeWaitingThread, isObj, putWaiting, addToActive]
  have isLock' : (((state.removeWaitingThread waker).addToActive waker).threads
      waker).waitStackLock = some lock := by
    simp [removeWaitingThread, isObj, putWaiting, addToActive, isLock]
  simp only [notifyWakeup, isObj', isLock']
  simp [removeWaitingThread, isObj, putWaiting, addToActive, setOwner, setWaitStackLock,
    setWaitObj, putThread, putLock, State.notified, JavaThread.woken]

/-- A thread that is notified is loose until it has entered the monitor. -/
theorem Invariant.notified
    (invariant : Invariant reals nowhere nobody state)
    {waker obj lock : Nat}
    (isWaiting : waker ∈ state.waiting obj)
    (isLock : (state.threads waker).waitStackLock = some lock) :
    Invariant reals (Loosen nowhere waker obj lock) nobody (state.notified waker obj) := by
  have isObj := (invariant.listed.mem_iff waker obj).mp (List.mem_append_right _ isWaiting)
  refine invariant.detach isObj isLock ?_ ?_
  · rw [Function.update_self]
    refine (List.perm_middle.symm.trans ?_)
    exact (List.perm_cons_erase isWaiting).symm.append_left _
  · intro obj' other
    exact ⟨rfl, Function.update_of_ne other _ _⟩

/-- A thread that waits for a notification enters the monitor, or waits for it. -/
theorem Invariant.wakeWaiter
    (invariant : Invariant reals nowhere nobody state)
    {waker obj : Nat}
    (isWaiting : waker ∈ state.waiting obj) :
    Invariant reals nowhere nobody ((state.removeWaitingThread waker).notifyWakeup waker) := by
  have isObj := (invariant.listed.mem_iff waker obj).mp (List.mem_append_right _ isWaiting)
  obtain ⟨_, _, lock, isLock, inStack, isFree⟩ := invariant.waits_of_some isObj
  have isActive : ((state.notified waker obj).threads waker).isActive = true := by
    simp [State.notified, JavaThread.woken]
  rw [wakeWaiter_eq isObj isLock]
  refine (invariant.notified isWaiting isLock).enter isActive ?_ isFree rfl ?_
  · exact (woken_stackLocks waker waker).symm ▸ inStack
  · intro lock' isStack isThread
    have isStack' : state.klass obj = .stack lock' := isStack
    have isThread' : (state.locks lock').thread = waker := isThread
    refine (invariant.locked isStack').notWaiting ?_
    rw [isThread', isObj]

/-- The others still wait when one has been woken. -/
theorem Invariant.stay_waiting
    (invariant : Invariant reals nowhere nobody state)
    {waker obj : Nat} {wakers : List Nat}
    (isWaiting : waker ∈ state.waiting obj)
    (notIn : waker ∉ wakers)
    (areWaiting : ∀ other ∈ wakers, other ∈ state.waiting obj)
    (other : Nat)
    (isNext : other ∈ wakers) :
    other ∈ ((state.removeWaitingThread waker).notifyWakeup waker).waiting obj := by
  have isObj := (invariant.listed.mem_iff waker obj).mp (List.mem_append_right _ isWaiting)
  obtain ⟨_, _, lock, isLock, _⟩ := invariant.waits_of_some isObj
  have isOther : other ≠ waker := by
    rintro rfl
    exact notIn isNext
  rw [wakeWaiter_eq isObj isLock, enter_waiting]
  have stays := (List.mem_erase_of_ne isOther).mpr (areWaiting other isNext)
  simpa [State.notified, putLock] using stays

theorem Invariant.wakeAll
    {obj : Nat}
    (wakers : List Nat)
    (invariant : Invariant reals nowhere nobody state)
    (areWaiting : ∀ waker ∈ wakers, waker ∈ state.waiting obj)
    (nodup : wakers.Nodup) :
    Invariant reals nowhere nobody (state.wakeAll wakers) := by
  induction wakers generalizing state with
  | nil => exact invariant
  | cons waker wakers inductionHypothesis =>
      have isWaiting := areWaiting waker (by simp)
      rw [List.nodup_cons] at nodup
      rw [State.wakeAll]
      refine inductionHypothesis (invariant.wakeWaiter isWaiting) ?_ nodup.2
      exact invariant.stay_waiting isWaiting nodup.1
        (fun other isNext => areWaiting other (List.mem_cons_of_mem _ isNext))

theorem Invariant.notify
    (invariant : Invariant reals nowhere nobody state)
    (thread obj : Nat) (all mustBeOwner : Bool) :
    Invariant reals nowhere nobody (state.notify thread obj all mustBeOwner).2 := by
  have nodup : (state.waiting obj).Nodup :=
    (List.nodup_append.mp (invariant.listed.nodup obj)).2.1
  rw [State.notify]
  split
  · exact invariant
  · cases all with
    | true => exact invariant.wakeAll _ (fun _ isWaiting => isWaiting) nodup
    | false =>
        exact invariant.wakeAll _ (fun _ isFirst => List.mem_of_mem_take isFirst)
          (nodup.sublist (List.take_sublist 1 _))

/-- A thread of the wait queue is woken, whether it waits for an object or sleeps. -/
theorem Invariant.wake
    (invariant : Invariant reals nowhere nobody state)
    {thread : Nat}
    (isWaiting : state.isWaiting thread = true) :
    Invariant reals nowhere nobody ((state.removeWaitingThread thread).notifyWakeup thread) := by
  cases isObj : (state.threads thread).waitObj with
  | some obj =>
      have isWaiting' : thread ∈ state.waiting obj := by
        simpa [State.isWaiting, isObj] using isWaiting
      exact invariant.wakeWaiter isWaiting'
  | none =>
      have isSleeping : thread ∈ state.sleeping := by
        simpa [State.isWaiting, isObj] using isWaiting
      have woken := invariant.wakeSleeper isSleeping
      have isNone : (({ state with sleeping := state.sleeping.erase thread } : State).addToActive
          thread).threads thread = { state.threads thread with isActive := true } := by
        simp [addToActive]
      simp only [removeWaitingThread, isObj, notifyWakeup, isNone]
      exact woken

theorem Invariant.timeOut
    (invariant : Invariant reals nowhere nobody state)
    (thread : Nat) :
    Invariant reals nowhere nobody (state.timeOut thread) := by
  rw [State.timeOut]
  split
  · next isWaiting => exact invariant.wake isWaiting
  · exact invariant

theorem Invariant.interruptThread
    (invariant : Invariant reals nowhere nobody state)
    (thread : Nat) :
    Invariant reals nowhere nobody (state.interruptThread thread) := by
  rw [State.interruptThread]
  split
  · next isWaiting => exact invariant.wake isWaiting
  · exact invariant.setInterrupt thread true

end PicoJvm.Monitors
