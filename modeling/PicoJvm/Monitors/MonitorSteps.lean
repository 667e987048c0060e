import PicoJvm.Monitors.FrameChanges

/-!
# The calls keep the invariant

Each call is one of the changes of the invariant, or some of them after each other.
-/

namespace PicoJvm.Monitors

open State

variable {state : State} {reals : Nat → JavaNear} {loose : Nat → Nat → Nat → Prop}

/-! ## Locking an object -/

theorem lock_eq
    {obj near : Nat}
    (isHeap : state.klass obj = .heap near)
    (lock thread : Nat) :
    state.lock lock thread obj =
      (state.putLock lock
        ⟨thread, some near, [], (state.nears near).setLock lockedValue, some obj⟩).putKlass obj
          (.stack lock) := by
  simp [State.lock, fromJavaOop, nearOf, isHeap]

/-- Looseness at the stack lock that an object points at is of no use. -/
theorem Invariant.settle_locked
    {pending : Nat → List Nat} {thread obj lock : Nat}
    (invariant : Invariant reals (Loosen loose thread obj lock) pending state)
    (isStack : state.klass obj = .stack lock)
    (isThread : (state.locks lock).thread = thread) :
    Invariant reals loose pending state := by
  refine invariant.settle ?_
  rintro thread' obj' lock' first (isLoose | ⟨rfl, rfl, rfl⟩) _ _ _ _
  · exact Or.inr (Or.inr isLoose)
  · exact Or.inl ⟨isStack, isThread⟩

theorem update_nobody (obj : Nat) : Function.update nobody obj [] = nobody := by
  funext obj'
  simp [Function.update_apply, nobody]

/-- An active thread locks an object that is not locked. -/
theorem Invariant.lock
    {pending : Nat → List Nat} {thread obj lock near : Nat}
    (invariant : Invariant reals (Loosen loose thread obj lock) pending state)
    (isHeap : state.klass obj = .heap near)
    (inStack : lock ∈ state.stackLocks thread)
    (isFree : (state.locks lock).owner = none)
    (notWaiting : (state.threads thread).waitObj = none) :
    Invariant reals loose pending (state.lock lock thread obj) := by
  have taken := invariant.take isHeap inStack isFree notWaiting
  rw [← lock_eq isHeap] at taken
  refine taken.settle_locked ?_ ?_
  · simp [State.lock]
  · simp [State.lock]

@[simp] theorem woken_stackLocks (thread thread' : Nat) :
    (state.putThread thread (state.threads thread).woken).stackLocks thread' =
      state.stackLocks thread' := by
  refine stackLocks_of_frames (frames_putThread ?_ thread')
  rfl

/-- The fields of a thread that is woken may be set before or after the object is locked. -/
theorem clear_wait
    {obj waitLock waker : Nat} (nextWaiters : List Nat) :
    (((if nextWaiters.isEmpty then (state.addToActive waker).lock waitLock waker obj
        else ((state.addToActive waker).lock waitLock waker obj).setWaiters waitLock
          nextWaiters).setWaitStackLock waker none).setWaitObj waker none) =
      if nextWaiters.isEmpty then
        (state.putThread waker (state.threads waker).woken).lock waitLock waker obj
      else ((state.putThread waker (state.threads waker).woken).lock waitLock waker obj).setWaiters
        waitLock nextWaiters := by
  have threads (state' : State) (same : state'.threads =
      Function.update state.threads waker { state.threads waker with isActive := true }) :
      (state'.setWaitStackLock waker none).setWaitObj waker none =
        { state' with
          threads := Function.update state.threads waker (state.threads waker).woken } := by
    simp [setWaitStackLock, setWaitObj, putThread, same, JavaThread.woken]
  split
  · rw [threads _ rfl]
    rfl
  · rw [threads _ rfl]
    rfl

/-- The first of the threads that are pending locks the object, and the others are queued. -/
theorem Invariant.signalWaiters
    {obj near lock : Nat}
    (invariant : Invariant reals loose
      (Function.update nobody obj (state.locks lock).waiters) state)
    (isHeap : state.klass obj = .heap near)
    (isFree : (state.locks lock).owner = none) :
    Invariant reals loose nobody (state.signalWaiters lock) := by
  have notReal := invariant.klass_ne_of_free isFree
  have cleared : Invariant reals loose (Function.update nobody obj (state.locks lock).waiters)
      (state.clearRealJavaNear lock) :=
    invariant.free notReal isFree
  simp only [State.signalWaiters]
  cases isWaiters : (state.locks lock).waiters with
  | nil =>
      rw [isWaiters, update_nobody] at cleared
      exact cleared
  | cons waker nextWaiters =>
      rw [isWaiters] at cleared
      generalize isState : state.clearRealJavaNear lock = state' at cleared ⊢
      have isHeap' : state'.klass obj = .heap near := by
        rw [← isState]
        exact isHeap
      have isListed : waker ∈ Function.update nobody obj (waker :: nextWaiters) obj ++
          state'.queue obj ++ state'.waiting obj := by
        simp
      have isWaiting := (cleared.listed.mem_iff waker obj).mp isListed
      obtain ⟨_, _, waitLock, isLock, inStack, isFree'⟩ := cleared.waits_of_some isWaiting
      have woken : Invariant reals (Loosen loose waker obj waitLock)
          (Function.update nobody obj nextWaiters)
          (state'.putThread waker (state'.threads waker).woken) := by
        refine cleared.detach isWaiting isLock ?_ ?_
        · simp
        · intro obj' other
          simp [Function.update_of_ne other]
      have locked := woken.lock isHeap' (by simpa using inStack) isFree'
        (by simp [JavaThread.woken])
      have isWaiting' : ((state'.addToActive waker).threads waker).waitObj = some obj := by
        simpa [addToActive] using isWaiting
      have isLock' : ((state'.addToActive waker).threads waker).waitStackLock = some waitLock := by
        simpa [addToActive] using isLock
      simp only [isWaiting', isLock']
      rw [clear_wait]
      cases nextWaiters with
      | nil =>
          rw [update_nobody] at locked
          exact locked
      | cons next others =>
          have isStack : ((state'.putThread waker (state'.threads waker).woken).lock waitLock
              waker obj).klass obj = .stack waitLock := by
            simp [State.lock]
          have queued := locked.queueUp isStack (by simp)
          rw [Function.update_self, Function.update_idem, update_nobody] at queued
          simpa [State.lock] using queued

/-! ## Unlocking an object -/

/-- The object of a real stack lock is unlocked, and the threads of its queue are pending. -/
theorem Invariant.freed
    (invariant : Invariant reals loose nobody state)
    {obj lock near : Nat}
    (isStack : state.klass obj = .stack lock)
    (isReal : (state.locks lock).realJavaNear = some near) :
    Invariant reals (Loosen loose (state.locks lock).thread obj lock)
      (Function.update nobody obj (state.locks lock).waiters)
      ((state.clearOwner lock).putKlass obj (.heap near)) := by
  have released : Invariant reals (Loosen loose (state.locks lock).thread obj lock)
      (Function.update nobody obj (nobody obj ++ (state.locks lock).waiters))
      ((state.clearOwner lock).putKlass obj (.heap near)) :=
    invariant.release isStack isReal rfl
  have lists : nobody obj ++ (state.locks lock).waiters = (state.locks lock).waiters := by
    simp [nobody]
  rw [lists] at released
  exact released

theorem Invariant.freed_signal
    (invariant : Invariant reals loose nobody state)
    {obj lock near : Nat}
    (isStack : state.klass obj = .stack lock)
    (isReal : (state.locks lock).realJavaNear = some near) :
    Invariant reals (Loosen loose (state.locks lock).thread obj lock) nobody
      (((state.clearOwner lock).putKlass obj (.heap near)).signalWaiters lock) := by
  have freed := invariant.freed isStack isReal
  have sameWaiters : (((state.clearOwner lock).putKlass obj (.heap near)).locks lock).waiters =
      (state.locks lock).waiters := by
    simp [clearOwner]
  have isHeap : ((state.clearOwner lock).putKlass obj (.heap near)).klass obj = .heap near := by
    simp
  rw [← sameWaiters] at freed
  exact freed.signalWaiters isHeap (by simp [clearOwner])

/-- Whether a stack lock is real is seen from its near. -/
theorem Invariant.real_or
    (invariant : Invariant reals loose nobody state)
    {thread obj lock : Nat}
    (inStack : lock ∈ state.stackLocks thread)
    (isOwner : (state.locks lock).owner = some obj) :
    (state.klass obj = .stack lock ∧ (state.locks lock).thread = thread ∧
        ∃ near, (state.locks lock).realJavaNear = some near) ∨
      ((∀ obj', state.klass obj' ≠ .stack lock) ∧ (state.locks lock).realJavaNear = none) := by
  rcases invariant.owned inStack isOwner with isStack | ⟨isNone, _⟩
  · have isLocked := invariant.locked isStack
    obtain ⟨near, isReal, _⟩ := isLocked.real
    exact Or.inl ⟨isStack, invariant.placement.apart isLocked.inStack inStack, near, isReal⟩
  · refine Or.inr ⟨?_, isNone⟩
    intro obj' isStack
    obtain ⟨near, isReal, _⟩ := (invariant.locked isStack).real
    rw [isNone] at isReal
    cases isReal

theorem Invariant.loosen
    (invariant : Invariant reals loose nobody state)
    {thread obj lock : Nat} :
    Invariant reals (Loosen loose thread obj lock) nobody state := by
  refine invariant.settle ?_
  intro thread' obj' lock' first isLoose _ _ _ _
  exact Or.inr (Or.inr (Or.inl isLoose))

/-- A stack lock is unlocked, whether it is real or not. -/
theorem Invariant.unlockStackLock
    (invariant : Invariant reals loose nobody state)
    {thread obj lock : Nat}
    (inStack : lock ∈ state.stackLocks thread)
    (isOwner : (state.locks lock).owner = some obj) :
    Invariant reals (Loosen loose thread obj lock) nobody (state.unlockStackLock lock) := by
  simp only [State.unlockStackLock, isOwner]
  rcases invariant.real_or inStack isOwner with
    ⟨isStack, isThread, near, isReal⟩ | ⟨notReal, isNone⟩
  · rw [isReal]
    have signalled := invariant.freed_signal isStack isReal
    rw [isThread] at signalled
    exact signalled
  · rw [isNone]
    have freed : Invariant reals loose nobody (state.clearOwner lock) := invariant.free notReal rfl
    exact freed.loosen

/-- The bit for waiters tells whether there are some. -/
theorem Invariant.waiters_bit
    (invariant : Invariant reals loose nobody state)
    {obj lock : Nat}
    (isStack : state.klass obj = .stack lock) :
    (state.locks lock).near.value &&& 0x2 = 0 ↔ (state.locks lock).waiters = [] := by
  obtain ⟨near, _, _, isNear⟩ := (invariant.locked isStack).real
  rw [isNear, JavaNear.bits_setLock _ (by decide), lockWord]
  cases (state.locks lock).waiters with
  | nil => simp [lockedValue]
  | cons waiter waiters => simp [waitersValue]

/-- The interpreter calls the runtime only when there are waiters. -/
theorem Invariant.unlockObject
    (invariant : Invariant reals loose nobody state)
    {thread obj lock : Nat}
    (inStack : lock ∈ state.stackLocks thread)
    (isOwner : (state.locks lock).owner = some obj) :
    Invariant reals (Loosen loose thread obj lock) nobody (state.unlockObject obj lock) := by
  simp only [State.unlockObject]
  rcases invariant.real_or inStack isOwner with
    ⟨isStack, isThread, near, isReal⟩ | ⟨notReal, isNone⟩
  · have sameNear : (((state.clearOwner lock).putKlass obj (.heap near)).locks lock).near =
        (state.locks lock).near := by
      simp [clearOwner]
    rw [isReal]
    simp only [sameNear]
    split
    · next noWaiters =>
        have freed := invariant.freed isStack isReal
        rw [(invariant.waiters_bit isStack).mp noWaiters, update_nobody, isThread] at freed
        exact freed
    · have signalled := invariant.freed_signal isStack isReal
      rw [isThread] at signalled
      exact signalled
  · rw [isNone]
    have freed : Invariant reals loose nobody (state.clearOwner lock) := invariant.free notReal rfl
    exact freed.loosen

/-! ## Entering a monitor -/

theorem nearOf_putLock
    {obj lock : Nat}
    (notReal : state.klass obj ≠ .stack lock)
    (value : StackLock) :
    (state.putLock lock value).nearOf obj = state.nearOf obj := by
  simp only [nearOf, putLock_klass, putLock_nears, putLock_locks]
  split
  · rfl
  · next lock' isStack =>
      have isOther : lock' ≠ lock := by
        rintro rfl
        exact notReal isStack
      rw [Function.update_of_ne isOther]

/-- The thread waits in the queue of the object. -/
theorem Invariant.block
    {thread obj lock lock' : Nat}
    (invariant : Invariant reals (Loosen loose thread obj lock) nobody state)
    (isActive : (state.threads thread).isActive = true)
    (inStack : lock ∈ state.stackLocks thread)
    (isFree : (state.locks lock).owner = none)
    (isStack : state.klass obj = .stack lock')
    (notHeld : (state.locks lock').thread ≠ thread) :
    Invariant reals loose nobody
      ((state.putThread thread ((state.threads thread).parked obj lock)).setWaiters lock'
        ((state.locks lock').waiters ++ [thread])) := by
  have attached := invariant.attach isActive inStack isFree (by
    intro lock'' isStack'
    rw [isStack] at isStack'
    cases isStack'
    exact notHeld)
  have isStack' : (state.putThread thread ((state.threads thread).parked obj lock)).klass obj =
      .stack lock' :=
    isStack
  have queued := attached.queueUp isStack' (by simp)
  rw [Function.update_self, Function.update_idem, update_nobody] at queued
  refine queued.settle ?_
  rintro thread' obj' lock'' first (isLoose | ⟨rfl, rfl, rfl⟩) _ _ _ _
  · exact Or.inr (Or.inr isLoose)
  · refine Or.inr (Or.inl ?_)
    simp [setWaiters, JavaThread.parked]

/-- An active thread enters a monitor that it does not have, or waits for it. -/
theorem Invariant.enter
    {thread obj lock : Nat} {value : StackLock}
    (invariant : Invariant reals (Loosen loose thread obj lock) nobody state)
    (isActive : (state.threads thread).isActive = true)
    (inStack : lock ∈ state.stackLocks thread)
    (isFree : (state.locks lock).owner = none)
    (isOwner : value.owner = some obj)
    (notHeld : ∀ lock', state.klass obj = .stack lock' → (state.locks lock').thread ≠ thread) :
    Invariant reals loose nobody ((state.putLock lock value).enter thread lock) := by
  have notReal := invariant.klass_ne_of_free isFree
  have sameLocked := invariant.isLocked_iff obj
  simp only [State.enter, putLock_locks, Function.update_self, isOwner,
    nearOf_putLock (notReal obj)]
  cases isKlass : state.klass obj with
  | heap near =>
      have notLocked : (state.nearOf obj).isLocked = false := by
        simpa [isKlass] using sameLocked
      have isHeap : (state.putLock lock value).klass obj = .heap near := isKlass
      have locked := invariant.lock isKlass inStack isFree (invariant.waitObj_of_active isActive)
      rw [lock_eq isKlass] at locked
      rw [notLocked, lock_eq isHeap]
      simpa [putLock] using locked
  | stack lock' =>
      have isLocked : (state.nearOf obj).isLocked = true := sameLocked.mpr ⟨lock', isKlass⟩
      have isOther : lock' ≠ lock := by
        rintro rfl
        exact notReal obj isKlass
      have freed : Invariant reals (Loosen loose thread obj lock) nobody
          (state.putLock lock { value with owner := none }) :=
        invariant.free notReal rfl
      have blocked := freed.block isActive (by simpa using inStack) (by simp) isKlass
        (by simpa [Function.update_of_ne isOther] using notHeld lock' isKlass)
      rw [isLocked]
      simp only [Bool.not_true, Bool.false_eq_true, if_false]
      simpa [addSyncThread, fromJavaOop, isKlass, setWaitStackLock, setWaitObj, removeFromActive,
        clearOwner, setWaiters, putThread, putLock, JavaThread.parked,
        Function.update_of_ne isOther] using blocked

/-- The lock bit that the interpreter looks at. -/
theorem Invariant.lock_bit
    {pending : Nat → List Nat}
    (invariant : Invariant reals loose pending state)
    {obj lock : Nat}
    (isStack : state.klass obj = .stack lock) :
    (state.nearOf obj).value &&& 0x1 ≠ 0 := by
  obtain ⟨near, _, _, isNear⟩ := (invariant.locked isStack).real
  have isNear' : state.nearOf obj =
      (state.nears near).setLock (lockWord (state.locks lock).waiters) := by
    rw [nearOf, isStack, ← isNear]
  rw [isNear', JavaNear.bits_setLock _ (by decide)]
  rcases lockWord_isLock (state.locks lock).waiters with isLock | isLock
  · rw [isLock]
    decide
  · rw [isLock]
    decide

/-- An active thread locks an object with a free stack lock above all others for the object. -/
theorem Invariant.lockObject
    (invariant : Invariant reals nowhere nobody state)
    {thread obj lock : Nat}
    (isActive : (state.threads thread).isActive = true)
    (inStack : lock ∈ state.stackLocks thread)
    (isFree : (state.locks lock).owner = none)
    (above : ∀ first, state.klass obj = .stack first → (state.locks first).thread = thread →
      [lock, first].Sublist (state.stackLocks thread)) :
    Invariant reals nowhere nobody (state.lockObject thread obj lock) := by
  have notReal := invariant.klass_ne_of_free isFree
  have notWaiting := invariant.waitObj_of_active isActive
  have sameNear : (state.setOwner lock obj).nearOf obj = state.nearOf obj :=
    nearOf_putLock (notReal obj) _
  simp only [State.lockObject, sameNear]
  cases isKlass : state.klass obj with
  | heap near =>
      have isNear : state.nearOf obj = state.nears near := by rw [nearOf, isKlass]
      have unlocked := invariant.unlocked near
      have taken := invariant.take isKlass inStack isFree notWaiting
      have noBit : (state.nears near).value &&& 0x1 = 0 := JavaNear.and_one _ unlocked
      rw [isNear, if_neg (not_not.mpr noBit), JavaNear.or_one _ unlocked]
      simpa [setOwner, putLock, fromJavaOop, isKlass] using taken
  | stack first =>
      have isOther : first ≠ lock := by
        rintro rfl
        exact notReal obj isKlass
      have sameThread : (((state.setOwner lock obj).locks
          ((state.setOwner lock obj).fromJavaOop obj)).thread) = (state.locks first).thread := by
        simp [setOwner, fromJavaOop, isKlass, Function.update_of_ne isOther]
      have sameLock : (state.setOwner lock obj).clearRealJavaNear lock =
          state.putLock lock
            { state.locks lock with
              realJavaNear := none
              owner := some obj } := by
        simp [setOwner, clearRealJavaNear, putLock]
      rw [if_pos (invariant.lock_bit isKlass), sameThread, sameLock]
      split
      · next isThread =>
          exact invariant.reenter isKlass isThread notWaiting inStack isFree
            (above first isKlass isThread) rfl rfl
      · next notThread =>
          refine invariant.loosen.enter isActive inStack isFree rfl ?_
          intro lock' isStack
          rw [isKlass] at isStack
          cases isStack
          exact notThread

/-! ### Free slots -/

/-- A slot that is found is free, and no slot in front of it is for the object. -/
theorem findFreeSlot_some
    {obj lock : Nat} {found : Option Nat} {slots : List Nat}
    (isFound : state.findFreeSlot obj found slots = some lock) :
    found = some lock ∨ ∃ front back, slots = front ++ lock :: back ∧
      (state.locks lock).owner = none ∧
        ∀ slot ∈ front, (state.locks slot).owner ≠ some obj := by
  induction slots generalizing found with
  | nil =>
      exact Or.inl isFound
  | cons slot slots inductionHypothesis =>
      rw [findFreeSlot] at isFound
      split at isFound
      · next isFree =>
          rcases inductionHypothesis isFound with isSlot | ⟨front, back, isSplit, isFree', others⟩
          · cases isSlot
            exact Or.inr ⟨[], slots, rfl, isFree, by simp⟩
          · refine Or.inr ⟨slot :: front, back, by rw [isSplit]; rfl, isFree', ?_⟩
            simpa [isFree] using others
      · next owner isOwner =>
          split at isFound
          · exact Or.inl isFound
          · next notObj =>
              rcases inductionHypothesis isFound with
                isSlot | ⟨front, back, isSplit, isFree', others⟩
              · exact Or.inl isSlot
              · refine Or.inr ⟨slot :: front, back, by rw [isSplit]; rfl, isFree', ?_⟩
                simpa [isOwner, notObj] using others

/-- The stack locks of a thread are those of its latest frame, and others. -/
theorem stackLocks_eq (state : State) (thread : Nat) :
    ∃ rest, state.stackLocks thread = state.monitorBlock thread ++ rest := by
  rw [stackLocks, monitorBlock, topFrame]
  cases (state.threads thread).frames with
  | nil => exact ⟨[], rfl⟩
  | cons frame frames => exact ⟨frames.flatMap Frame.locks, rfl⟩

/-- A slot that is found lies above all stack locks for the object. -/
theorem findFreeSlot_above
    {thread obj lock first : Nat}
    (isFound : state.findFreeSlot obj none (state.monitorBlock thread) = some lock)
    (inStack : first ∈ state.stackLocks thread)
    (isOwner : (state.locks first).owner = some obj) :
    [lock, first].Sublist (state.stackLocks thread) := by
  obtain ⟨rest, isStack⟩ := stackLocks_eq state thread
  rcases findFreeSlot_some isFound with isNone | ⟨front, back, isBlock, isFree, others⟩
  · cases isNone
  · have inRest : first ∈ back ++ rest := by
      rw [isStack, isBlock, List.append_assoc, List.cons_append, List.mem_append,
        List.mem_cons] at inStack
      rcases inStack with inFront | isLock | inRest
      · exact absurd isOwner (others first inFront)
      · rw [isLock, isFree] at isOwner
        cases isOwner
      · exact inRest
    rw [isStack, isBlock, List.append_assoc, List.cons_append]
    have isAbove : [lock, first].Sublist (lock :: (back ++ rest)) :=
      (List.singleton_sublist.mpr inRest).cons_cons lock
    exact isAbove.trans (List.sublist_append_right _ _)

/-! ### Calls -/

theorem allocateMonitor_eq
    {thread : Nat} {frame : Frame} {frames : List Frame}
    (isFrames : (state.threads thread).frames = frame :: frames) :
    state.allocateMonitor thread =
      (state.lockCount, state.withFrames thread
        ({ frame with locks := state.lockCount :: frame.locks } :: frames)
        (state.lockCount + 1)) := by
  rw [allocateMonitor, isFrames]
  rfl

/-- The object is locked with a new stack lock. -/
theorem Invariant.lockNew
    (invariant : Invariant reals nowhere nobody state)
    {thread : Nat}
    (obj : Nat)
    (isActive : (state.threads thread).isActive = true)
    (hasFrame : (state.threads thread).frames ≠ []) :
    Invariant reals nowhere nobody
      ((state.allocateMonitor thread).2.lockObject thread obj
        (state.allocateMonitor thread).1) := by
  obtain ⟨frame, frames, isFrames⟩ := List.exists_cons_of_ne_nil hasFrame
  have pushed : (({ frame with locks := state.lockCount :: frame.locks } : Frame) ::
      frames).flatMap Frame.locks = state.lockCount :: state.stackLocks thread := by
    simp [stackLocks, isFrames]
  have extended := invariant.pushLock isActive pushed
  rw [allocateMonitor_eq isFrames]
  refine extended.lockObject (by simpa using isActive) (by simp)
    (invariant.placement.fresh (Nat.le_refl _)) ?_
  intro first isStack isThread
  have inStack := (invariant.locked isStack).inStack
  have sameThread : (state.locks first).thread = thread := isThread
  rw [sameThread] at inStack
  rw [withFrames_stackLocks, pushed]
  exact (List.singleton_sublist.mpr inStack).cons_cons _

theorem Invariant.monitorEnter
    (invariant : Invariant reals nowhere nobody state)
    {thread : Nat}
    (obj : Nat)
    (isActive : (state.threads thread).isActive = true)
    (hasFrame : (state.threads thread).frames ≠ []) :
    Invariant reals nowhere nobody (state.monitorEnter thread obj) := by
  rw [State.monitorEnter]
  split
  · next lock isFound =>
      obtain ⟨rest, isStack⟩ := stackLocks_eq state thread
      rcases findFreeSlot_some isFound with isNone | ⟨front, back, isBlock, isFree, _⟩
      · cases isNone
      · refine invariant.lockObject isActive (by rw [isStack, isBlock]; simp) isFree ?_
        intro first isReal isThread
        have isLocked := invariant.locked isReal
        exact findFreeSlot_above isFound (isThread ▸ isLocked.inStack) isLocked.owner
  · exact invariant.lockNew obj isActive hasFrame

theorem Invariant.invoke
    (invariant : Invariant reals nowhere nobody state)
    {thread : Nat}
    (receiver : Option Nat)
    (isActive : (state.threads thread).isActive = true) :
    Invariant reals nowhere nobody (state.invoke thread receiver) := by
  have framed : Invariant reals nowhere nobody
      (state.withFrames thread (⟨receiver.isSome, []⟩ :: (state.threads thread).frames)
        state.lockCount) := by
    refine invariant.popLocks [] isActive ?_ (by simp)
    simp [stackLocks]
  cases receiver with
  | none => exact framed
  | some obj =>
      exact framed.lockNew obj (by simpa using isActive) (by simp)

end PicoJvm.Monitors
