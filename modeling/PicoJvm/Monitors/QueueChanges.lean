import PicoJvm.Lib.QueueOrder
import PicoJvm.Monitors.MonitorSteps

/-!
# The queues of the objects

Who unlocks an object takes the first thread from its queue, and who finds it locked stands behind
the last one.
-/

namespace PicoJvm.Monitors

open PicoJvm.Lib.QueueOrder
open State

variable {state : State} {reals : Nat → JavaNear} {loose : Nat → Nat → Nat → Prop}

/-! ## Owners and queues -/

/-- The thread that has locked an object, and those that are queued for it. -/
def State.standing (state : State) (obj : Nat) : Option Nat × List Nat :=
  match state.klass obj with
  | .heap _ => (none, [])
  | .stack lock => (some (state.locks lock).thread, (state.locks lock).waiters)

theorem standing_of_heap
    {obj near : Nat}
    (isHeap : state.klass obj = .heap near) :
    state.standing obj = (none, []) := by
  rw [State.standing, isHeap]

theorem standing_of_stack
    {obj lock : Nat}
    (isStack : state.klass obj = .stack lock) :
    state.standing obj = (some (state.locks lock).thread, (state.locks lock).waiters) := by
  rw [State.standing, isStack]

theorem standing_queue (state : State) (obj : Nat) : (state.standing obj).2 = state.queue obj := by
  rw [State.standing, queue]
  cases state.klass obj with
  | heap near => rfl
  | stack lock => rfl

/-- Whom an object is locked by is told by its near. -/
theorem Invariant.isLockedBy_standing
    {pending : Nat → List Nat}
    (invariant : Invariant reals loose pending state)
    (obj thread : Nat) :
    state.isLockedBy obj thread = true ↔ (state.standing obj).1 = some thread := by
  have isLocked := invariant.isLocked_iff obj
  cases isKlass : state.klass obj with
  | heap near =>
      have notLocked : (state.nearOf obj).isLocked = false := by simpa [isKlass] using isLocked
      simp [isLockedBy, notLocked, standing_of_heap isKlass]
  | stack lock =>
      have isLocked' := isLocked.mpr ⟨lock, isKlass⟩
      simp [isLockedBy, isLocked', fromJavaOop, isKlass, standing_of_stack isKlass]

theorem standing_eq
    (state : State) {state' : State} {obj : Nat}
    (klass : state'.klass obj = state.klass obj)
    (locks : ∀ lock, state.klass obj = .stack lock →
      (state'.locks lock).thread = (state.locks lock).thread ∧
        (state'.locks lock).waiters = (state.locks lock).waiters) :
    state'.standing obj = state.standing obj := by
  rw [State.standing, klass, State.standing]
  split
  · rfl
  · next lock isStack => rw [(locks lock isStack).1, (locks lock isStack).2]

/-- A stack lock that no object points at stands for none. -/
theorem standing_putLock
    {lock : Nat}
    (notReal : ∀ obj, state.klass obj ≠ .stack lock)
    (value : StackLock)
    (obj : Nat) :
    (state.putLock lock value).standing obj = state.standing obj := by
  refine standing_eq state rfl ?_
  intro lock' isStack
  have isOther : lock' ≠ lock := by
    rintro rfl
    exact notReal obj isStack
  simp [Function.update_of_ne isOther]

theorem standing_putKlass
    {obj obj' : Nat}
    (other : obj' ≠ obj)
    (pointer : NearPointer) :
    (state.putKlass obj pointer).standing obj' = state.standing obj' :=
  standing_eq state (by simp [Function.update_of_ne other]) (fun _ _ => ⟨rfl, rfl⟩)

/-- An object that is locked newly has no queue. -/
theorem standing_lock
    {obj lock : Nat}
    (notReal : ∀ obj', obj' ≠ obj → state.klass obj' ≠ .stack lock)
    (thread obj' : Nat) :
    (state.lock lock thread obj).standing obj' =
      if obj' = obj then (some thread, []) else state.standing obj' := by
  split
  · next isObj =>
      subst isObj
      simp [State.lock, State.standing]
  · next other =>
      rw [State.lock, standing_putKlass other]
      refine standing_eq state rfl ?_
      intro lock' isStack
      have isOther : lock' ≠ lock := by
        rintro rfl
        exact notReal obj' other isStack
      simp [Function.update_of_ne isOther]

theorem standing_setWaiters
    {obj lock : Nat}
    (isStack : state.klass obj = .stack lock)
    (notReal : ∀ obj', obj' ≠ obj → state.klass obj' ≠ .stack lock)
    (waiters : List Nat)
    (obj' : Nat) :
    (state.setWaiters lock waiters).standing obj' =
      if obj' = obj then (some (state.locks lock).thread, waiters) else state.standing obj' := by
  split
  · next isObj =>
      subst isObj
      simp [State.standing, setWaiters, isStack]
  · next other =>
      refine standing_eq state rfl ?_
      intro lock' isStack'
      have isOther : lock' ≠ lock := by
        rintro rfl
        exact notReal obj' other isStack'
      simp [setWaiters, Function.update_of_ne isOther]

/-! ## Unlocking -/

/-- The first of the threads that are pending has the object, and the others are its queue. -/
theorem Invariant.standing_signalWaiters
    {obj near lock : Nat}
    (invariant : Invariant reals loose
      (Function.update nobody obj (state.locks lock).waiters) state)
    (isHeap : state.klass obj = .heap near)
    (isFree : (state.locks lock).owner = none)
    (obj' : Nat) :
    (state.signalWaiters lock).standing obj' =
      if obj' = obj then ((state.locks lock).waiters.head?, (state.locks lock).waiters.tail)
      else state.standing obj' := by
  have cleared (obj'' : Nat) :
      (state.clearRealJavaNear lock).standing obj'' = state.standing obj'' :=
    standing_putLock (invariant.klass_ne_of_free isFree) _ obj''
  simp only [State.signalWaiters]
  cases isWaiters : (state.locks lock).waiters with
  | nil =>
      dsimp only
      rw [cleared]
      split
      · next isObj =>
          rw [isObj, standing_of_heap isHeap]
          rfl
      · rfl
  | cons waker nextWaiters =>
      have isWaiting := (invariant.listed.mem_iff waker obj).mp (by simp [isWaiters])
      obtain ⟨_, _, waitLock, isLock, _, isFree'⟩ := invariant.waits_of_some isWaiting
      have isWaiting' : (((state.clearRealJavaNear lock).addToActive waker).threads
          waker).waitObj = some obj := by
        simpa [addToActive, clearRealJavaNear] using isWaiting
      have isLock' : (((state.clearRealJavaNear lock).addToActive waker).threads
          waker).waitStackLock = some waitLock := by
        simpa [addToActive, clearRealJavaNear] using isLock
      have notReal' (obj'' : Nat) :
          ((state.clearRealJavaNear lock).addToActive waker).klass obj'' ≠ .stack waitLock :=
        invariant.klass_ne_of_free isFree' obj''
      have locked := standing_lock (fun obj'' (_ : obj'' ≠ obj) => notReal' obj'') waker
      simp only [isWaiting', isLock']
      split
      · next noMore =>
          rw [List.tail_cons, List.isEmpty_iff.mp noMore]
          refine (locked obj').trans ?_
          split
          · rfl
          · exact cleared obj'
      · have isStack : (((state.clearRealJavaNear lock).addToActive waker).lock waitLock waker
            obj).klass obj = .stack waitLock := by
          simp [State.lock]
        have isThread : ((((state.clearRealJavaNear lock).addToActive waker).lock waitLock waker
            obj).locks waitLock).thread = waker := by
          simp [State.lock]
        have notReal'' (obj'' : Nat) (other : obj'' ≠ obj) :
            (((state.clearRealJavaNear lock).addToActive waker).lock waitLock waker
              obj).klass obj'' ≠ .stack waitLock := by
          have same := notReal' obj''
          simpa [State.lock, Function.update_of_ne other] using same
        refine (standing_setWaiters isStack notReal'' nextWaiters obj').trans ?_
        split
        · rw [isThread]
          rfl
        · next other =>
            rw [locked, if_neg other]
            exact cleared obj'

/-- The object of a real stack lock is unlocked without a word to those that wait for it. -/
theorem Invariant.standing_freed
    (invariant : Invariant reals loose nobody state)
    {obj lock : Nat}
    (isStack : state.klass obj = .stack lock)
    (near obj' : Nat) :
    ((state.clearOwner lock).putKlass obj (.heap near)).standing obj' =
      if obj' = obj then (none, []) else state.standing obj' := by
  split
  · next isObj =>
      subst isObj
      simp [State.standing]
  · next other =>
      rw [standing_putKlass other]
      refine standing_eq state rfl ?_
      intro lock' isStack'
      have isOther : lock' ≠ lock := by
        rintro rfl
        exact other (invariant.obj_unique isStack' isStack)
      simp [clearOwner, Function.update_of_ne isOther]

theorem Invariant.standing_freed_signal
    (invariant : Invariant reals loose nobody state)
    {obj lock near : Nat}
    (isStack : state.klass obj = .stack lock)
    (isReal : (state.locks lock).realJavaNear = some near)
    (obj' : Nat) :
    (((state.clearOwner lock).putKlass obj (.heap near)).signalWaiters lock).standing obj' =
      if obj' = obj then ((state.queue obj).head?, (state.queue obj).tail)
      else state.standing obj' := by
  have freed := invariant.freed isStack isReal
  have sameWaiters : (((state.clearOwner lock).putKlass obj (.heap near)).locks lock).waiters =
      (state.locks lock).waiters := by
    simp [clearOwner]
  have isHeap : ((state.clearOwner lock).putKlass obj (.heap near)).klass obj = .heap near := by
    simp
  rw [← sameWaiters] at freed
  rw [freed.standing_signalWaiters isHeap (by simp [clearOwner]), sameWaiters,
    queue_of_stack isStack]
  split
  · rfl
  · next other => rw [invariant.standing_freed isStack, if_neg other]

/-- What a thread does that unlocks objects: an object is left alone, or the thread had it and the
first of its queue has it now. -/
def HandsOver (thread : Nat) (state state' : State) : Prop :=
  ∀ obj, state'.standing obj = state.standing obj ∨
    ((state.standing obj).1 = some thread ∧ (state'.standing obj).1 ≠ some thread ∧
      state'.standing obj = ((state.queue obj).head?, (state.queue obj).tail))

theorem handsOver_of_eq
    {thread : Nat} {state' : State}
    (same : ∀ obj, state'.standing obj = state.standing obj) :
    HandsOver thread state state' :=
  fun obj => Or.inl (same obj)

theorem HandsOver.refl (thread : Nat) (state : State) : HandsOver thread state state :=
  handsOver_of_eq (fun _ => rfl)

/-- The thread has handed an object over at most once. -/
theorem HandsOver.trans
    {thread : Nat} {state' state'' : State}
    (hands : HandsOver thread state state')
    (hands' : HandsOver thread state' state'') :
    HandsOver thread state state'' := by
  intro obj
  rcases hands obj with same | ⟨isHeld, notHeld, isNext⟩
  · rcases hands' obj with same' | ⟨isHeld', notHeld', isNext'⟩
    · exact Or.inl (same'.trans same)
    · rw [same] at isHeld'
      rw [← standing_queue, same, standing_queue] at isNext'
      exact Or.inr ⟨isHeld', notHeld', isNext'⟩
  · rcases hands' obj with same' | ⟨isHeld', _, _⟩
    · rw [← same'] at notHeld isNext
      exact Or.inr ⟨isHeld, notHeld, isNext⟩
    · exact absurd isHeld' notHeld

/-- A thread leaves an object, and signals the threads of its queue. -/
theorem Invariant.freed_hands
    (invariant : Invariant reals loose nobody state)
    {thread obj lock near : Nat}
    (isStack : state.klass obj = .stack lock)
    (isThread : (state.locks lock).thread = thread)
    (isReal : (state.locks lock).realJavaNear = some near) :
    HandsOver thread state
      (((state.clearOwner lock).putKlass obj (.heap near)).signalWaiters lock) := by
  have notQueued : (state.queue obj).head? ≠ some thread := by
    intro isFirst
    have isQueued := List.mem_of_head? isFirst
    have isWaiting := (invariant.listed.mem_iff thread obj).mp
      (List.mem_append_left _ (List.mem_append_right _ isQueued))
    exact (invariant.locked isStack).notWaiting (isThread ▸ isWaiting)
  intro obj'
  rw [invariant.standing_freed_signal isStack isReal]
  split
  · next isObj =>
      subst isObj
      refine Or.inr ⟨?_, notQueued, rfl⟩
      rw [standing_of_stack isStack, isThread]
  · exact Or.inl rfl

theorem Invariant.unlockStackLock_hands
    (invariant : Invariant reals loose nobody state)
    {thread obj lock : Nat}
    (inStack : lock ∈ state.stackLocks thread)
    (isOwner : (state.locks lock).owner = some obj) :
    HandsOver thread state (state.unlockStackLock lock) := by
  simp only [State.unlockStackLock, isOwner]
  rcases invariant.real_or inStack isOwner with
    ⟨isStack, isThread, near, isReal⟩ | ⟨notReal, isNone⟩
  · rw [isReal]
    exact invariant.freed_hands isStack isThread isReal
  · rw [isNone]
    exact handsOver_of_eq (standing_putLock notReal _)

/-- The interpreter does not call the runtime when the queue is empty. -/
theorem Invariant.unlockObject_hands
    (invariant : Invariant reals loose nobody state)
    {thread obj lock : Nat}
    (inStack : lock ∈ state.stackLocks thread)
    (isOwner : (state.locks lock).owner = some obj) :
    HandsOver thread state (state.unlockObject obj lock) := by
  simp only [State.unlockObject]
  rcases invariant.real_or inStack isOwner with
    ⟨isStack, isThread, near, isReal⟩ | ⟨notReal, isNone⟩
  · have sameNear : (((state.clearOwner lock).putKlass obj (.heap near)).locks lock).near =
        (state.locks lock).near := by
      simp [clearOwner]
    rw [isReal]
    simp only [sameNear]
    split
    · next noWaiters =>
        have isEmpty := (invariant.waiters_bit isStack).mp noWaiters
        intro obj'
        rw [invariant.standing_freed isStack]
        split
        · next isObj =>
            subst isObj
            rw [queue_of_stack isStack, isEmpty, standing_of_stack isStack, isThread]
            exact Or.inr ⟨rfl, by simp, rfl⟩
        · exact Or.inl rfl
    · exact invariant.freed_hands isStack isThread isReal
  · rw [isNone]
    exact handsOver_of_eq (standing_putLock notReal _)

/-! ## Locking -/

/-- The owners and queues of all objects after a step, when only one thread may have come. -/
def Joins (thread : Nat) (state state' : State) : Prop :=
  ∀ obj, Enters (fun other => other = thread) (state.standing obj) (state'.standing obj)

theorem joins_of_eq
    {thread : Nat} {state' : State}
    (same : ∀ obj, state'.standing obj = state.standing obj) :
    Joins thread state state' := by
  intro obj
  rw [same]
  exact .same _

/-- A thread locks an object that is not locked. -/
theorem joins_lock
    {thread obj lock near : Nat}
    (isHeap : state.klass obj = .heap near)
    (notReal : ∀ obj', state.klass obj' ≠ .stack lock) :
    Joins thread state (state.lock lock thread obj) := by
  intro obj'
  rw [standing_lock (fun obj'' _ => notReal obj'')]
  split
  · next isObj =>
      rw [isObj, standing_of_heap isHeap]
      exact .taken rfl (by simp)
  · exact .same _

theorem Invariant.enter_joins
    {thread obj lock : Nat} {value : StackLock}
    (invariant : Invariant reals loose nobody state)
    (isFree : (state.locks lock).owner = none)
    (isOwner : value.owner = some obj) :
    Joins thread state ((state.putLock lock value).enter thread lock) := by
  have notReal := invariant.klass_ne_of_free isFree
  have sameLocked := invariant.isLocked_iff obj
  simp only [State.enter, putLock_locks, Function.update_self, isOwner,
    nearOf_putLock (notReal obj)]
  intro obj'
  cases isKlass : state.klass obj with
  | heap near =>
      have notLocked : (state.nearOf obj).isLocked = false := by
        simpa [isKlass] using sameLocked
      have isHeap : (state.putLock lock value).klass obj = .heap near := isKlass
      have notReal' (obj'' : Nat) : (state.putLock lock value).klass obj'' ≠ .stack lock :=
        notReal obj''
      have joins : Joins thread (state.putLock lock value) _ := joins_lock isHeap notReal'
      have enters := joins obj'
      rw [standing_putLock notReal] at enters
      rw [notLocked]
      exact enters
  | stack lock' =>
      have isLocked : (state.nearOf obj).isLocked = true := sameLocked.mpr ⟨lock', isKlass⟩
      have isOther : lock' ≠ lock := by
        rintro rfl
        exact notReal obj isKlass
      rw [isLocked]
      simp only [Bool.not_true, Bool.false_eq_true, if_false]
      generalize isParked : (state.putLock lock { value with owner := none }).putThread thread
        ((state.threads thread).parked obj lock) = parked
      have notReal' (obj'' : Nat) (other : obj'' ≠ obj) : parked.klass obj'' ≠ .stack lock' := by
        intro isStack
        rw [← isParked] at isStack
        exact other (invariant.obj_unique isStack isKlass)
      have isStack : parked.klass obj = .stack lock' := by
        rw [← isParked]
        exact isKlass
      have sameThread : (parked.locks lock').thread = (state.locks lock').thread := by
        simp [← isParked, Function.update_of_ne isOther]
      have sameStanding : parked.standing obj' = state.standing obj' := by
        rw [← isParked]
        exact standing_putLock notReal _ obj'
      have enters : Enters (fun other => other = thread) (state.standing obj')
          ((parked.setWaiters lock' ((state.locks lock').waiters ++ [thread])).standing obj') := by
        rw [standing_setWaiters isStack notReal']
        split
        · next isObj =>
            rw [isObj, standing_of_stack isKlass, sameThread]
            exact .joined _ _ (by simp)
        · rw [sameStanding]
          exact .same _
      rw [← isParked] at enters
      simpa [addSyncThread, fromJavaOop, isKlass, setWaitStackLock, setWaitObj, removeFromActive,
        clearOwner, setWaiters, putThread, putLock, JavaThread.parked,
        Function.update_of_ne isOther] using enters

/-- The thread locks the object, or stands behind the last one of its queue. -/
theorem Invariant.lockObject_joins
    (invariant : Invariant reals loose nobody state)
    {thread lock : Nat}
    (obj : Nat)
    (isFree : (state.locks lock).owner = none) :
    Joins thread state (state.lockObject thread obj lock) := by
  have notReal := invariant.klass_ne_of_free isFree
  have sameNear : (state.setOwner lock obj).nearOf obj = state.nearOf obj :=
    nearOf_putLock (notReal obj) _
  simp only [State.lockObject, sameNear]
  cases isKlass : state.klass obj with
  | heap near =>
      have isNear : state.nearOf obj = state.nears near := by rw [nearOf, isKlass]
      have unlocked := invariant.unlocked near
      have noBit : (state.nears near).value &&& 0x1 = 0 := JavaNear.and_one _ unlocked
      have joins : Joins thread state (state.lock lock thread obj) := joins_lock isKlass notReal
      rw [lock_eq isKlass] at joins
      rw [isNear, if_neg (not_not.mpr noBit), JavaNear.or_one _ unlocked]
      simpa [setOwner, putLock, fromJavaOop, isKlass] using joins
  | stack first =>
      have sameLock : (state.setOwner lock obj).clearRealJavaNear lock =
          state.putLock lock
            { state.locks lock with
              realJavaNear := none
              owner := some obj } := by
        simp [setOwner, clearRealJavaNear, putLock]
      rw [if_pos (invariant.lock_bit isKlass), sameLock]
      split
      · exact joins_of_eq (standing_putLock notReal _)
      · exact invariant.enter_joins isFree rfl

end PicoJvm.Monitors
