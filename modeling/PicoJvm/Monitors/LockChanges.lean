import PicoJvm.Monitors.MonitorInvariant

/-!
# Changes that keep the invariant

What the calls consist of: an object is unlocked or locked, a thread leaves the active queues or
comes back, and stack locks come and go.
-/

namespace PicoJvm.Monitors

open State

variable {state state' : State} {reals : Nat → JavaNear} {loose loose' : Nat → Nat → Nat → Prop}
  {pending pending' : Nat → List Nat}

/-! ## What stays -/

theorem queue_eq
    (state : State)
    {obj : Nat}
    (klass : state'.klass obj = state.klass obj)
    (waiters : ∀ lock, state.klass obj = .stack lock →
      (state'.locks lock).waiters = (state.locks lock).waiters) :
    state'.queue obj = state.queue obj := by
  rw [queue, klass, queue]
  split
  · rfl
  · next lock isStack => exact waiters lock isStack

theorem realNear_kept
    {obj : Nat} {near : JavaNear}
    (before : state.realNear obj = some near)
    (nears : state'.nears = state.nears)
    (klass : state'.klass obj = state.klass obj)
    (real : ∀ lock, state.klass obj = .stack lock →
      (state'.locks lock).realJavaNear = (state.locks lock).realJavaNear) :
    state'.realNear obj = some near := by
  rw [← before, realNear, klass, realNear, nears]
  split
  · rfl
  · next lock isStack => rw [real lock isStack]

theorem Placement.of_eq
    (placement : Placement state)
    (frames : ∀ thread, (state'.threads thread).frames = (state.threads thread).frames)
    (counts : state'.lockCount = state.lockCount)
    (fresh : ∀ lock, state.lockCount ≤ lock → (state.locks lock).owner = none →
      (state'.locks lock).owner = none) :
    Placement state' := by
  have same (thread : Nat) : state'.stackLocks thread = state.stackLocks thread :=
    stackLocks_of_frames (frames thread)
  exact {
    nodup := fun thread => (same thread).symm ▸ placement.nodup thread
    apart := by
      intro thread thread' lock inStack inStack'
      rw [same] at inStack inStack'
      exact placement.apart inStack inStack'
    below := by
      intro thread lock inStack
      rw [same] at inStack
      rw [counts]
      exact placement.below inStack
    fresh := by
      intro lock isFresh
      rw [counts] at isFresh
      exact fresh lock isFresh (placement.fresh isFresh) }

theorem Locked.of_eq
    {obj lock : Nat}
    (locked : Locked state obj lock)
    (sameLock : state'.locks lock = state.locks lock)
    (sameFrames : (state'.threads (state.locks lock).thread).frames =
      (state.threads (state.locks lock).thread).frames)
    (notWaiting : (state'.threads (state.locks lock).thread).waitObj ≠ some obj)
    (sameNears : ∀ near, near < state.nearCount → state'.nears near = state.nears near)
    (counts : state.nearCount ≤ state'.nearCount) :
    Locked state' obj lock := by
  obtain ⟨near, isReal, isKnown, isNear⟩ := locked.real
  have sameStack := stackLocks_of_frames sameFrames
  exact {
    owner := by rw [sameLock]; exact locked.owner
    inStack := by rw [sameLock, sameStack]; exact locked.inStack
    real := by
      rw [sameLock]
      refine ⟨near, isReal, Nat.lt_of_lt_of_le isKnown counts, ?_⟩
      rw [sameNears near isKnown]
      exact isNear
    notWaiting := by rw [sameLock]; exact notWaiting }

theorem Waits.of_eq
    {thread : Nat}
    (waits : Waits state thread)
    (sameThread : state'.threads thread = state.threads thread)
    (free : ∀ lock, lock ∈ state.stackLocks thread → (state.locks lock).owner = none →
      (state.threads thread).waitStackLock = some lock → (state'.locks lock).owner = none) :
    Waits state' thread := by
  have sameLocks : state'.stackLocks thread = state.stackLocks thread :=
    stackLocks_of_frames (by rw [sameThread])
  rw [Waits, sameThread, sameLocks]
  rw [Waits] at waits
  split at waits
  · assumption
  · obtain ⟨alive, notActive, lock, isLock, inStack, isFree⟩ := waits
    exact ⟨alive, notActive, lock, isLock, inStack, free lock inStack isFree isLock⟩

theorem Listed.of_lists
    (listed : Listed pending state)
    (waits : ∀ thread, Waits state' thread)
    (lists : ∀ obj, (pending' obj ++ state'.queue obj ++ state'.waiting obj).Perm
      (pending obj ++ state.queue obj ++ state.waiting obj))
    (waitObj : ∀ thread, (state'.threads thread).waitObj = (state.threads thread).waitObj) :
    Listed pending' state' where
  waits := waits
  mem_iff := by
    intro thread obj
    rw [(lists obj).mem_iff, waitObj]
    exact listed.mem_iff thread obj
  nodup := fun obj => (lists obj).nodup_iff.mpr (listed.nodup obj)

theorem Listed.of_queues
    (listed : Listed pending state)
    (waits : ∀ thread, Waits state' thread)
    (queues : ∀ obj, state'.queue obj = state.queue obj)
    (sameWaiting : state'.waiting = state.waiting)
    (waitObj : ∀ thread, (state'.threads thread).waitObj = (state.threads thread).waitObj) :
    Listed pending state' := by
  refine listed.of_lists waits ?_ waitObj
  intro obj
  rw [queues, sameWaiting]

theorem Owned.of_eq
    {thread lock obj : Nat}
    (owned : Owned loose state thread lock obj)
    (real : state.klass obj = .stack lock → state'.klass obj = .stack lock)
    (sameNear : (state'.locks lock).realJavaNear = (state.locks lock).realJavaNear)
    (sameFrames : (state'.threads thread).frames = (state.threads thread).frames)
    (holds : ∀ first, Holds loose state thread obj first →
      Holds loose' state' thread obj first) :
    Owned loose' state' thread lock obj := by
  rcases owned with isStack | ⟨isNone, first, isFirst, above⟩
  · exact Or.inl (real isStack)
  · right
    rw [sameNear, stackLocks_of_frames sameFrames]
    exact ⟨isNone, first, holds first isFirst, above⟩

/-- Looseness that the invariant does not use is dropped. -/
theorem Invariant.settle
    (invariant : Invariant reals loose pending state)
    (settled : ∀ thread obj lock first, loose thread obj first →
      lock ∈ state.stackLocks thread → (state.locks lock).owner = some obj →
      (state.locks lock).realJavaNear = none → [lock, first].Sublist (state.stackLocks thread) →
      Holds loose' state thread obj first) :
    Invariant reals loose' pending state where
  placement := invariant.placement
  unlocked := invariant.unlocked
  known := invariant.known
  reals := invariant.reals
  locked := invariant.locked
  owned := by
    intro thread lock obj inStack isOwner
    rcases invariant.owned inStack isOwner with isStack | ⟨isNone, first, holds, above⟩
    · exact Or.inl isStack
    · refine Or.inr ⟨isNone, first, ?_, above⟩
      rcases holds with isStack | waits | isLoose
      · exact Or.inl isStack
      · exact Or.inr (Or.inl waits)
      · exact settled thread obj lock first isLoose inStack isOwner isNone above
  listed := invariant.listed
  resting := invariant.resting

/-- One more stack lock of a thread may lie below others for its object. -/
def Loosen (loose : Nat → Nat → Nat → Prop) (thread obj lock : Nat) : Nat → Nat → Nat → Prop :=
  fun thread' obj' lock' =>
    loose thread' obj' lock' ∨ (thread' = thread ∧ obj' = obj ∧ lock' = lock)

/-! ## Objects -/

/-- The object is unlocked. Its thread may be loose, and the threads of the queue are pending. -/
theorem Invariant.release
    (invariant : Invariant reals loose pending state)
    {obj lock near : Nat} {free : StackLock}
    (isStack : state.klass obj = .stack lock)
    (isReal : (state.locks lock).realJavaNear = some near)
    (isFree : free.owner = none) :
    Invariant reals (Loosen loose (state.locks lock).thread obj lock)
      (Function.update pending obj (pending obj ++ (state.locks lock).waiters))
      ((state.putKlass obj (.heap near)).putLock lock free) := by
  have isLocked := invariant.locked isStack
  have notLock {obj' lock' : Nat} (other : obj' ≠ obj)
      (isStack' : state.klass obj' = .stack lock') : lock' ≠ lock := by
    rintro rfl
    exact other (invariant.obj_unique isStack' isStack)
  have freed {lock' : Nat} (isFree' : (state.locks lock').owner = none) :
      (Function.update state.locks lock free lock').owner = none := by
    by_cases isLock : lock' = lock
    · simp [isLock, isFree]
    · simpa [Function.update_of_ne isLock] using isFree'
  have lists (obj' : Nat) :
      Function.update pending obj (pending obj ++ (state.locks lock).waiters) obj' ++
        ((state.putKlass obj (.heap near)).putLock lock free).queue obj' ++ state.waiting obj' =
      pending obj' ++ state.queue obj' ++ state.waiting obj' := by
    by_cases isObj : obj' = obj
    · subst isObj
      have isHeap : ((state.putKlass obj' (.heap near)).putLock lock free).klass obj' =
          .heap near := by
        simp
      rw [Function.update_self, queue_of_heap isHeap, queue_of_stack isStack, List.append_nil]
    · rw [Function.update_of_ne isObj, queue_eq state (by simp [Function.update_of_ne isObj])]
      intro lock' isStack'
      simp [Function.update_of_ne (notLock isObj isStack')]
  exact {
    placement := invariant.placement.of_eq (fun _ => rfl) rfl (fun _ _ isFree' => freed isFree')
    unlocked := invariant.unlocked
    known := by
      intro obj' near' isHeap
      by_cases isObj : obj' = obj
      · obtain ⟨near'', isReal', isKnown, _⟩ := isLocked.real
        simp [isObj] at isHeap
        rw [isReal] at isReal'
        cases isReal'
        rw [← isHeap]
        exact isKnown
      · exact invariant.known (by simpa [Function.update_of_ne isObj] using isHeap)
    reals := by
      intro obj'
      have before := invariant.reals obj'
      by_cases isObj : obj' = obj
      · subst isObj
        have isHeap : ((state.putKlass obj' (.heap near)).putLock lock free).klass obj' =
            .heap near := by
          simp
        rw [realNear_of_stack isStack, isReal] at before
        rw [realNear_of_heap isHeap, ← before]
        rfl
      · refine realNear_kept before rfl (by simp [Function.update_of_ne isObj]) ?_
        intro lock' isStack'
        simp [Function.update_of_ne (notLock isObj isStack')]
    locked := by
      intro obj' lock' isStack'
      by_cases isObj : obj' = obj
      · simp [isObj] at isStack'
      · have isStack'' : state.klass obj' = .stack lock' := by
          simpa [Function.update_of_ne isObj] using isStack'
        have isLocked' := invariant.locked isStack''
        exact isLocked'.of_eq (by simp [Function.update_of_ne (notLock isObj isStack'')]) rfl
          isLocked'.notWaiting (fun _ _ => rfl) (Nat.le_refl _)
    owned := by
      intro thread lock' obj' inStack isOwner
      have isOther : lock' ≠ lock := by
        rintro rfl
        simp [isFree] at isOwner
      have isOwner' : (state.locks lock').owner = some obj' := by
        simpa [Function.update_of_ne isOther] using isOwner
      refine (invariant.owned inStack isOwner').of_eq ?_ ?_ rfl ?_
      · intro isStack'
        have isObj : obj' ≠ obj := by
          rintro rfl
          rw [isStack] at isStack'
          cases isStack'
          exact isOther rfl
        simp [Function.update_of_ne isObj, isStack']
      · simp [Function.update_of_ne isOther]
      · rintro first (⟨isStack', isThread⟩ | waits | isLoose)
        · by_cases isObj : obj' = obj
          · subst isObj
            rw [isStack] at isStack'
            cases isStack'
            exact Or.inr (Or.inr (Or.inr ⟨isThread.symm, rfl, rfl⟩))
          · left
            simp [Function.update_of_ne isObj, isStack',
              Function.update_of_ne (notLock isObj isStack'), isThread]
        · exact Or.inr (Or.inl waits)
        · exact Or.inr (Or.inr (Or.inl isLoose))
    listed := by
      refine invariant.listed.of_lists ?_ (fun obj' => .of_eq (lists obj')) (fun _ => rfl)
      intro thread
      exact (invariant.listed.waits thread).of_eq rfl (fun _ _ isFree' _ => freed isFree')
    resting := ⟨invariant.resting.mem_iff, invariant.resting.nodup, invariant.resting.dead⟩ }

/-- A thread that waits for nothing locks the object. -/
theorem Invariant.take
    (invariant : Invariant reals loose pending state)
    {thread obj lock near : Nat}
    (isHeap : state.klass obj = .heap near)
    (inStack : lock ∈ state.stackLocks thread)
    (isFree : (state.locks lock).owner = none)
    (notWaiting : (state.threads thread).waitObj = none) :
    Invariant reals loose pending
      ((state.putLock lock
        ⟨thread, some near, [], (state.nears near).setLock lockedValue, some obj⟩).putKlass obj
          (.stack lock)) := by
  have notLock {obj' lock' : Nat} (isStack' : state.klass obj' = .stack lock') : lock' ≠ lock := by
    rintro rfl
    exact invariant.klass_ne_of_free isFree obj' isStack'
  have notObj {obj' lock' : Nat} (isStack' : state.klass obj' = .stack lock') : obj' ≠ obj := by
    rintro rfl
    rw [isHeap] at isStack'
    cases isStack'
  exact {
    placement := by
      refine invariant.placement.of_eq (fun _ => rfl) rfl ?_
      intro lock' isFresh isFree'
      have isOther : lock' ≠ lock := by
        have inUse := invariant.placement.below inStack
        omega
      simpa [Function.update_of_ne isOther] using isFree'
    unlocked := invariant.unlocked
    known := by
      intro obj' near' isHeap'
      by_cases isObj : obj' = obj
      · simp [isObj] at isHeap'
      · exact invariant.known (by simpa [Function.update_of_ne isObj] using isHeap')
    reals := by
      intro obj'
      have before := invariant.reals obj'
      by_cases isObj : obj' = obj
      · subst isObj
        rw [realNear_of_heap isHeap] at before
        rw [realNear]
        simpa using before
      · refine realNear_kept before rfl (by simp [Function.update_of_ne isObj]) ?_
        intro lock' isStack'
        simp [Function.update_of_ne (notLock isStack')]
    locked := by
      intro obj' lock' isStack'
      by_cases isObj : obj' = obj
      · subst isObj
        have isLock : lock = lock' := by simpa using isStack'
        subst isLock
        exact {
          owner := by simp
          inStack := by simpa using inStack
          real := ⟨near, by simp, invariant.known isHeap, by simp [lockWord]⟩
          notWaiting := by simp [notWaiting] }
      · have isStack'' : state.klass obj' = .stack lock' := by
          simpa [Function.update_of_ne isObj] using isStack'
        have isLocked' := invariant.locked isStack''
        exact isLocked'.of_eq (by simp [Function.update_of_ne (notLock isStack'')]) rfl
          isLocked'.notWaiting (fun _ _ => rfl) (Nat.le_refl _)
    owned := by
      intro thread' lock' obj' inStack' isOwner
      by_cases isLock : lock' = lock
      · subst isLock
        have isObj : obj = obj' := by simpa using isOwner
        subst isObj
        exact Or.inl (by simp)
      · have isOwner' : (state.locks lock').owner = some obj' := by
          simpa [Function.update_of_ne isLock] using isOwner
        refine (invariant.owned inStack' isOwner').of_eq ?_ ?_ rfl ?_
        · intro isStack'
          simp [Function.update_of_ne (notObj isStack'), isStack']
        · simp [Function.update_of_ne isLock]
        · rintro first (⟨isStack', isThread⟩ | waits | isLoose)
          · left
            simp [Function.update_of_ne (notObj isStack'), isStack',
              Function.update_of_ne (notLock isStack'), isThread]
          · exact Or.inr (Or.inl waits)
          · exact Or.inr (Or.inr isLoose)
    listed := by
      refine invariant.listed.of_lists ?_ ?_ (fun _ => rfl)
      · intro thread'
        refine (invariant.listed.waits thread').of_eq rfl ?_
        intro lock' inStack' isFree' isWaiting
        have isOther : lock' ≠ lock := by
          rintro rfl
          rw [invariant.placement.apart inStack' inStack] at isWaiting
          have waits := invariant.listed.waits thread
          rw [Waits, notWaiting] at waits
          rw [waits] at isWaiting
          cases isWaiting
        simpa [Function.update_of_ne isOther] using isFree'
      · intro obj'
        refine .of_eq ?_
        by_cases isObj : obj' = obj
        · subst isObj
          rw [queue_of_heap isHeap, queue]
          simp
          rfl
        · rw [queue_eq state (by simp [Function.update_of_ne isObj])]
          · rfl
          · intro lock' isStack'
            simp [Function.update_of_ne (notLock isStack')]
    resting := ⟨invariant.resting.mem_iff, invariant.resting.nodup, invariant.resting.dead⟩ }

/-- Pending threads join the queue of a locked object. -/
theorem Invariant.queueUp
    (invariant : Invariant reals loose pending state)
    {obj lock : Nat}
    (isStack : state.klass obj = .stack lock)
    (isPending : pending obj ≠ []) :
    Invariant reals loose (Function.update pending obj [])
      (state.setWaiters lock ((state.locks lock).waiters ++ pending obj)) := by
  have isLocked := invariant.locked isStack
  have others {lock' : Nat} (other : lock' ≠ lock) :
      (state.setWaiters lock ((state.locks lock).waiters ++ pending obj)).locks lock' =
        state.locks lock' := by
    simp [setWaiters, Function.update_of_ne other]
  have owners (lock' : Nat) :
      ((state.setWaiters lock ((state.locks lock).waiters ++ pending obj)).locks lock').owner =
        (state.locks lock').owner := by
    by_cases isLock : lock' = lock
    · simp [setWaiters, isLock]
    · rw [others isLock]
  exact {
    placement := invariant.placement.of_eq (fun _ => rfl) rfl
      (fun lock' _ isFree => (owners lock').trans isFree)
    unlocked := invariant.unlocked
    known := invariant.known
    reals := by
      intro obj'
      refine realNear_kept (invariant.reals obj') rfl rfl ?_
      intro lock' _
      by_cases isLock : lock' = lock
      · simp [setWaiters, isLock]
      · rw [others isLock]
    locked := by
      intro obj' lock' isStack'
      by_cases isLock : lock' = lock
      · subst isLock
        have isObj := invariant.obj_unique isStack isStack'
        subst isObj
        obtain ⟨near, isReal, isKnown, isNear⟩ := isLocked.real
        exact {
          owner := (owners lock').trans isLocked.owner
          inStack := by simpa [setWaiters] using isLocked.inStack
          real := by
            refine ⟨near, by simpa [setWaiters] using isReal, isKnown, ?_⟩
            simp only [setWaiters, putLock_locks, putLock_nears, Function.update_self]
            rw [isNear, JavaNear.setLock_setLock _ (lockWord_isLock _)]
            simp [lockWord, isPending]
          notWaiting := by simpa [setWaiters] using isLocked.notWaiting }
      · have isLocked' := invariant.locked isStack'
        exact isLocked'.of_eq (others isLock) rfl isLocked'.notWaiting (fun _ _ => rfl)
          (Nat.le_refl _)
    owned := by
      intro thread lock' obj' inStack isOwner
      rw [owners] at isOwner
      refine (invariant.owned inStack isOwner).of_eq id ?_ rfl ?_
      · by_cases isLock : lock' = lock
        · simp [setWaiters, isLock]
        · rw [others isLock]
      · rintro first (⟨isStack', isThread⟩ | waits | isLoose)
        · refine Or.inl ⟨isStack', ?_⟩
          by_cases isLock : first = lock
          · simpa [setWaiters, isLock] using isLock ▸ isThread
          · rwa [others isLock]
        · exact Or.inr (Or.inl waits)
        · exact Or.inr (Or.inr isLoose)
    listed := by
      refine invariant.listed.of_lists ?_ ?_ (fun _ => rfl)
      · intro thread
        exact (invariant.listed.waits thread).of_eq rfl
          (fun lock' _ isFree _ => (owners lock').trans isFree)
      · intro obj'
        by_cases isObj : obj' = obj
        · subst isObj
          have isStack' : (state.setWaiters lock
              ((state.locks lock).waiters ++ pending obj')).klass obj' = .stack lock :=
            isStack
          rw [queue_of_stack isStack', queue_of_stack isStack, Function.update_self]
          simp only [setWaiters, putLock_locks, Function.update_self, List.nil_append]
          exact List.perm_append_comm.append_right _
        · have sameQueue : (state.setWaiters lock
              ((state.locks lock).waiters ++ pending obj)).queue obj' = state.queue obj' := by
            refine queue_eq state rfl ?_
            intro lock' isStack'
            rw [others]
            rintro rfl
            exact isObj (invariant.obj_unique isStack' isStack)
          rw [Function.update_of_ne isObj, sameQueue]
          rfl
    resting := ⟨invariant.resting.mem_iff, invariant.resting.nodup, invariant.resting.dead⟩ }

/-! ## Threads -/

/-- The thread out of the active queues, waiting to lock an object. -/
def JavaThread.parked (value : JavaThread) (obj lock : Nat) : JavaThread :=
  { value with
    isActive := false
    waitObj := some obj
    waitStackLock := some lock }

/-- The thread in an active queue, waiting for nothing. -/
def JavaThread.woken (value : JavaThread) : JavaThread :=
  { value with
    isActive := true
    waitObj := none
    waitStackLock := none }

/-- A thread with other fields and the same frames. -/
theorem frames_putThread
    {thread : Nat} {value : JavaThread}
    (sameFrames : value.frames = (state.threads thread).frames)
    (thread' : Nat) :
    ((state.putThread thread value).threads thread').frames = (state.threads thread').frames := by
  by_cases isThread : thread' = thread
  · subst isThread
    simpa using sameFrames
  · simp [Function.update_of_ne isThread]

/-- A thread comes to a list. -/
theorem Listed.insert
    (listed : Listed pending state)
    {thread obj : Nat}
    (waits : ∀ thread, Waits state' thread)
    (notWaiting : (state.threads thread).waitObj = none)
    (isWaiting : (state'.threads thread).waitObj = some obj)
    (others : ∀ thread', thread' ≠ thread →
      (state'.threads thread').waitObj = (state.threads thread').waitObj)
    (inserted : (pending' obj ++ state'.queue obj ++ state'.waiting obj).Perm
      (thread :: (pending obj ++ state.queue obj ++ state.waiting obj)))
    (kept : ∀ obj', obj' ≠ obj → pending' obj' ++ state'.queue obj' ++ state'.waiting obj' =
      pending obj' ++ state.queue obj' ++ state.waiting obj') :
    Listed pending' state' where
  waits := waits
  mem_iff := by
    intro thread' obj'
    have before := listed.mem_iff thread' obj'
    by_cases isObj : obj' = obj
    · subst isObj
      rw [inserted.mem_iff, List.mem_cons, before]
      by_cases isThread : thread' = thread
      · subst isThread
        simp [isWaiting]
      · rw [others thread' isThread]
        simp [isThread]
    · rw [kept obj' isObj, before]
      by_cases isThread : thread' = thread
      · subst isThread
        rw [notWaiting, isWaiting]
        simp [Ne.symm isObj]
      · rw [others thread' isThread]
  nodup := by
    intro obj'
    by_cases isObj : obj' = obj
    · subst isObj
      rw [inserted.nodup_iff, List.nodup_cons]
      refine ⟨?_, listed.nodup obj'⟩
      rw [listed.mem_iff, notWaiting]
      simp
    · rw [kept obj' isObj]
      exact listed.nodup obj'

/-- A thread is removed from its list. -/
theorem Listed.erase
    (listed : Listed pending state)
    {thread obj : Nat}
    (waits : ∀ thread, Waits state' thread)
    (isWaiting : (state.threads thread).waitObj = some obj)
    (notWaiting : (state'.threads thread).waitObj = none)
    (others : ∀ thread', thread' ≠ thread →
      (state'.threads thread').waitObj = (state.threads thread').waitObj)
    (erased : (thread :: (pending' obj ++ state'.queue obj ++ state'.waiting obj)).Perm
      (pending obj ++ state.queue obj ++ state.waiting obj))
    (kept : ∀ obj', obj' ≠ obj → pending' obj' ++ state'.queue obj' ++ state'.waiting obj' =
      pending obj' ++ state.queue obj' ++ state.waiting obj') :
    Listed pending' state' where
  waits := waits
  mem_iff := by
    intro thread' obj'
    have before := listed.mem_iff thread' obj'
    by_cases isObj : obj' = obj
    · subst isObj
      have unique := erased.nodup_iff.mpr (listed.nodup obj')
      rw [List.nodup_cons] at unique
      rw [← erased.mem_iff, List.mem_cons] at before
      by_cases isThread : thread' = thread
      · subst isThread
        rw [notWaiting]
        simpa using unique.1
      · rw [others thread' isThread, ← before]
        simp [isThread]
    · rw [kept obj' isObj, before]
      by_cases isThread : thread' = thread
      · subst isThread
        rw [notWaiting, isWaiting]
        simp [Ne.symm isObj]
      · rw [others thread' isThread]
  nodup := by
    intro obj'
    by_cases isObj : obj' = obj
    · subst isObj
      exact (List.nodup_cons.mp (erased.nodup_iff.mpr (listed.nodup obj'))).2
    · rw [kept obj' isObj]
      exact listed.nodup obj'

/-- An active thread with a free stack lock waits to lock an object that it does not have. -/
theorem Invariant.attach
    (invariant : Invariant reals loose pending state)
    {thread obj lock : Nat}
    (isActive : (state.threads thread).isActive = true)
    (inStack : lock ∈ state.stackLocks thread)
    (isFree : (state.locks lock).owner = none)
    (notHeld : ∀ lock', state.klass obj = .stack lock' → (state.locks lock').thread ≠ thread) :
    Invariant reals loose (Function.update pending obj (pending obj ++ [thread]))
      (state.putThread thread ((state.threads thread).parked obj lock)) := by
  have notWaiting := invariant.waitObj_of_active isActive
  have isAlive := invariant.alive_of_active isActive
  have same (thread' : Nat) :
      ((state.putThread thread ((state.threads thread).parked obj lock)).threads thread').frames =
        (state.threads thread').frames := by
    refine frames_putThread ?_ thread'
    rfl
  have isWaiting : ((state.putThread thread ((state.threads thread).parked obj lock)).threads
      thread).waitObj = some obj := by
    simp [JavaThread.parked]
  have others {thread' : Nat} (other : thread' ≠ thread) :
      Function.update state.threads thread ((state.threads thread).parked obj lock) thread' =
        state.threads thread' :=
    Function.update_of_ne other _ _
  exact {
    placement := invariant.placement.of_eq same rfl (fun _ _ isFree' => isFree')
    unlocked := invariant.unlocked
    known := invariant.known
    reals := invariant.reals
    locked := by
      intro obj' lock' isStack
      have isLocked := invariant.locked isStack
      refine isLocked.of_eq rfl (same _) ?_ (fun _ _ => rfl) (Nat.le_refl _)
      by_cases isThread : (state.locks lock').thread = thread
      · rw [isThread]
        simp only [putThread_threads, Function.update_self, JavaThread.parked]
        intro isObj
        cases isObj
        exact notHeld lock' isStack isThread
      · simpa [others isThread] using isLocked.notWaiting
    owned := by
      intro thread' lock' obj' inStack' isOwner
      rw [stackLocks_of_frames (same thread')] at inStack'
      refine (invariant.owned inStack' isOwner).of_eq id rfl (same thread') ?_
      rintro first (isReal | ⟨waits, isFirst⟩ | isLoose)
      · exact Or.inl isReal
      · have isOther : thread' ≠ thread := by
          rintro rfl
          rw [notWaiting] at waits
          cases waits
        exact Or.inr (Or.inl (by simpa [others isOther] using ⟨waits, isFirst⟩))
      · exact Or.inr (Or.inr isLoose)
    listed := by
      refine invariant.listed.insert ?_ notWaiting isWaiting ?_ ?_ ?_
      · intro thread'
        by_cases isThread : thread' = thread
        · subst isThread
          simp only [Waits, putThread_threads, Function.update_self, JavaThread.parked]
          have inStack' := (stackLocks_of_frames (same thread')).symm ▸ inStack
          exact ⟨isAlive, trivial, lock, rfl, inStack', isFree⟩
        · exact (invariant.listed.waits thread').of_eq (others isThread)
            (fun _ _ isFree' _ => isFree')
      · intro thread' other
        simp [others other]
      · rw [Function.update_self, List.append_assoc, List.append_assoc, List.append_assoc]
        exact List.perm_middle
      · intro obj' other
        rw [Function.update_of_ne other, putThread_queue, putThread_waiting]
    resting := {
      mem_iff := by
        intro thread'
        have before := invariant.resting.mem_iff thread'
        by_cases isThread : thread' = thread
        · subst isThread
          simp only [putThread_threads, Function.update_self, JavaThread.parked]
          rw [isActive] at before
          simpa using before
        · simpa [others isThread] using before
      nodup := invariant.resting.nodup
      dead := by
        intro thread' isDead
        by_cases isThread : thread' = thread
        · subst isThread
          simp [JavaThread.parked, isAlive] at isDead
        · simp only [putThread_threads, others isThread] at isDead ⊢
          exact invariant.resting.dead thread' isDead } }

/-- A thread that waits comes back to an active queue. It may be loose. -/
theorem Invariant.detach
    (invariant : Invariant reals loose pending state)
    {thread obj lock : Nat} {waiting' : Nat → List Nat}
    (isWaiting : (state.threads thread).waitObj = some obj)
    (isLock : (state.threads thread).waitStackLock = some lock)
    (erased : (thread :: (pending' obj ++ state.queue obj ++ waiting' obj)).Perm
      (pending obj ++ state.queue obj ++ state.waiting obj))
    (kept : ∀ obj', obj' ≠ obj →
      pending' obj' = pending obj' ∧ waiting' obj' = state.waiting obj') :
    Invariant reals (Loosen loose thread obj lock) pending'
      { state.putThread thread (state.threads thread).woken with waiting := waiting' } := by
  obtain ⟨isAlive, _⟩ := invariant.waits_of_some isWaiting
  have same (thread' : Nat) :
      ((state.putThread thread (state.threads thread).woken).threads thread').frames =
        (state.threads thread').frames := by
    refine frames_putThread ?_ thread'
    rfl
  have others {thread' : Nat} (other : thread' ≠ thread) :
      Function.update state.threads thread (state.threads thread).woken thread' =
        state.threads thread' :=
    Function.update_of_ne other _ _
  have notWaiting : (Function.update state.threads thread (state.threads thread).woken
      thread).waitObj = none := by
    simp [JavaThread.woken]
  exact {
    placement := invariant.placement.of_eq same rfl (fun _ _ isFree' => isFree')
    unlocked := invariant.unlocked
    known := invariant.known
    reals := invariant.reals
    locked := by
      intro obj' lock' isStack
      have isLocked := invariant.locked isStack
      refine isLocked.of_eq rfl (same _) ?_ (fun _ _ => rfl) (Nat.le_refl _)
      by_cases isThread : (state.locks lock').thread = thread
      · rw [isThread]
        simp [JavaThread.woken]
      · simpa [others isThread] using isLocked.notWaiting
    owned := by
      intro thread' lock' obj' inStack' isOwner
      have inStack : lock' ∈ state.stackLocks thread' :=
        stackLocks_of_frames (same thread') ▸ inStack'
      refine (invariant.owned inStack isOwner).of_eq id rfl (same thread') ?_
      rintro first (isReal | ⟨waits, isFirst⟩ | isLoose)
      · exact Or.inl isReal
      · by_cases isThread : thread' = thread
        · subst isThread
          rw [isWaiting] at waits
          rw [isLock] at isFirst
          cases waits
          cases isFirst
          exact Or.inr (Or.inr (Or.inr ⟨rfl, rfl, rfl⟩))
        · exact Or.inr (Or.inl (by simpa [others isThread] using ⟨waits, isFirst⟩))
      · exact Or.inr (Or.inr (Or.inl isLoose))
    listed := by
      refine invariant.listed.erase ?_ isWaiting notWaiting ?_ erased ?_
      · intro thread'
        by_cases isThread : thread' = thread
        · subst isThread
          simp [Waits, JavaThread.woken]
        · exact (invariant.listed.waits thread').of_eq (others isThread)
            (fun _ _ isFree' _ => isFree')
      · intro thread' other
        simp [others other]
      · intro obj' other
        rw [(kept obj' other).1]
        change _ ++ waiting' obj' = _
        rw [(kept obj' other).2]
        rfl
    resting := {
      mem_iff := by
        intro thread'
        have before := invariant.resting.mem_iff thread'
        by_cases isThread : thread' = thread
        · subst isThread
          simp only [putThread_threads, Function.update_self, JavaThread.woken]
          rw [isWaiting] at before
          simpa using before
        · simpa [others isThread] using before
      nodup := invariant.resting.nodup
      dead := by
        intro thread' isDead
        by_cases isThread : thread' = thread
        · subst isThread
          simp [JavaThread.woken, isAlive] at isDead
        · simp only [putThread_threads, others isThread] at isDead ⊢
          exact invariant.resting.dead thread' isDead } }

/-- Threads go from one list of their object to another. -/
theorem Invariant.rearrange
    (invariant : Invariant reals loose pending state)
    {waiting' : Nat → List Nat}
    (lists : ∀ obj, (pending' obj ++ state.queue obj ++ waiting' obj).Perm
      (pending obj ++ state.queue obj ++ state.waiting obj)) :
    Invariant reals loose pending' { state with waiting := waiting' } where
  placement := invariant.placement.of_eq (fun _ => rfl) rfl (fun _ _ isFree => isFree)
  unlocked := invariant.unlocked
  known := invariant.known
  reals := invariant.reals
  locked := by
    intro obj lock isStack
    have isLocked := invariant.locked isStack
    exact isLocked.of_eq rfl rfl isLocked.notWaiting (fun _ _ => rfl) (Nat.le_refl _)
  owned := fun inStack isOwner =>
    (invariant.owned inStack isOwner).of_eq id rfl rfl (fun _ holds => holds)
  listed := by
    refine invariant.listed.of_lists ?_ lists (fun _ => rfl)
    intro thread
    exact (invariant.listed.waits thread).of_eq rfl (fun _ _ isFree _ => isFree)
  resting := ⟨invariant.resting.mem_iff, invariant.resting.nodup, invariant.resting.dead⟩

/-- A thread that waits for no object is scheduled differently. -/
theorem Invariant.reschedule
    (invariant : Invariant reals loose pending state)
    {thread : Nat} {value : JavaThread} {sleeping' : List Nat}
    (sameFrames : value.frames = (state.threads thread).frames)
    (sameObj : value.waitObj = (state.threads thread).waitObj)
    (sameLock : value.waitStackLock = (state.threads thread).waitStackLock)
    (waiting : (state.threads thread).waitObj ≠ none →
      value.isAlive = (state.threads thread).isAlive ∧
        value.isActive = (state.threads thread).isActive)
    (resting : Resting { state.putThread thread value with sleeping := sleeping' }) :
    Invariant reals loose pending { state.putThread thread value with sleeping := sleeping' } := by
  have same (thread' : Nat) :
      ((state.putThread thread value).threads thread').frames = (state.threads thread').frames :=
    frames_putThread sameFrames thread'
  have others {thread' : Nat} (other : thread' ≠ thread) :
      Function.update state.threads thread value thread' = state.threads thread' :=
    Function.update_of_ne other _ _
  have sameObjs (thread' : Nat) :
      (Function.update state.threads thread value thread').waitObj =
        (state.threads thread').waitObj := by
    by_cases isThread : thread' = thread
    · subst isThread
      simpa using sameObj
    · rw [others isThread]
  exact {
    placement := invariant.placement.of_eq same rfl (fun _ _ isFree' => isFree')
    unlocked := invariant.unlocked
    known := invariant.known
    reals := invariant.reals
    locked := by
      intro obj lock isStack
      have isLocked := invariant.locked isStack
      exact isLocked.of_eq rfl (same _) (by simpa [sameObjs] using isLocked.notWaiting)
        (fun _ _ => rfl) (Nat.le_refl _)
    owned := by
      intro thread' lock obj inStack' isOwner
      have inStack : lock ∈ state.stackLocks thread' :=
        stackLocks_of_frames (same thread') ▸ inStack'
      refine (invariant.owned inStack isOwner).of_eq id rfl (same thread') ?_
      rintro first (isReal | ⟨waits, isFirst⟩ | isLoose)
      · exact Or.inl isReal
      · refine Or.inr (Or.inl ⟨(sameObjs thread').trans waits, ?_⟩)
        by_cases isThread : thread' = thread
        · subst isThread
          simpa using sameLock.trans isFirst
        · simpa [others isThread] using isFirst
      · exact Or.inr (Or.inr isLoose)
    listed := by
      refine invariant.listed.of_lists ?_ (fun _ => .refl _) sameObjs
      intro thread'
      have waits := invariant.listed.waits thread'
      by_cases isThread : thread' = thread
      · subst isThread
        simp only [Waits, putThread_threads, Function.update_self, sameObj, sameLock] at waits ⊢
        split at waits
        · assumption
        · next obj isObj =>
            obtain ⟨isAlive, notActive, lock, isLock, inStack, isFree⟩ := waits
            obtain ⟨sameAlive, sameActive⟩ := waiting (by simp [isObj])
            refine ⟨sameAlive.trans isAlive, sameActive.trans notActive, lock, isLock, ?_, isFree⟩
            exact stackLocks_of_frames (same thread') ▸ inStack
      · exact waits.of_eq (others isThread) (fun _ _ isFree' _ => isFree')
    resting := resting }

end PicoJvm.Monitors
