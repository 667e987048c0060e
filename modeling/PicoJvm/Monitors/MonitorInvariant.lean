import PicoJvm.Monitors.MonitorCalls

/-!
# The invariant of the monitors

An object that is locked points at a stack lock of its thread. Whatever else a thread has entered in
a stack lock for the object lies above that one. Every thread that is not active stands in one list,
once.

In the middle of a call the invariant is weaker: a thread may have left an object with other stack
locks for it (it is loose), and a thread that waits may stand in no list (it is pending).
-/

namespace PicoJvm.Monitors

open State

variable {state : State}

/-! ## Fields -/

section Fields

variable (obj lock thread : Nat) (pointer : NearPointer) (stackLock : StackLock)
  (value : JavaThread)

@[simp] theorem putKlass_klass :
    (state.putKlass obj pointer).klass = Function.update state.klass obj pointer :=
  rfl

@[simp] theorem putKlass_locks : (state.putKlass obj pointer).locks = state.locks :=
  rfl

@[simp] theorem putKlass_nears : (state.putKlass obj pointer).nears = state.nears :=
  rfl

@[simp] theorem putKlass_threads : (state.putKlass obj pointer).threads = state.threads :=
  rfl

@[simp] theorem putLock_locks :
    (state.putLock lock stackLock).locks = Function.update state.locks lock stackLock :=
  rfl

@[simp] theorem putLock_klass : (state.putLock lock stackLock).klass = state.klass :=
  rfl

@[simp] theorem putLock_nears : (state.putLock lock stackLock).nears = state.nears :=
  rfl

@[simp] theorem putLock_threads : (state.putLock lock stackLock).threads = state.threads :=
  rfl

@[simp] theorem putThread_threads :
    (state.putThread thread value).threads = Function.update state.threads thread value :=
  rfl

@[simp] theorem putThread_klass : (state.putThread thread value).klass = state.klass :=
  rfl

@[simp] theorem putThread_locks : (state.putThread thread value).locks = state.locks :=
  rfl

@[simp] theorem putThread_nears : (state.putThread thread value).nears = state.nears :=
  rfl

@[simp] theorem putThread_waiting : (state.putThread thread value).waiting = state.waiting :=
  rfl

@[simp] theorem putThread_sleeping : (state.putThread thread value).sleeping = state.sleeping :=
  rfl

end Fields

/-! ## Lists of threads and of stack locks -/

namespace State

/-- The stack locks of a thread, the latest first. -/
def stackLocks (state : State) (thread : Nat) : List Nat :=
  (state.threads thread).frames.flatMap Frame.locks

/-- The threads that are queued to lock an object. -/
def queue (state : State) (obj : Nat) : List Nat :=
  match state.klass obj with
  | .heap _ => []
  | .stack lock => (state.locks lock).waiters

theorem queue_of_stack
    {obj lock : Nat}
    (isStack : state.klass obj = .stack lock) :
    state.queue obj = (state.locks lock).waiters := by
  rw [queue, isStack]

theorem queue_of_heap
    {obj near : Nat}
    (isHeap : state.klass obj = .heap near) :
    state.queue obj = [] := by
  rw [queue, isHeap]

/-- The real near of an object, also when it is locked. -/
def realNear (state : State) (obj : Nat) : Option JavaNear :=
  match state.klass obj with
  | .heap near => some (state.nears near)
  | .stack lock => (state.locks lock).realJavaNear.map state.nears

theorem realNear_of_heap
    {obj near : Nat}
    (isHeap : state.klass obj = .heap near) :
    state.realNear obj = some (state.nears near) := by
  rw [realNear, isHeap]

theorem realNear_of_stack
    {obj lock : Nat}
    (isStack : state.klass obj = .stack lock) :
    state.realNear obj = (state.locks lock).realJavaNear.map state.nears := by
  rw [realNear, isStack]

@[simp] theorem putLock_stackLocks (lock thread : Nat) (stackLock : StackLock) :
    (state.putLock lock stackLock).stackLocks thread = state.stackLocks thread :=
  rfl

@[simp] theorem putKlass_stackLocks (obj thread : Nat) (pointer : NearPointer) :
    (state.putKlass obj pointer).stackLocks thread = state.stackLocks thread :=
  rfl

@[simp] theorem putThread_queue (obj thread : Nat) (value : JavaThread) :
    (state.putThread thread value).queue obj = state.queue obj :=
  rfl

theorem stackLocks_of_frames
    {state' : State} {thread : Nat}
    (frames : (state'.threads thread).frames = (state.threads thread).frames) :
    state'.stackLocks thread = state.stackLocks thread := by
  rw [stackLocks, frames, stackLocks]

end State

/-! ## The invariant -/

/-- The word of the near of a locked object. -/
def lockWord (waiters : List Nat) : BitVec 32 :=
  if waiters.isEmpty then lockedValue else waitersValue

theorem lockWord_isLock (waiters : List Nat) :
    lockWord waiters = lockedValue ∨ lockWord waiters = waitersValue := by
  rw [lockWord]
  split
  · exact Or.inl rfl
  · exact Or.inr rfl

/-- A stack lock that an object points at. -/
structure Locked (state : State) (obj lock : Nat) : Prop where
  owner : (state.locks lock).owner = some obj
  inStack : lock ∈ state.stackLocks (state.locks lock).thread
  real : ∃ near, (state.locks lock).realJavaNear = some near ∧ near < state.nearCount ∧
    (state.locks lock).near =
      (state.nears near).setLock (lockWord (state.locks lock).waiters)
  notWaiting : (state.threads (state.locks lock).thread).waitObj ≠ some obj

/-- The stack lock with which a thread has locked an object first: the object points at it, or the
thread waits to lock the object with it again, or the thread is loose. -/
def Holds (loose : Nat → Nat → Nat → Prop) (state : State) (thread obj lock : Nat) : Prop :=
  (state.klass obj = .stack lock ∧ (state.locks lock).thread = thread) ∨
    ((state.threads thread).waitObj = some obj ∧
      (state.threads thread).waitStackLock = some lock) ∨
    loose thread obj lock

/-- The thread has nothing to wait for, or is out of the active queues with a free stack lock for
the object. -/
def Waits (state : State) (thread : Nat) : Prop :=
  match (state.threads thread).waitObj with
  | none => (state.threads thread).waitStackLock = none
  | some _ => (state.threads thread).isAlive = true ∧ (state.threads thread).isActive = false ∧
      ∃ lock, (state.threads thread).waitStackLock = some lock ∧
        lock ∈ state.stackLocks thread ∧ (state.locks lock).owner = none

/-- Every stack lock in use lies in one frame. -/
structure Placement (state : State) : Prop where
  nodup : ∀ thread, (state.stackLocks thread).Nodup
  apart : ∀ {thread thread' lock}, lock ∈ state.stackLocks thread →
    lock ∈ state.stackLocks thread' → thread = thread'
  below : ∀ {thread lock}, lock ∈ state.stackLocks thread → lock < state.lockCount
  fresh : ∀ {lock}, state.lockCount ≤ lock → (state.locks lock).owner = none

/-- Every thread that waits for an object stands in one list of the object, once. -/
structure Listed (pending : Nat → List Nat) (state : State) : Prop where
  waits : ∀ thread, Waits state thread
  mem_iff : ∀ thread obj, thread ∈ pending obj ++ state.queue obj ++ state.waiting obj ↔
    (state.threads thread).waitObj = some obj
  nodup : ∀ obj, (pending obj ++ state.queue obj ++ state.waiting obj).Nodup

/-- A thread that is not active and waits for no object sleeps, or has ended. -/
structure Resting (state : State) : Prop where
  mem_iff : ∀ thread, thread ∈ state.sleeping ↔ (state.threads thread).isAlive = true ∧
    (state.threads thread).isActive = false ∧ (state.threads thread).waitObj = none
  nodup : state.sleeping.Nodup
  dead : ∀ thread, (state.threads thread).isAlive = false →
    (state.threads thread).isActive = false ∧ (state.threads thread).frames = []

/-- A stack lock has its object locked, or lies above another one that has. -/
def Owned (loose : Nat → Nat → Nat → Prop) (state : State) (thread lock obj : Nat) : Prop :=
  state.klass obj = .stack lock ∨
    ((state.locks lock).realJavaNear = none ∧ ∃ first, Holds loose state thread obj first ∧
      [lock, first].Sublist (state.stackLocks thread))

/-- `reals` are the nears that the objects have when they are not locked. -/
structure Invariant (reals : Nat → JavaNear) (loose : Nat → Nat → Nat → Prop)
    (pending : Nat → List Nat) (state : State) : Prop where
  placement : Placement state
  unlocked : ∀ near, (state.nears near).lockValue = unlockedValue
  known : ∀ {obj near}, state.klass obj = .heap near → near < state.nearCount
  reals : ∀ obj, state.realNear obj = some (reals obj)
  locked : ∀ {obj lock}, state.klass obj = .stack lock → Locked state obj lock
  owned : ∀ {thread lock obj}, lock ∈ state.stackLocks thread →
    (state.locks lock).owner = some obj → Owned loose state thread lock obj
  listed : Listed pending state
  resting : Resting state

/-- No thread is loose. -/
def nowhere : Nat → Nat → Nat → Prop := fun _ _ _ => False

/-- No thread is pending. -/
def nobody : Nat → List Nat := fun _ => []

section Consequences

variable {reals : Nat → JavaNear} {loose : Nat → Nat → Nat → Prop} {pending : Nat → List Nat}

theorem Invariant.waitObj_of_active
    (invariant : Invariant reals loose pending state)
    {thread : Nat}
    (active : (state.threads thread).isActive = true) :
    (state.threads thread).waitObj = none := by
  have waits := invariant.listed.waits thread
  rw [Waits] at waits
  split at waits
  · assumption
  · rw [active] at waits
    cases waits.2.1

theorem Invariant.waits_of_some
    (invariant : Invariant reals loose pending state)
    {thread obj : Nat}
    (isWaiting : (state.threads thread).waitObj = some obj) :
    (state.threads thread).isAlive = true ∧ (state.threads thread).isActive = false ∧
      ∃ lock, (state.threads thread).waitStackLock = some lock ∧
        lock ∈ state.stackLocks thread ∧ (state.locks lock).owner = none := by
  have waits := invariant.listed.waits thread
  rw [Waits, isWaiting] at waits
  exact waits

theorem Invariant.alive_of_active
    (invariant : Invariant reals loose pending state)
    {thread : Nat}
    (active : (state.threads thread).isActive = true) :
    (state.threads thread).isAlive = true := by
  by_contra notAlive
  rw [(invariant.resting.dead thread (Bool.eq_false_iff.mpr notAlive)).1] at active
  cases active

/-- A real stack lock belongs to one object. -/
theorem Invariant.obj_unique
    (invariant : Invariant reals loose pending state)
    {obj obj' lock : Nat}
    (isStack : state.klass obj = .stack lock)
    (isStack' : state.klass obj' = .stack lock) :
    obj = obj' := by
  have owner := (invariant.locked isStack).owner
  rw [(invariant.locked isStack').owner] at owner
  exact (Option.some.inj owner).symm

/-- No object points at a free stack lock. -/
theorem Invariant.klass_ne_of_free
    (invariant : Invariant reals loose pending state)
    {lock : Nat}
    (isFree : (state.locks lock).owner = none)
    (obj : Nat) :
    state.klass obj ≠ .stack lock := by
  intro isStack
  rw [(invariant.locked isStack).owner] at isFree
  cases isFree

/-- The near of an object is locked exactly when it lies in a stack lock. -/
theorem Invariant.isLocked_iff
    (invariant : Invariant reals loose pending state)
    (obj : Nat) :
    (state.nearOf obj).isLocked = true ↔ ∃ lock, state.klass obj = .stack lock := by
  cases isKlass : state.klass obj with
  | heap near => simp [nearOf, isKlass, JavaNear.isLocked, invariant.unlocked near]
  | stack lock =>
      obtain ⟨near, _, _, isNear⟩ := (invariant.locked isKlass).real
      have isLock := lockWord_isLock (state.locks lock).waiters
      simp only [nearOf, isKlass, JavaNear.isLocked, isNear, JavaNear.lockValue_setLock _ isLock]
      rcases isLock with isLocked | isWaiters
      · rw [isLocked]
        simp [lockedValue, unlockedValue]
      · rw [isWaiters]
        simp [waitersValue, unlockedValue]

end Consequences

end PicoJvm.Monitors
