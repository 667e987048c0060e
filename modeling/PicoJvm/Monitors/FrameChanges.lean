import PicoJvm.Monitors.LockChanges

/-!
# Stack locks that come and go

A thread takes a stack lock for an object that it has, and leaves stack locks and frames. Objects
get nears of their own.
-/

namespace PicoJvm.Monitors

open State

variable {state state' : State} {reals : Nat → JavaNear} {loose loose' : Nat → Nat → Nat → Prop}
  {pending pending' : Nat → List Nat}

/-! ## Stack locks -/

/-- A thread that has an object takes one more stack lock for it, above the first. -/
theorem Invariant.reenter
    (invariant : Invariant reals loose pending state)
    {thread obj lock first : Nat} {value : StackLock}
    (isStack : state.klass obj = .stack first)
    (isThread : (state.locks first).thread = thread)
    (notWaiting : (state.threads thread).waitObj = none)
    (inStack : lock ∈ state.stackLocks thread)
    (isFree : (state.locks lock).owner = none)
    (above : [lock, first].Sublist (state.stackLocks thread))
    (isOwner : value.owner = some obj)
    (notReal : value.realJavaNear = none) :
    Invariant reals loose pending (state.putLock lock value) := by
  have notLock {obj' lock' : Nat} (isStack' : state.klass obj' = .stack lock') : lock' ≠ lock := by
    rintro rfl
    exact invariant.klass_ne_of_free isFree obj' isStack'
  have others {lock' : Nat} (other : lock' ≠ lock) :
      Function.update state.locks lock value lock' = state.locks lock' :=
    Function.update_of_ne other _ _
  have holds {thread' obj' first' : Nat} (isFirst : Holds loose state thread' obj' first') :
      Holds loose (state.putLock lock value) thread' obj' first' := by
    rcases isFirst with ⟨isStack', isThread'⟩ | waits | isLoose
    · exact Or.inl ⟨isStack', by simpa [others (notLock isStack')] using isThread'⟩
    · exact Or.inr (Or.inl waits)
    · exact Or.inr (Or.inr isLoose)
  exact {
    placement := by
      refine invariant.placement.of_eq (fun _ => rfl) rfl ?_
      intro lock' isFresh isFree'
      have isOther : lock' ≠ lock := by
        have inUse := invariant.placement.below inStack
        omega
      simpa [others isOther] using isFree'
    unlocked := invariant.unlocked
    known := invariant.known
    reals := by
      intro obj'
      refine realNear_kept (invariant.reals obj') rfl rfl ?_
      intro lock' isStack'
      simp [others (notLock isStack')]
    locked := by
      intro obj' lock' isStack'
      have isLocked := invariant.locked isStack'
      exact isLocked.of_eq (others (notLock isStack')) rfl isLocked.notWaiting (fun _ _ => rfl)
        (Nat.le_refl _)
    owned := by
      intro thread' lock' obj' inStack' isOwner'
      by_cases isLock : lock' = lock
      · subst isLock
        rw [putLock_locks, Function.update_self, isOwner] at isOwner'
        cases isOwner'
        cases invariant.placement.apart inStack' inStack
        exact Or.inr ⟨by simpa using notReal, first, holds (Or.inl ⟨isStack, isThread⟩), above⟩
      · rw [putLock_locks, others isLock] at isOwner'
        exact (invariant.owned inStack' isOwner').of_eq id (by simp [others isLock]) rfl
          (fun _ isFirst => holds isFirst)
    listed := by
      refine invariant.listed.of_queues ?_ ?_ rfl (fun _ => rfl)
      · intro thread'
        refine (invariant.listed.waits thread').of_eq rfl ?_
        intro lock' inStack' isFree' isWaiting
        have isOther : lock' ≠ lock := by
          rintro rfl
          rw [invariant.placement.apart inStack' inStack] at isWaiting
          have waits := invariant.listed.waits thread
          rw [Waits, notWaiting] at waits
          rw [waits] at isWaiting
          cases isWaiting
        simpa [others isOther] using isFree'
      · intro obj'
        refine queue_eq state rfl ?_
        intro lock' isStack'
        simp [others (notLock isStack')]
    resting := ⟨invariant.resting.mem_iff, invariant.resting.nodup, invariant.resting.dead⟩ }

/-- A stack lock that no object points at is freed. -/
theorem Invariant.free
    (invariant : Invariant reals loose pending state)
    {lock : Nat} {value : StackLock}
    (notReal : ∀ obj, state.klass obj ≠ .stack lock)
    (isFree : value.owner = none) :
    Invariant reals loose pending (state.putLock lock value) := by
  have notLock {obj' lock' : Nat} (isStack' : state.klass obj' = .stack lock') : lock' ≠ lock := by
    rintro rfl
    exact notReal obj' isStack'
  have others {lock' : Nat} (other : lock' ≠ lock) :
      Function.update state.locks lock value lock' = state.locks lock' :=
    Function.update_of_ne other _ _
  have freed {lock' : Nat} (isFree' : (state.locks lock').owner = none) :
      (Function.update state.locks lock value lock').owner = none := by
    by_cases isLock : lock' = lock
    · simp [isLock, isFree]
    · simpa [others isLock] using isFree'
  exact {
    placement := invariant.placement.of_eq (fun _ => rfl) rfl (fun _ _ isFree' => freed isFree')
    unlocked := invariant.unlocked
    known := invariant.known
    reals := by
      intro obj'
      refine realNear_kept (invariant.reals obj') rfl rfl ?_
      intro lock' isStack'
      simp [others (notLock isStack')]
    locked := by
      intro obj' lock' isStack'
      have isLocked := invariant.locked isStack'
      exact isLocked.of_eq (others (notLock isStack')) rfl isLocked.notWaiting (fun _ _ => rfl)
        (Nat.le_refl _)
    owned := by
      intro thread lock' obj' inStack isOwner
      have isOther : lock' ≠ lock := by
        rintro rfl
        simp [isFree] at isOwner
      rw [putLock_locks, others isOther] at isOwner
      refine (invariant.owned inStack isOwner).of_eq id (by simp [others isOther]) rfl ?_
      rintro first (⟨isStack', isThread'⟩ | waits | isLoose)
      · exact Or.inl ⟨isStack', by simpa [others (notLock isStack')] using isThread'⟩
      · exact Or.inr (Or.inl waits)
      · exact Or.inr (Or.inr isLoose)
    listed := by
      refine invariant.listed.of_queues ?_ ?_ rfl (fun _ => rfl)
      · intro thread
        exact (invariant.listed.waits thread).of_eq rfl (fun _ _ isFree' _ => freed isFree')
      · intro obj'
        refine queue_eq state rfl ?_
        intro lock' isStack'
        simp [others (notLock isStack')]
    resting := ⟨invariant.resting.mem_iff, invariant.resting.nodup, invariant.resting.dead⟩ }

/-! ## Nears -/

/-- There is a new near. -/
theorem Invariant.newNear
    (invariant : Invariant reals loose pending state)
    {near : JavaNear} {random : BitVec 32}
    (isUnlocked : near.lockValue = unlockedValue) :
    Invariant reals loose pending
      { state with
        nears := Function.update state.nears state.nearCount near
        nearCount := state.nearCount + 1
        random := random } where
  placement := invariant.placement.of_eq (fun _ => rfl) rfl (fun _ _ isFree => isFree)
  unlocked := by
    intro number
    by_cases isNew : number = state.nearCount
    · simpa [isNew] using isUnlocked
    · simpa [Function.update_of_ne isNew] using invariant.unlocked number
  known := fun isHeap => Nat.lt_succ_of_lt (invariant.known isHeap)
  reals := by
    intro obj
    have old {number : Nat} (isKnown : number < state.nearCount) :
        Function.update state.nears state.nearCount near number = state.nears number :=
      Function.update_of_ne (Nat.ne_of_lt isKnown) _ _
    have before := invariant.reals obj
    cases isKlass : state.klass obj with
    | heap number =>
        rw [realNear_of_heap isKlass] at before
        have same := old (invariant.known isKlass)
        simp only [realNear, isKlass, same]
        exact before
    | stack lock =>
        obtain ⟨number, isReal, isKnown, _⟩ := (invariant.locked isKlass).real
        rw [realNear_of_stack isKlass, isReal] at before
        have same := old isKnown
        simp only [realNear, isKlass, isReal, Option.map_some, same]
        exact before
  locked := by
    intro obj lock isStack
    have isLocked := invariant.locked isStack
    refine isLocked.of_eq rfl rfl isLocked.notWaiting ?_ (Nat.le_succ _)
    intro number isKnown
    exact Function.update_of_ne (Nat.ne_of_lt isKnown) _ _
  owned := fun inStack isOwner =>
    (invariant.owned inStack isOwner).of_eq id rfl rfl (fun _ holds => holds)
  listed := invariant.listed.of_lists
    (fun thread => (invariant.listed.waits thread).of_eq rfl (fun _ _ isFree _ => isFree))
    (fun _ => .refl _) (fun _ => rfl)
  resting := ⟨invariant.resting.mem_iff, invariant.resting.nodup, invariant.resting.dead⟩

/-- An object that is not locked gets another near. -/
theorem Invariant.repoint
    (invariant : Invariant reals loose pending state)
    {obj near number : Nat}
    (isHeap : state.klass obj = .heap near)
    (isKnown : number < state.nearCount) :
    Invariant (Function.update reals obj (state.nears number)) loose pending
      (state.putKlass obj (.heap number)) := by
  have notObj {obj' lock : Nat} (isStack : state.klass obj' = .stack lock) : obj' ≠ obj := by
    rintro rfl
    rw [isHeap] at isStack
    cases isStack
  have sameStack {obj' lock : Nat} (isStack : state.klass obj' = .stack lock) :
      (state.putKlass obj (.heap number)).klass obj' = .stack lock := by
    simp [Function.update_of_ne (notObj isStack), isStack]
  exact {
    placement := invariant.placement.of_eq (fun _ => rfl) rfl (fun _ _ isFree => isFree)
    unlocked := invariant.unlocked
    known := by
      intro obj' near' isHeap'
      by_cases isObj : obj' = obj
      · simp [isObj] at isHeap'
        rw [← isHeap']
        exact isKnown
      · exact invariant.known (by simpa [Function.update_of_ne isObj] using isHeap')
    reals := by
      intro obj'
      by_cases isObj : obj' = obj
      · subst isObj
        have isHeap' : (state.putKlass obj' (.heap number)).klass obj' = .heap number := by simp
        rw [realNear_of_heap isHeap', Function.update_self]
        rfl
      · rw [Function.update_of_ne isObj]
        refine realNear_kept (invariant.reals obj') rfl ?_ (fun _ _ => rfl)
        simp [Function.update_of_ne isObj]
    locked := by
      intro obj' lock isStack
      by_cases isObj : obj' = obj
      · simp [isObj] at isStack
      · have isLocked := invariant.locked
          (show state.klass obj' = .stack lock by simpa [Function.update_of_ne isObj] using isStack)
        exact isLocked.of_eq rfl rfl isLocked.notWaiting (fun _ _ => rfl) (Nat.le_refl _)
    owned := by
      intro thread lock obj' inStack isOwner
      refine (invariant.owned inStack isOwner).of_eq sameStack rfl rfl ?_
      rintro first (⟨isStack, isThread⟩ | waits | isLoose)
      · exact Or.inl ⟨sameStack isStack, isThread⟩
      · exact Or.inr (Or.inl waits)
      · exact Or.inr (Or.inr isLoose)
    listed := by
      refine invariant.listed.of_queues ?_ ?_ rfl (fun _ => rfl)
      · intro thread
        exact (invariant.listed.waits thread).of_eq rfl (fun _ _ isFree _ => isFree)
      · intro obj'
        by_cases isObj : obj' = obj
        · subst isObj
          have isHeap' : (state.putKlass obj' (.heap number)).klass obj' = .heap number := by simp
          rw [queue_of_heap isHeap, queue_of_heap isHeap']
        · exact queue_eq state (by simp [Function.update_of_ne isObj]) (fun _ _ => rfl)
    resting := ⟨invariant.resting.mem_iff, invariant.resting.nodup, invariant.resting.dead⟩ }

/-- The stack lock of an object gets another real near, and a copy of it. -/
theorem Invariant.renear
    (invariant : Invariant reals loose pending state)
    {obj lock number : Nat}
    (isStack : state.klass obj = .stack lock)
    (isKnown : number < state.nearCount) :
    Invariant (Function.update reals obj (state.nears number)) loose pending
      (state.putLock lock
        { state.locks lock with
          realJavaNear := some number
          near := (state.nears number).setLock (lockWord (state.locks lock).waiters) }) := by
  have owners (lock' : Nat) :
      ((state.putLock lock
        { state.locks lock with
          realJavaNear := some number
          near := (state.nears number).setLock (lockWord (state.locks lock).waiters) }).locks
            lock').owner = (state.locks lock').owner := by
    by_cases isLock : lock' = lock
    · simp [isLock]
    · simp [Function.update_of_ne isLock]
  have isLocked := invariant.locked isStack
  exact {
    placement := invariant.placement.of_eq (fun _ => rfl) rfl
      (fun lock' _ isFree => (owners lock').trans isFree)
    unlocked := invariant.unlocked
    known := invariant.known
    reals := by
      intro obj'
      by_cases isObj : obj' = obj
      · subst isObj
        rw [realNear, Function.update_self]
        simp [isStack]
      · rw [Function.update_of_ne isObj]
        refine realNear_kept (invariant.reals obj') rfl rfl ?_
        · intro lock' isStack'
          have isOther : lock' ≠ lock := by
            rintro rfl
            exact isObj (invariant.obj_unique isStack' isStack)
          simp [Function.update_of_ne isOther]
    locked := by
      intro obj' lock' isStack'
      by_cases isLock : lock' = lock
      · subst isLock
        cases invariant.obj_unique isStack isStack'
        exact {
          owner := (owners lock').trans isLocked.owner
          inStack := by simpa using isLocked.inStack
          real := ⟨number, by simp, isKnown, by simp⟩
          notWaiting := by simpa using isLocked.notWaiting }
      · have isLocked' := invariant.locked isStack'
        exact isLocked'.of_eq (by simp [Function.update_of_ne isLock]) rfl isLocked'.notWaiting
          (fun _ _ => rfl) (Nat.le_refl _)
    owned := by
      intro thread lock' obj' inStack isOwner
      rw [owners] at isOwner
      by_cases isLock : lock' = lock
      · subst isLock
        rw [isLocked.owner] at isOwner
        cases isOwner
        exact Or.inl isStack
      · refine (invariant.owned inStack isOwner).of_eq id
          (by simp [Function.update_of_ne isLock]) rfl ?_
        rintro first (⟨isStack', isThread⟩ | waits | isLoose)
        · refine Or.inl ⟨isStack', ?_⟩
          by_cases isFirst : first = lock
          · simpa [isFirst] using isFirst ▸ isThread
          · simpa [Function.update_of_ne isFirst] using isThread
        · exact Or.inr (Or.inl waits)
        · exact Or.inr (Or.inr isLoose)
    listed := by
      refine invariant.listed.of_queues ?_ ?_ rfl (fun _ => rfl)
      · intro thread
        exact (invariant.listed.waits thread).of_eq rfl
          (fun lock' _ isFree _ => (owners lock').trans isFree)
      · intro obj'
        refine queue_eq state rfl ?_
        intro lock' _
        by_cases isLock : lock' = lock
        · simp [isLock]
        · simp [Function.update_of_ne isLock]
    resting := ⟨invariant.resting.mem_iff, invariant.resting.nodup, invariant.resting.dead⟩ }

/-! ## Frames -/

/-- A thread with other frames, and another number of stack locks. -/
def State.withFrames (state : State) (thread : Nat) (frames : List Frame) (lockCount : Nat) :
    State :=
  { state.putThread thread { state.threads thread with frames := frames } with
    lockCount := lockCount }

section WithFrames

variable {thread lockCount : Nat} {frames : List Frame}

theorem withFrames_threads {thread' : Nat} (other : thread' ≠ thread) :
    (state.withFrames thread frames lockCount).threads thread' = state.threads thread' := by
  simp [State.withFrames, Function.update_of_ne other]

@[simp] theorem withFrames_self :
    (state.withFrames thread frames lockCount).threads thread =
      { state.threads thread with frames := frames } := by
  simp [State.withFrames]

@[simp] theorem withFrames_stackLocks :
    (state.withFrames thread frames lockCount).stackLocks thread =
      frames.flatMap Frame.locks := by
  simp [stackLocks]

theorem withFrames_stackLocks_of_ne {thread' : Nat} (other : thread' ≠ thread) :
    (state.withFrames thread frames lockCount).stackLocks thread' = state.stackLocks thread' := by
  refine stackLocks_of_frames ?_
  rw [withFrames_threads other]

theorem withFrames_waitObj (thread' : Nat) :
    ((state.withFrames thread frames lockCount).threads thread').waitObj =
      (state.threads thread').waitObj := by
  by_cases isThread : thread' = thread
  · subst isThread
    simp
  · rw [withFrames_threads isThread]

/-- A thread that is alive has other frames. -/
theorem Resting.withFrames
    (resting : Resting state)
    (isAlive : (state.threads thread).isAlive = true) :
    Resting (state.withFrames thread frames lockCount) where
  mem_iff := by
    intro thread'
    have before := resting.mem_iff thread'
    by_cases isThread : thread' = thread
    · subst isThread
      rw [withFrames_self]
      exact before
    · rw [withFrames_threads isThread]
      exact before
  nodup := resting.nodup
  dead := by
    intro thread' isDead
    by_cases isThread : thread' = thread
    · subst isThread
      simp [isAlive] at isDead
    · rw [withFrames_threads isThread] at isDead ⊢
      exact resting.dead thread' isDead

/-- The frames of an active thread change, but not the stack locks that are in use. -/
theorem Invariant.reframe
    (invariant : Invariant reals loose pending state)
    (isActive : (state.threads thread).isActive = true)
    (placement : Placement (state.withFrames thread frames lockCount))
    (kept : ∀ lock, lock ∈ state.stackLocks thread → (state.locks lock).owner ≠ none →
      lock ∈ frames.flatMap Frame.locks)
    (owners : ∀ lock, lock ∈ frames.flatMap Frame.locks → (state.locks lock).owner ≠ none →
      lock ∈ state.stackLocks thread)
    (above : ∀ lock first, (state.locks lock).owner ≠ none →
      [lock, first].Sublist (state.stackLocks thread) →
      [lock, first].Sublist (frames.flatMap Frame.locks)) :
    Invariant reals loose pending (state.withFrames thread frames lockCount) := by
  have notWaiting := invariant.waitObj_of_active isActive
  have isAlive := invariant.alive_of_active isActive
  exact {
    placement := placement
    unlocked := invariant.unlocked
    known := invariant.known
    reals := invariant.reals
    locked := by
      intro obj lock isStack
      have isLocked := invariant.locked isStack
      refine ⟨isLocked.owner, ?_, isLocked.real, ?_⟩
      · change lock ∈
          (state.withFrames thread frames lockCount).stackLocks (state.locks lock).thread
        by_cases isThread : (state.locks lock).thread = thread
        · have inStack := isLocked.inStack
          rw [isThread] at inStack
          rw [isThread, withFrames_stackLocks]
          exact kept lock inStack (by simp [isLocked.owner])
        · rw [withFrames_stackLocks_of_ne isThread]
          exact isLocked.inStack
      · rw [withFrames_waitObj]
        exact isLocked.notWaiting
    owned := by
      intro thread' lock obj inStack isOwner
      have hasOwner : (state.locks lock).owner ≠ none := by
        have isOwner' : (state.locks lock).owner = some obj := isOwner
        simp [isOwner']
      have holds (first : Nat) (isFirst : Holds loose state thread' obj first) :
          Holds loose (state.withFrames thread frames lockCount) thread' obj first := by
        rcases isFirst with isReal | ⟨waits, isLock⟩ | isLoose
        · exact Or.inl isReal
        · have isOther : thread' ≠ thread := by
            rintro rfl
            rw [notWaiting] at waits
            cases waits
          exact Or.inr (Or.inl (by rw [withFrames_threads isOther]; exact ⟨waits, isLock⟩))
        · exact Or.inr (Or.inr isLoose)
      by_cases isThread : thread' = thread
      · subst isThread
        rw [withFrames_stackLocks] at inStack
        rcases invariant.owned (owners lock inStack hasOwner) isOwner with
          isStack | ⟨isNone, first, isFirst, isAbove⟩
        · exact Or.inl isStack
        · refine Or.inr ⟨isNone, first, holds first isFirst, ?_⟩
          rw [withFrames_stackLocks]
          exact above lock first hasOwner isAbove
      · rw [withFrames_stackLocks_of_ne isThread] at inStack
        exact (invariant.owned inStack isOwner).of_eq id rfl (by rw [withFrames_threads isThread])
          holds
    listed := by
      refine invariant.listed.of_lists ?_ (fun _ => .refl _) withFrames_waitObj
      intro thread'
      have waits := invariant.listed.waits thread'
      by_cases isThread : thread' = thread
      · subst isThread
        rw [Waits, notWaiting] at waits
        simp [Waits, notWaiting, waits]
      · exact waits.of_eq (withFrames_threads isThread) (fun _ _ isFree _ => isFree)
    resting := invariant.resting.withFrames isAlive }

/-- A new stack lock in the latest frame. -/
theorem Invariant.pushLock
    (invariant : Invariant reals loose pending state)
    (isActive : (state.threads thread).isActive = true)
    (pushed : frames.flatMap Frame.locks = state.lockCount :: state.stackLocks thread) :
    Invariant reals loose pending (state.withFrames thread frames (state.lockCount + 1)) := by
  have placement := invariant.placement
  have isNew (thread' : Nat) : state.lockCount ∉ state.stackLocks thread' := by
    intro inStack
    exact Nat.lt_irrefl _ (placement.below inStack)
  have mem {thread' lock : Nat}
      (inStack : lock ∈ (state.withFrames thread frames (state.lockCount + 1)).stackLocks thread') :
      lock ∈ state.stackLocks thread' ∨ (lock = state.lockCount ∧ thread' = thread) := by
    by_cases isThread : thread' = thread
    · subst isThread
      rw [withFrames_stackLocks, pushed, List.mem_cons] at inStack
      rcases inStack with isLock | inStack
      · exact Or.inr ⟨isLock, rfl⟩
      · exact Or.inl inStack
    · rw [withFrames_stackLocks_of_ne isThread] at inStack
      exact Or.inl inStack
  refine invariant.reframe isActive ?_ ?_ ?_ ?_
  · exact {
      nodup := by
        intro thread'
        by_cases isThread : thread' = thread
        · subst isThread
          rw [withFrames_stackLocks, pushed]
          exact List.nodup_cons.mpr ⟨isNew thread', placement.nodup thread'⟩
        · rw [withFrames_stackLocks_of_ne isThread]
          exact placement.nodup thread'
      apart := by
        intro thread' thread'' lock inStack inStack'
        rcases mem inStack with old | ⟨isLock, isThread⟩ <;>
          rcases mem inStack' with old' | ⟨isLock', isThread'⟩
        · exact placement.apart old old'
        · exact absurd (isLock' ▸ old) (isNew thread')
        · exact absurd (isLock ▸ old') (isNew thread'')
        · rw [isThread, isThread']
      below := by
        intro thread' lock inStack
        rcases mem inStack with inStack | ⟨rfl, _⟩
        · exact Nat.lt_succ_of_lt (placement.below inStack)
        · exact Nat.lt_succ_self _
      fresh := fun isFresh => placement.fresh (Nat.le_of_succ_le isFresh) }
  · intro lock inStack _
    rw [pushed]
    exact List.mem_cons_of_mem _ inStack
  · intro lock inStack hasOwner
    rw [pushed, List.mem_cons] at inStack
    rcases inStack with rfl | inStack
    · exact absurd (placement.fresh (Nat.le_refl _)) hasOwner
    · exact inStack
  · intro lock first _ isAbove
    rw [pushed]
    exact isAbove.cons _

/-- Stack locks above others lie in the part that they are not missing from. -/
theorem sublist_of_append
    {block rest : List Nat} {lock first : Nat}
    (isAbove : [lock, first].Sublist (block ++ rest))
    (notIn : lock ∉ block) :
    [lock, first].Sublist rest := by
  obtain ⟨front, back, isSplit, inFront, inBack⟩ := List.sublist_append_iff.mp isAbove
  cases front with
  | nil => exact isSplit ▸ inBack
  | cons top front =>
      rw [List.cons_append, List.cons.injEq] at isSplit
      exact absurd (isSplit.1 ▸ inFront.subset (List.mem_cons_self ..)) notIn

/-- Free stack locks at the top of a thread are gone. -/
theorem Invariant.popLocks
    (invariant : Invariant reals loose pending state)
    (block : List Nat)
    (isActive : (state.threads thread).isActive = true)
    (popped : state.stackLocks thread = block ++ frames.flatMap Frame.locks)
    (areFree : ∀ lock ∈ block, (state.locks lock).owner = none) :
    Invariant reals loose pending (state.withFrames thread frames state.lockCount) := by
  have placement := invariant.placement
  have below (thread' : Nat) :
      ((state.withFrames thread frames state.lockCount).stackLocks thread').Sublist
        (state.stackLocks thread') := by
    by_cases isThread : thread' = thread
    · subst isThread
      rw [withFrames_stackLocks, popped]
      exact List.sublist_append_right _ _
    · rw [withFrames_stackLocks_of_ne isThread]
  have notInBlock {lock : Nat} (hasOwner : (state.locks lock).owner ≠ none) : lock ∉ block :=
    fun inBlock => hasOwner (areFree lock inBlock)
  refine invariant.reframe isActive ?_ ?_ ?_ ?_
  · exact {
      nodup := fun thread' => (placement.nodup thread').sublist (below thread')
      apart := fun inStack inStack' =>
        placement.apart ((below _).subset inStack) ((below _).subset inStack')
      below := fun inStack => placement.below ((below _).subset inStack)
      fresh := placement.fresh }
  · intro lock inStack hasOwner
    rw [popped, List.mem_append] at inStack
    exact inStack.resolve_left (notInBlock hasOwner)
  · intro lock inStack _
    rw [popped]
    exact List.mem_append_right _ inStack
  · intro lock first hasOwner isAbove
    rw [popped] at isAbove
    exact sublist_of_append isAbove (notInBlock hasOwner)

end WithFrames

end PicoJvm.Monitors
