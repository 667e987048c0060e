import PicoJvm.Lib.Transducer
import PicoJvm.Monitors.HashCodes
import PicoJvm.Monitors.MonitorWaits

/-!
# Runs of the threads

Whatever the threads do in whatever order, an object has one owner, a thread that is not active
stands in one list and nobody waits for a free object, and a hash code stays.
-/

namespace PicoJvm.Monitors

open PicoJvm.Lib.Transducer
open State

variable {state : State} {reals : Nat → JavaNear}

/-! ## Steps -/

/-- What is asked of the code: a synchronized method returns only when it has left the monitor of
its object as often as it has entered it. -/
def Meets (state : State) : Event → Prop
  | .returnFrame thread => Structured state thread
  | _ => True

instance (state : State) (event : Event) : Decidable (Meets state event) := by
  cases event with
  | returnFrame thread => exact inferInstanceAs (Decidable (Structured state thread))
  | _ => exact inferInstanceAs (Decidable True)

/-- A hash code that is answered is the one of the object. -/
def Hashed (reals : Nat → JavaNear) (given : Event × Outcome) : Prop :=
  ∀ thread obj memory value, given = (.hashCode thread obj memory, .hash value) →
    value = (reals obj).hashValue ∧ value ≠ noHashValue

theorem Hashed.mono
    {reals' : Nat → JavaNear} {given : Event × Outcome}
    (hashed : Hashed reals given)
    (keeps : KeepsNears reals reals') :
    Hashed reals' given := by
  intro thread obj memory value isHash
  obtain ⟨isValue, notZero⟩ := hashed thread obj memory value isHash
  rw [isValue] at notZero
  rw [keeps.hashValue obj notZero]
  exact ⟨isValue, isValue ▸ notZero⟩

/-- A step that gives no hash keeps the nears. -/
theorem hashed_of_other
    {event : Event} {outcome : Outcome}
    (noHash : ∀ thread obj memory, event ≠ .hashCode thread obj memory) :
    Hashed reals (event, outcome) := by
  intro thread obj memory value isHash
  exact absurd (congrArg Prod.fst isHash) (noHash thread obj memory)

/-- Every step keeps the invariant, the class of an object and its hash. -/
theorem Invariant.perform
    (invariant : Invariant reals nowhere nobody state)
    {event : Event}
    (isEnabled : state.enabled event = true)
    (meets : Meets state event) :
    ∃ reals', Invariant reals' nowhere nobody (state.perform event).2 ∧
      KeepsNears reals reals' ∧ Hashed reals' (event, (state.perform event).1) := by
  have keep {state' : State} (invariant' : Invariant reals nowhere nobody state')
      {outcome : Outcome} (noHash : ∀ thread obj memory, event ≠ .hashCode thread obj memory) :
      ∃ reals', Invariant reals' nowhere nobody state' ∧ KeepsNears reals reals' ∧
        Hashed reals' (event, outcome) :=
    ⟨reals, invariant', .refl reals, hashed_of_other noHash⟩
  obtain ⟨isActive, isPossible⟩ := Bool.and_eq_true_iff.mp isEnabled
  cases event with
  | monitorEnter thread obj =>
      exact keep (invariant.monitorEnter obj isActive (by simpa using isPossible)) (by simp)
  | monitorExit thread obj => exact keep (invariant.monitorExit obj isActive) (by simp)
  | invoke thread receiver => exact keep (invariant.invoke receiver isActive) (by simp)
  | returnFrame thread => exact keep (invariant.returnFrame isActive meets) (by simp)
  | throw thread killing turns =>
      exact keep (invariant.findExceptionFrame turns killing isActive) (by simp)
  | hashCode thread obj memory =>
      obtain ⟨reals', invariant', keeps, isHash⟩ := invariant.hashCode memory obj
      refine ⟨reals', ?_, keeps, ?_⟩
      · rw [State.perform]
        split
        · next isResult => rw [isResult] at invariant'; exact invariant'
        · next isResult => rw [isResult] at invariant'; exact invariant'
      · intro thread' obj' memory' value isGiven
        rw [State.perform] at isGiven
        split at isGiven
        · simp at isGiven
        · next value' state' isResult =>
            simp only [Prod.mk.injEq, Event.hashCode.injEq, Outcome.hash.injEq] at isGiven
            obtain ⟨⟨_, rfl, _⟩, rfl⟩ := isGiven
            exact isHash _ (by rw [isResult])
  | wait thread obj => exact keep (invariant.wait obj isActive) (by simp)
  | notify thread obj all => exact keep (invariant.notify thread obj all true) (by simp)
  | finish thread obj => exact keep (invariant.notify thread obj true false) (by simp)
  | sleep thread => exact keep (invariant.sleepCurrentThread isActive) (by simp)
  | interrupt thread other => exact keep (invariant.interruptThread other) (by simp)
  | timeOut thread => exact keep (invariant.timeOut thread) (by simp)
  | start thread other => exact keep (invariant.start (by simpa using isPossible)) (by simp)
  | terminate thread =>
      exact keep (invariant.terminate isActive (by simpa using isPossible)) (by simp)

theorem Invariant.respond
    (invariant : Invariant reals nowhere nobody state)
    {event : Event}
    (meets : Meets state event) :
    ∃ reals', Invariant reals' nowhere nobody (state.respond event).2 ∧
      KeepsNears reals reals' ∧ Hashed reals' (event, (state.respond event).1) := by
  rw [State.respond]
  split
  · next isEnabled => exact invariant.perform isEnabled meets
  · exact ⟨reals, invariant, .refl reals, fun _ _ _ _ isHash => by simp at isHash⟩

/-! ## Runs -/

/-- At the start every object points at a near of the heap, and none of these is locked. -/
structure Starts (nears : Nat → JavaNear) (nearCount : Nat) (nearOf : Nat → Nat) : Prop where
  unlocked : ∀ near, (nears near).lockValue = unlockedValue
  known : ∀ obj, nearOf obj < nearCount

section Runs

variable {nears : Nat → JavaNear} {nearCount : Nat} {nearOf : Nat → Nat} {random : BitVec 32}

theorem Starts.invariant
    (starts : Starts nears nearCount nearOf) :
    Invariant (fun obj => nears (nearOf obj)) nowhere nobody
      (initial nears nearCount nearOf random) where
  placement := {
    nodup := fun _ => List.nodup_nil
    apart := fun inStack => absurd inStack List.not_mem_nil
    below := fun inStack => absurd inStack List.not_mem_nil
    fresh := fun _ => rfl }
  unlocked := starts.unlocked
  known := by
    intro obj near isHeap
    have isNear : nearOf obj = near := NearPointer.heap.inj isHeap
    rw [← isNear]
    exact starts.known obj
  reals := fun _ => rfl
  locked := fun isStack => by cases isStack
  owned := fun inStack => absurd inStack List.not_mem_nil
  listed := {
    waits := fun _ => rfl
    mem_iff := by
      intro thread obj
      simp [initial, nobody, queue]
    nodup := fun _ => List.nodup_nil }
  resting := {
    mem_iff := by
      intro thread
      simp [initial]
    nodup := List.nodup_nil
    dead := by
      intro thread isDead
      exact ⟨isDead, rfl⟩ }

/-- What holds behind every run, and of every answer in it. -/
theorem Starts.run
    (starts : Starts nears nearCount nearOf)
    {events : List Event}
    (meets : StepsMeet respond (initial nears nearCount nearOf random) Meets events) :
    ∃ reals, Invariant reals nowhere nobody
        (stateAfter respond (initial nears nearCount nearOf random) events) ∧
      ∀ given ∈ historyOf respond (initial nears nearCount nearOf random) events,
        Hashed reals given := by
  refine history_induction
    (fun history state => ∃ reals, Invariant reals nowhere nobody state ∧
      ∀ given ∈ history, Hashed reals given) ⟨_, starts.invariant, by simp⟩ ?_ meets
  rintro history current next ⟨reals, invariant, hashed⟩ meets
  obtain ⟨reals', invariant', keeps, isHashed⟩ := invariant.respond meets
  refine ⟨reals', invariant', ?_⟩
  intro given inHistory
  rw [List.mem_append, List.mem_singleton] at inHistory
  rcases inHistory with inHistory | rfl
  · exact (hashed given inHistory).mono keeps
  · exact isHashed

/-! ### Hash codes -/

/-- The thread has entered the monitor of the object and not left it, and does not wait for it. -/
def Inside (state : State) (thread obj : Nat) : Prop :=
  (∃ lock ∈ state.stackLocks thread, (state.locks lock).owner = some obj) ∧
    (state.threads thread).waitObj ≠ some obj

theorem Invariant.inside_iff
    (invariant : Invariant reals nowhere nobody state)
    (thread obj : Nat) :
    Inside state thread obj ↔ state.isLockedBy obj thread = true := by
  rw [invariant.isLockedBy_iff]
  constructor
  · rintro ⟨⟨lock, inStack, isOwner⟩, notWaiting⟩
    rcases invariant.owned inStack isOwner with isStack | ⟨_, first, holds, _⟩
    · exact ⟨lock, isStack, invariant.placement.apart (invariant.locked isStack).inStack inStack⟩
    · rcases holds with ⟨isStack, isThread⟩ | ⟨waits, _⟩ | isLoose
      · exact ⟨first, isStack, isThread⟩
      · exact absurd waits notWaiting
      · exact isLoose.elim
  · rintro ⟨lock, isStack, isThread⟩
    have isLocked := invariant.locked isStack
    rw [← isThread]
    exact ⟨⟨lock, isLocked.inStack, isLocked.owner⟩, isLocked.notWaiting⟩

/-- Where a thread is that is alive. -/
inductive Place
  | active
  | sleeping
  | notified (obj : Nat)
  | queued (obj : Nat)
  deriving DecidableEq, Repr

/-- The thread is in an active queue, sleeps, waits for a notification or waits to lock an
object. -/
def Stands (state : State) (thread : Nat) : Place → Prop
  | .active => (state.threads thread).isActive = true
  | .sleeping => thread ∈ state.sleeping
  | .notified obj => thread ∈ state.waiting obj
  | .queued obj => thread ∈ state.queue obj

section Stands

variable {thread obj : Nat}

theorem Invariant.waitObj_of_sleeping
    (invariant : Invariant reals nowhere nobody state)
    (isSleeping : thread ∈ state.sleeping) :
    (state.threads thread).waitObj = none :=
  ((invariant.resting.mem_iff thread).mp isSleeping).2.2

theorem Invariant.waitObj_of_notified
    (invariant : Invariant reals nowhere nobody state)
    (isNotified : thread ∈ state.waiting obj) :
    (state.threads thread).waitObj = some obj :=
  (invariant.listed.mem_iff thread obj).mp (List.mem_append_right _ isNotified)

theorem Invariant.waitObj_of_queued
    (invariant : Invariant reals nowhere nobody state)
    (isQueued : thread ∈ state.queue obj) :
    (state.threads thread).waitObj = some obj :=
  (invariant.listed.mem_iff thread obj).mp
    (List.mem_append_left _ (List.mem_append_right _ isQueued))

theorem Invariant.not_notified_of_queued
    (invariant : Invariant reals nowhere nobody state)
    (isQueued : thread ∈ state.queue obj) :
    thread ∉ state.waiting obj := by
  have nodup := invariant.listed.nodup obj
  intro isNotified
  exact List.disjoint_of_nodup_append nodup (List.mem_append_right _ isQueued) isNotified

/-- A thread that stands somewhere is alive. -/
theorem Invariant.alive_of_stands
    (invariant : Invariant reals nowhere nobody state)
    {place : Place}
    (stands : Stands state thread place) :
    (state.threads thread).isAlive = true := by
  cases place with
  | active => exact invariant.alive_of_active stands
  | sleeping => exact ((invariant.resting.mem_iff thread).mp stands).1
  | notified obj => exact (invariant.waits_of_some (invariant.waitObj_of_notified stands)).1
  | queued obj => exact (invariant.waits_of_some (invariant.waitObj_of_queued stands)).1

theorem Invariant.stands
    (invariant : Invariant reals nowhere nobody state)
    (isAlive : (state.threads thread).isAlive = true) :
    ∃ place, Stands state thread place := by
  by_cases isActive : (state.threads thread).isActive = true
  · exact ⟨.active, isActive⟩
  · cases isObj : (state.threads thread).waitObj with
    | none =>
        have notActive : (state.threads thread).isActive = false := by simpa using isActive
        exact ⟨.sleeping, (invariant.resting.mem_iff thread).mpr ⟨isAlive, notActive, isObj⟩⟩
    | some obj =>
        have isListed := (invariant.listed.mem_iff thread obj).mpr isObj
        rcases List.mem_append.mp isListed with isQueued | isNotified
        · rcases List.mem_append.mp isQueued with isPending | isQueued
          · exact absurd isPending List.not_mem_nil
          · exact ⟨.queued obj, isQueued⟩
        · exact ⟨.notified obj, isNotified⟩

theorem Invariant.stands_unique
    (invariant : Invariant reals nowhere nobody state)
    {place place' : Place}
    (stands : Stands state thread place)
    (stands' : Stands state thread place') :
    place = place' := by
  have waitObj (place : Place) (stands : Stands state thread place) :
      (state.threads thread).waitObj =
        match place with
        | .active | .sleeping => none
        | .notified obj | .queued obj => some obj := by
    cases place with
    | active => exact invariant.waitObj_of_active stands
    | sleeping => exact invariant.waitObj_of_sleeping stands
    | notified obj => exact invariant.waitObj_of_notified stands
    | queued obj => exact invariant.waitObj_of_queued stands
  have notActive (isSleeping : thread ∈ state.sleeping) :
      (state.threads thread).isActive = false :=
    ((invariant.resting.mem_iff thread).mp isSleeping).2.1
  have same := (waitObj place stands).symm.trans (waitObj place' stands')
  cases place <;> cases place' <;> simp only [reduceCtorEq, Option.some.injEq] at same
  · rfl
  · exact absurd (stands.symm.trans (notActive stands')) (by simp)
  · exact absurd (stands'.symm.trans (notActive stands)) (by simp)
  · rfl
  · rw [same]
  · subst same
    exact absurd stands (invariant.not_notified_of_queued stands')
  · subst same
    exact absurd stands' (invariant.not_notified_of_queued stands)
  · rw [same]

/-- The object that a thread is queued for is locked by another one, and its near tells that there
are threads to be signalled. -/
theorem Invariant.owner_of_queued
    (invariant : Invariant reals nowhere nobody state)
    (isQueued : thread ∈ state.queue obj) :
    ∃ owner, owner ≠ thread ∧ state.isLockedBy obj owner = true ∧
      (state.threads owner).isAlive = true ∧ (state.nearOf obj).lockValue = waitersValue := by
  have isWaiting := invariant.waitObj_of_queued isQueued
  cases isKlass : state.klass obj with
  | heap near =>
      rw [queue_of_heap isKlass] at isQueued
      exact absurd isQueued List.not_mem_nil
  | stack lock =>
      have isLocked := invariant.locked isKlass
      obtain ⟨near, _, _, isNear⟩ := isLocked.real
      rw [queue_of_stack isKlass] at isQueued
      refine ⟨(state.locks lock).thread, ?_, ?_, ?_, ?_⟩
      · intro isThread
        exact isLocked.notWaiting (isThread ▸ isWaiting)
      · exact (invariant.isLockedBy_iff obj _).mpr ⟨lock, isKlass, rfl⟩
      · by_contra isDead
        have noFrame := (invariant.resting.dead _ (Bool.eq_false_iff.mpr isDead)).2
        have inStack := isLocked.inStack
        rw [stackLocks, noFrame] at inStack
        exact absurd inStack List.not_mem_nil
      · have hasWaiters : (state.locks lock).waiters.isEmpty = false := by
          rw [List.isEmpty_eq_false_iff]
          exact List.ne_nil_of_mem isQueued
        have isWord : lockWord (state.locks lock).waiters = waitersValue := by
          rw [lockWord, hasWaiters]
          rfl
        have sameNear : state.nearOf obj = (state.locks lock).near := by rw [nearOf, isKlass]
        rw [sameNear, isNear, JavaNear.lockValue_setLock _ (lockWord_isLock _), isWord]

end Stands

end Runs

/-! ### A run of two threads -/

/-- All objects with one near of the heap. -/
def oneNear : State :=
  initial (fun _ => ⟨0, 0, 0⟩) 1 (fun _ => 0) 0x23451921

/-- A thread is queued for the object of another one, gets it when this waits, and gives it back. -/
def handedOver : List Event :=
  [.invoke 0 (some 5), .start 0 1, .invoke 1 (some 5), .hashCode 0 5 true, .wait 0 5,
    .notify 1 5 false, .returnFrame 1, .hashCode 0 5 true]

theorem oneNear_starts : Starts (fun _ => ⟨0, 0, 0⟩) 1 (fun _ => 0) :=
  ⟨fun _ => rfl, fun _ => Nat.one_pos⟩

theorem handedOver_meets : StepsMeet respond oneNear Meets handedOver := by
  decide

end PicoJvm.Monitors
