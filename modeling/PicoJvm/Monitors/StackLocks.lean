import Mathlib.Data.BitVec
import Mathlib.Logic.Function.Basic

/-!
# Monitors

An object points at a near, which has its class, its hash and two bits for its lock. To lock the
object it is made to point at a copy of the near in a stack lock of the thread. Threads that find it
locked are queued at this stack lock, and its thread hands the object on when it leaves.
-/

namespace PicoJvm.Monitors

/-! ## Nears -/

/-- A `JavaNear`. -/
structure JavaNear where
  klass : Nat
  classInfo : Nat
  value : BitVec 32
  deriving DecidableEq, Repr

def lockMaskInPlace : BitVec 32 := 0x00000003
def hashMaskInPlace : BitVec 32 := 0xfffffffc
def hashMask : BitVec 32 := 0x3fffffff

def noHashValue : BitVec 32 := 0
def unlockedValue : BitVec 32 := 0
def lockedValue : BitVec 32 := 1
def waitersValue : BitVec 32 := 3

namespace JavaNear

def lockValue (near : JavaNear) : BitVec 32 :=
  near.value &&& lockMaskInPlace

def hashValue (near : JavaNear) : BitVec 32 :=
  (near.value &&& hashMaskInPlace).sshiftRight 2

def isLocked (near : JavaNear) : Bool :=
  near.lockValue != unlockedValue

def hasHash (near : JavaNear) : Bool :=
  near.hashValue != noHashValue

def setLock (near : JavaNear) (lockValue : BitVec 32) : JavaNear :=
  { near with value := (near.value &&& ~~~lockMaskInPlace) ||| lockValue }

def setHash (near : JavaNear) (hashValue : BitVec 32) : JavaNear :=
  { near with value := (near.value &&& ~~~hashMaskInPlace) ||| (hashValue <<< 2) }

/-! ### The two fields of the word -/

variable (near : JavaNear)

theorem and_lockMask {v : BitVec 32} (isLock : v = lockedValue ∨ v = waitersValue) :
    v &&& lockMaskInPlace = v := by
  rcases isLock with rfl | rfl <;> decide

theorem lockValue_setLock {v : BitVec 32} (isLock : v = lockedValue ∨ v = waitersValue) :
    (near.setLock v).lockValue = v := by
  have outside : ~~~lockMaskInPlace &&& lockMaskInPlace = 0#32 := by decide
  simp only [lockValue, setLock]
  rw [BitVec.and_or_distrib_right, BitVec.and_assoc, outside, and_lockMask isLock,
    BitVec.and_zero, BitVec.zero_or]

theorem hashValue_setLock {v : BitVec 32} (isLock : v = lockedValue ∨ v = waitersValue) :
    (near.setLock v).hashValue = near.hashValue := by
  have inside : ~~~lockMaskInPlace &&& hashMaskInPlace = hashMaskInPlace := by decide
  have apart : v &&& hashMaskInPlace = 0#32 := by
    rcases isLock with rfl | rfl <;> decide
  simp only [hashValue, setLock]
  rw [BitVec.and_or_distrib_right, BitVec.and_assoc, inside, apart, BitVec.or_zero]

theorem setLock_setLock {v w : BitVec 32} (isLock : v = lockedValue ∨ v = waitersValue) :
    (near.setLock v).setLock w = near.setLock w := by
  have outside : v &&& ~~~lockMaskInPlace = 0#32 := by
    rcases isLock with rfl | rfl <;> decide
  simp only [setLock]
  rw [BitVec.and_or_distrib_right, BitVec.and_assoc, BitVec.and_self, outside, BitVec.or_zero]

theorem shiftLeft_and_lockMask (hashValue : BitVec 32) :
    (hashValue <<< 2) &&& lockMaskInPlace = 0#32 := by
  ext i inside
  rw [BitVec.getElem_and, BitVec.getElem_shiftLeft]
  by_cases low : i < 2
  · simp [low]
  · have clear : (lockMaskInPlace : BitVec 32)[i] = false := by
      change Nat.testBit 3 i = false
      exact Nat.testBit_lt_two_pow (Nat.lt_of_lt_of_le (by decide : 3 < 2 ^ 2)
        (Nat.pow_le_pow_right (by decide) (by omega)))
    simp [clear]

/-- The lock bits and the others make up the word. -/
theorem masks (value : BitVec 32) :
    value = (value &&& ~~~lockMaskInPlace) ||| (value &&& lockMaskInPlace) := by
  have whole : ~~~lockMaskInPlace ||| lockMaskInPlace = BitVec.allOnes 32 := by decide
  rw [← BitVec.and_or_distrib_left, whole, BitVec.and_allOnes]

theorem setHash_setLock {v : BitVec 32} (isLock : v = lockedValue ∨ v = waitersValue)
    (hashValue : BitVec 32) :
    (near.setLock v).setHash hashValue = (near.setHash hashValue).setLock v := by
  have kept : v &&& ~~~hashMaskInPlace = v := by
    rcases isLock with rfl | rfl <;> decide
  have shifted : (hashValue <<< 2) &&& ~~~lockMaskInPlace = hashValue <<< 2 := by
    have split := masks (hashValue <<< 2)
    rw [shiftLeft_and_lockMask, BitVec.or_zero] at split
    exact split.symm
  simp only [setHash, setLock]
  rw [BitVec.and_or_distrib_right, kept, BitVec.and_or_distrib_right, shifted, BitVec.and_assoc,
    BitVec.and_assoc, BitVec.and_comm (~~~hashMaskInPlace), BitVec.or_assoc, BitVec.or_assoc,
    BitVec.or_comm v]

theorem lockValue_setHash (hashValue : BitVec 32) :
    (near.setHash hashValue).lockValue = near.lockValue := by
  have inside : ~~~hashMaskInPlace &&& lockMaskInPlace = lockMaskInPlace := by decide
  simp only [lockValue, setHash]
  rw [BitVec.and_or_distrib_right, shiftLeft_and_lockMask, BitVec.or_zero, BitVec.and_assoc,
    inside]

theorem or_one (unlocked : near.lockValue = unlockedValue) :
    ({ near with value := near.value ||| 0x1 } : JavaNear) = near.setLock lockedValue := by
  have isZero : near.value &&& lockMaskInPlace = 0#32 := unlocked
  have split := masks near.value
  rw [isZero, BitVec.or_zero] at split
  rw [setLock, ← split]
  rfl

theorem and_one (unlocked : near.lockValue = unlockedValue) : near.value &&& 0x1 = 0#32 := by
  have isZero : near.value &&& lockMaskInPlace = 0#32 := unlocked
  have part : lockMaskInPlace &&& 0x1 = 0x1 := by decide
  rw [← part, ← BitVec.and_assoc, isZero, BitVec.zero_and]

/-- A mask of lock bits. -/
theorem bits_setLock {v mask : BitVec 32} (inside : ~~~lockMaskInPlace &&& mask = 0#32) :
    (near.setLock v).value &&& mask = v &&& mask := by
  rw [setLock, BitVec.and_or_distrib_right, BitVec.and_assoc, inside, BitVec.and_zero,
    BitVec.zero_or]

end JavaNear

/-! ## State -/

/-- What an object points at: a near of the heap, or the one in a stack lock. -/
inductive NearPointer
  | heap (near : Nat)
  | stack (lock : Nat)
  deriving DecidableEq, Repr

/-- A `StackLock`, with the near and the owner that lie behind it. Its waiters are linked by
`_next_waiting`. -/
structure StackLock where
  thread : Nat
  realJavaNear : Option Nat
  waiters : List Nat
  near : JavaNear
  owner : Option Nat
  deriving DecidableEq, Repr

/-- A Java frame: whether its method is synchronized, and its stack locks, the latest first. -/
structure Frame where
  isSynchronized : Bool
  locks : List Nat
  deriving DecidableEq, Repr

/-- A thread, with the latest frame first. -/
structure JavaThread where
  frames : List Frame
  isAlive : Bool
  isActive : Bool
  waitStackLock : Option Nat
  waitObj : Option Nat
  pendingInterrupt : Bool
  deriving DecidableEq, Repr

/-- The objects, nears, stack locks and threads. The threads that wait for a notification of an
object are linked by `_next`. A new near or stack lock gets the next number. -/
structure State where
  klass : Nat → NearPointer
  nears : Nat → JavaNear
  nearCount : Nat
  locks : Nat → StackLock
  lockCount : Nat
  threads : Nat → JavaThread
  waiting : Nat → List Nat
  sleeping : List Nat
  random : BitVec 32

namespace State

def putKlass (state : State) (obj : Nat) (pointer : NearPointer) : State :=
  { state with klass := Function.update state.klass obj pointer }

def putLock (state : State) (lock : Nat) (value : StackLock) : State :=
  { state with locks := Function.update state.locks lock value }

def putThread (state : State) (thread : Nat) (value : JavaThread) : State :=
  { state with threads := Function.update state.threads thread value }

def putWaiting (state : State) (obj : Nat) (threads : List Nat) : State :=
  { state with waiting := Function.update state.waiting obj threads }

/-- The near that an object points at. -/
def nearOf (state : State) (obj : Nat) : JavaNear :=
  match state.klass obj with
  | .heap near => state.nears near
  | .stack lock => (state.locks lock).near

/-- `StackLock::from_java_oop`, of an object that is locked. -/
def fromJavaOop (state : State) (obj : Nat) : Nat :=
  match state.klass obj with
  | .heap near => near
  | .stack lock => lock

/-- The object points at a near, real or not. -/
def setKlass (state : State) (obj : Nat) (near : Option Nat) : State :=
  match near with
  | none => state
  | some near => state.putKlass obj (.heap near)

/-! ## Stack locks -/

def clearOwner (state : State) (lock : Nat) : State :=
  state.putLock lock { state.locks lock with owner := none }

def setOwner (state : State) (lock obj : Nat) : State :=
  state.putLock lock { state.locks lock with owner := some obj }

def clearRealJavaNear (state : State) (lock : Nat) : State :=
  state.putLock lock { state.locks lock with realJavaNear := none }

/-- `StackLock::set_waiters`. -/
def setWaiters (state : State) (lock : Nat) (waiters : List Nat) : State :=
  state.putLock lock
    { state.locks lock with
      near := (state.locks lock).near.setLock waitersValue
      waiters := waiters }

/-- `StackLock::lock`, of an object that is not locked. -/
def lock (state : State) (lock thread obj : Nat) : State :=
  (state.putLock lock
    { thread := thread
      realJavaNear := some (state.fromJavaOop obj)
      waiters := []
      near := (state.nearOf obj).setLock lockedValue
      owner := some obj }).putKlass obj (.stack lock)

def addToActive (state : State) (thread : Nat) : State :=
  state.putThread thread { state.threads thread with isActive := true }

def removeFromActive (state : State) (thread : Nat) : State :=
  state.putThread thread { state.threads thread with isActive := false }

def setWaitStackLock (state : State) (thread : Nat) (lock : Option Nat) : State :=
  state.putThread thread { state.threads thread with waitStackLock := lock }

def setWaitObj (state : State) (thread : Nat) (obj : Option Nat) : State :=
  state.putThread thread { state.threads thread with waitObj := obj }

/-- `Synchronizer::is_locked_by`. -/
def isLockedBy (state : State) (obj thread : Nat) : Bool :=
  (state.nearOf obj).isLocked && (state.locks (state.fromJavaOop obj)).thread == thread

/-! ## Synchronizer -/

/-- `Synchronizer::signal_waiters`. -/
def signalWaiters (state : State) (lock : Nat) : State :=
  let waiters := (state.locks lock).waiters
  let state := state.clearRealJavaNear lock
  match waiters with
  | [] => state
  | firstWaiter :: nextWaiters =>
      let state := state.addToActive firstWaiter
      match (state.threads firstWaiter).waitObj, (state.threads firstWaiter).waitStackLock with
      | some obj, some waitLock =>
          let state := state.lock waitLock firstWaiter obj
          let state :=
            if nextWaiters.isEmpty then state else state.setWaiters waitLock nextWaiters
          (state.setWaitStackLock firstWaiter none).setWaitObj firstWaiter none
      | _, _ => state

/-- `Synchronizer::exit`. -/
def exit (state : State) (lock : Nat) : State :=
  match (state.locks lock).owner with
  | none => state
  | some obj =>
      ((state.setKlass obj (state.locks lock).realJavaNear).clearOwner lock).signalWaiters lock

/-- `Synchronizer::unlock_stack_lock`. -/
def unlockStackLock (state : State) (lock : Nat) : State :=
  match (state.locks lock).owner with
  | none => state
  | some obj =>
      let realNear := (state.locks lock).realJavaNear
      let state := state.clearOwner lock
      match realNear with
      | none => state
      | some near => (state.putKlass obj (.heap near)).signalWaiters lock

/-- `Scheduler::add_sync_thread`, with the waiters behind it. -/
def addSyncThread (state : State) (thread : Nat) (pendingWaiters : List Nat) (obj : Nat) :
    State × List Nat :=
  ((state.removeFromActive thread).setWaitObj thread (some obj), pendingWaiters ++ [thread])

/-- `Synchronizer::enter`, of an object that is not an interned string. -/
def enter (state : State) (thread stackLock : Nat) : State :=
  match (state.locks stackLock).owner with
  | none => state
  | some obj =>
      if !(state.nearOf obj).isLocked then state.lock stackLock thread obj
      else
        let state := (state.setWaitStackLock thread (some stackLock)).clearOwner stackLock
        let pendingWaiters := (state.locks (state.fromJavaOop obj)).waiters
        let (state, pendingWaiters) := state.addSyncThread thread pendingWaiters obj
        state.setWaiters (state.fromJavaOop obj) pendingWaiters

/-- `local_rand`. -/
def localRand (random : BitVec 32) : BitVec 32 :=
  random * 0xDEECE66D + 0xB

/-- The loop that draws a hash, for at most so many draws. -/
def drawHash : Nat → BitVec 32 → BitVec 32 × BitVec 32
  | 0, random => (noHashValue, random)
  | draws + 1, random =>
      let random := localRand random
      let newHash := random &&& hashMask
      if newHash = noHashValue then drawHash draws random else (newHash, random)

/-- The part of `hash_code` that gives the object a hash, in a new near. -/
def giveHash (state : State) (obj : Nat) (newHash random : BitVec 32) : BitVec 32 × State :=
  let javaNear := state.nearOf obj
  let newNear := ({ javaNear with value := 0 } : JavaNear).setHash newHash
  let number := state.nearCount
  let state :=
    { state with
      nears := Function.update state.nears number newNear
      nearCount := number + 1
      random := random }
  if !javaNear.isLocked then
    (newNear.hashValue, state.putKlass obj (.heap number))
  else
    let lock := state.fromJavaOop obj
    let state :=
      state.putLock lock
        { state.locks lock with
          realJavaNear := some number
          near := (state.locks lock).near.setHash newHash }
    ((state.nearOf obj).hashValue, state)

/-- `Synchronizer::hash_code`, of an object that is not an interned string. There may be no memory
for a near. -/
def hashCode (state : State) (memory : Bool) (obj : Nat) : Option (BitVec 32) × State :=
  let javaNear := state.nearOf obj
  if javaNear.hasHash then (some javaNear.hashValue, state)
  else if !memory then (none, state)
  else
    let drawn := drawHash 2 state.random
    let given := state.giveHash obj drawn.1 drawn.2
    (some given.1, given.2)

end State

end PicoJvm.Monitors
