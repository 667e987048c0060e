import PicoJvm.Monitors.StackLocks

/-!
# Entering and leaving monitors

What the interpreter does for `monitorenter`, `monitorexit` and synchronized methods, how an
exception leaves frames, and `wait`, `notify` and the ends of a wait.
-/

namespace PicoJvm.Monitors

/-- How a call ends for its thread. -/
inductive Outcome
  | done
  | hash (value : BitVec 32)
  | illegalMonitorState
  | interrupted
  | outOfMemory
  deriving DecidableEq, Repr

namespace State

/-! ## Stack locks of a frame -/

def topFrame (state : State) (thread : Nat) : Option Frame :=
  (state.threads thread).frames.head?

/-- The stack locks of the latest frame. -/
def monitorBlock (state : State) (thread : Nat) : List Nat :=
  match state.topFrame thread with
  | none => []
  | some frame => frame.locks

/-- A new stack lock in the latest frame. Its number is returned. -/
def allocateMonitor (state : State) (thread : Nat) : Nat × State :=
  let lock := state.lockCount
  match (state.threads thread).frames with
  | [] => (lock, state)
  | frame :: frames =>
      let state := state.putThread thread
        { state.threads thread with
          frames := { frame with locks := lock :: frame.locks } :: frames }
      (lock, { state with lockCount := lock + 1 })

/-- The loop of `monitor_enter_internal`: the last free slot in front of one for the object. -/
def findFreeSlot (state : State) (obj : Nat) (lock : Option Nat) : List Nat → Option Nat
  | [] => lock
  | slot :: slots =>
      match (state.locks slot).owner with
      | none => findFreeSlot state obj (some slot) slots
      | some owner => if owner = obj then lock else findFreeSlot state obj lock slots

/-! ## Locking and unlocking -/

/-- `lock_object`, of an object that is not an interned string. -/
def lockObject (state : State) (thread obj lock : Nat) : State :=
  let state := state.setOwner lock obj
  let nearObj := state.nearOf obj
  if nearObj.value &&& 0x1 ≠ 0 then
    -- a recursive lock has no near of its own
    if (state.locks (state.fromJavaOop obj)).thread = thread then state.clearRealJavaNear lock
    else (state.clearRealJavaNear lock).enter thread lock
  else
    (state.putLock lock
      { thread := thread
        realJavaNear := some (state.fromJavaOop obj)
        waiters := []
        near := { nearObj with value := nearObj.value ||| 0x1 }
        owner := some obj }).putKlass obj (.stack lock)

/-- `unlock_object`, of an object that is not an interned string. -/
def unlockObject (state : State) (obj lock : Nat) : State :=
  let realNear := (state.locks lock).realJavaNear
  let state := state.clearOwner lock
  match realNear with
  | none => state
  | some near =>
      let state := state.putKlass obj (.heap near)
      if (state.locks lock).near.value &&& 0x2 = 0 then state else state.signalWaiters lock

/-- `monitor_enter_internal`. -/
def monitorEnter (state : State) (thread obj : Nat) : State :=
  match state.findFreeSlot obj none (state.monitorBlock thread) with
  | some lock => state.lockObject thread obj lock
  | none =>
      let (lock, state) := state.allocateMonitor thread
      state.lockObject thread obj lock

/-- `monitor_exit_internal`. -/
def monitorExit (state : State) (thread obj : Nat) : Outcome × State :=
  match (state.monitorBlock thread).find? (fun lock => (state.locks lock).owner == some obj) with
  | none => (.illegalMonitorState, state)
  | some lock => (.done, state.unlockObject obj lock)

/-- A method is invoked; a synchronized one locks an object first. -/
def invoke (state : State) (thread : Nat) (receiver : Option Nat) : State :=
  let state := state.putThread thread
    { state.threads thread with
      frames := ⟨receiver.isSome, []⟩ :: (state.threads thread).frames }
  match receiver with
  | none => state
  | some obj =>
      let (lock, state) := state.allocateMonitor thread
      state.lockObject thread obj lock

/-- `unlock_synchronized_method_internal`. -/
def unlockSynchronizedMethod (state : State) (thread : Nat) : Outcome × State :=
  match (state.monitorBlock thread).getLast? with
  | none => (.illegalMonitorState, state)
  | some lock =>
      match (state.locks lock).owner with
      | none => (.illegalMonitorState, state)
      | some obj => (.done, state.unlockObject obj lock)

/-- The frame of the thread is removed. -/
def popFrame (state : State) (thread : Nat) : State :=
  state.putThread thread
    { state.threads thread with frames := (state.threads thread).frames.tail }

/-- `unlock_activation`, and the return when it does not throw. -/
def returnFrame (state : State) (thread : Nat) : Outcome × State :=
  match state.topFrame thread with
  | none => (.done, state)
  | some frame =>
      if frame.locks.isEmpty then (.done, state.popFrame thread)
      else
        let (outcome, state) :=
          if frame.isSynchronized then state.unlockSynchronizedMethod thread else (.done, state)
        if outcome = .done then
          if frame.locks.all (fun lock => (state.locks lock).owner == none) then
            (.done, state.popFrame thread)
          else (.illegalMonitorState, state)
        else (outcome, state)

/-- What an exception does to one stack lock of a frame, and whether it was locked. -/
def unlockSlot (result : Bool × State) (lock : Nat) : Bool × State :=
  if (result.2.locks lock).owner = none then result
  else (true, result.2.unlockStackLock lock)

/-- What an exception does to the stack locks of a frame, the first one first, and whether one of
them was locked that should not be. -/
def unlockFrame (state : State) (frame : Frame) : Bool × State :=
  let start :=
    if frame.isSynchronized then
      match frame.locks.getLast? with
      | none => (true, state)
      | some lock =>
          if (state.locks lock).owner = none then (true, state)
          else (false, state.unlockStackLock lock)
    else (false, state)
  frame.locks.reverse.foldl unlockSlot start

/-- The loop of `find_exception_frame`. It is told at each turn whether the frame has a handler;
behind the last turn there is one. An exception that kills its thread is sticky from the start. -/
def findExceptionFrame (thread : Nat) : List Bool → Bool → State → State
  | [], _, state => state
  | true :: _, _, state => state
  | false :: turns, stickyException, state =>
      match state.topFrame thread with
      | none => state
      | some frame =>
          let (monitorError, state) := state.unlockFrame frame
          if monitorError && !stickyException then findExceptionFrame thread turns true state
          else findExceptionFrame thread turns stickyException (state.popFrame thread)

/-! ## Waiting -/

/-- `Scheduler::add_waiting_thread`. -/
def addWaitingThread (state : State) (thread obj : Nat) : State :=
  let state := state.removeFromActive thread
  let state := state.putWaiting obj (state.waiting obj ++ [thread])
  state.setWaitObj thread (some obj)

/-- `Scheduler::remove_waiting_thread`. -/
def removeWaitingThread (state : State) (thread : Nat) : State :=
  match (state.threads thread).waitObj with
  | none => { state with sleeping := state.sleeping.erase thread }
  | some obj => state.putWaiting obj ((state.waiting obj).erase thread)

/-- `Scheduler::wait`, of an object that is not an interned string. -/
def wait (state : State) (thread obj : Nat) : Outcome × State :=
  if !state.isLockedBy obj thread then (.illegalMonitorState, state)
  else if (state.threads thread).pendingInterrupt then
    (.interrupted,
      state.putThread thread { state.threads thread with pendingInterrupt := false })
  else
    let stackLock := state.fromJavaOop obj
    let state := (state.exit stackLock).setWaitStackLock thread (some stackLock)
    (.done, state.addWaitingThread thread obj)

/-- `Scheduler::notify_wakeup`. -/
def notifyWakeup (state : State) (thread : Nat) : State :=
  let state := state.addToActive thread
  match (state.threads thread).waitObj, (state.threads thread).waitStackLock with
  | some obj, some stackLock =>
      let state := state.setOwner stackLock obj
      ((state.setWaitStackLock thread none).setWaitObj thread none).enter thread stackLock
  | _, _ => state

/-- The loop of `Scheduler::notify`. -/
def wakeAll (state : State) : List Nat → State
  | [] => state
  | waker :: wakers => wakeAll ((state.removeWaitingThread waker).notifyWakeup waker) wakers

/-- `Scheduler::notify`, of an object that is not an interned string. -/
def notify (state : State) (thread obj : Nat) (all mustBeOwner : Bool) : Outcome × State :=
  if mustBeOwner && !state.isLockedBy obj thread then (.illegalMonitorState, state)
  else (.done, state.wakeAll (if all then state.waiting obj else (state.waiting obj).take 1))

/-- The thread is in the wait queue. -/
def isWaiting (state : State) (thread : Nat) : Bool :=
  match (state.threads thread).waitObj with
  | none => state.sleeping.contains thread
  | some obj => (state.waiting obj).contains thread

/-- A thread of the wait queue that has timed out is woken. -/
def timeOut (state : State) (thread : Nat) : State :=
  if state.isWaiting thread then (state.removeWaitingThread thread).notifyWakeup thread else state

/-- `Scheduler::interrupt_thread`. -/
def interruptThread (state : State) (thread : Nat) : State :=
  if state.isWaiting thread then (state.removeWaitingThread thread).notifyWakeup thread
  else state.putThread thread { state.threads thread with pendingInterrupt := true }

/-- `Scheduler::sleep_current_thread`. -/
def sleepCurrentThread (state : State) (thread : Nat) : State :=
  let state := state.removeFromActive thread
  { state with sleeping := state.sleeping ++ [thread] }

/-- `Scheduler::start`. -/
def start (state : State) (thread : Nat) : State :=
  state.putThread thread { state.threads thread with isAlive := true, isActive := true }

/-- `Scheduler::terminate`, when the thread has no frame left. -/
def terminate (state : State) (thread : Nat) : State :=
  state.putThread thread { state.threads thread with isAlive := false, isActive := false }

end State

/-! ## Events -/

/-- What happens next: a thread of the active queues does something, or a wait ends. -/
inductive Event
  | monitorEnter (thread obj : Nat)
  | monitorExit (thread obj : Nat)
  | invoke (thread : Nat) (receiver : Option Nat)
  | returnFrame (thread : Nat)
  | throw (thread : Nat) (killing : Bool) (turns : List Bool)
  | hashCode (thread obj : Nat) (memory : Bool)
  | wait (thread obj : Nat)
  | notify (thread obj : Nat) (all : Bool)
  | finish (thread obj : Nat)
  | sleep (thread : Nat)
  | interrupt (thread other : Nat)
  | timeOut (thread : Nat)
  | start (thread other : Nat)
  | terminate (thread : Nat)
  deriving DecidableEq, Repr

/-- The thread that acts. -/
def Event.thread : Event → Option Nat
  | .monitorEnter thread _ | .monitorExit thread _ | .invoke thread _ | .returnFrame thread
  | .throw thread _ _ | .hashCode thread _ _ | .wait thread _ | .notify thread _ _
  | .finish thread _ | .sleep thread | .interrupt thread _ | .start thread _
  | .terminate thread => some thread
  | .timeOut _ => none

namespace State

/-- The event can happen: its thread is active, a thread that is started is new, and one that
terminates has no frame. A method of a thread runs in a frame. -/
def enabled (state : State) (event : Event) : Bool :=
  (match event.thread with
    | none => true
    | some thread => (state.threads thread).isActive) &&
  match event with
  | .monitorEnter thread _ => (state.threads thread).frames != []
  | .start _ other => !(state.threads other).isAlive
  | .terminate thread => (state.threads thread).frames == []
  | _ => true

/-- What an event does. -/
def perform (state : State) : Event → Outcome × State
  | .monitorEnter thread obj => (.done, state.monitorEnter thread obj)
  | .monitorExit thread obj => state.monitorExit thread obj
  | .invoke thread receiver => (.done, state.invoke thread receiver)
  | .returnFrame thread => state.returnFrame thread
  | .throw thread killing turns => (.done, findExceptionFrame thread turns killing state)
  | .hashCode _ obj memory =>
      match state.hashCode memory obj with
      | (none, state) => (.outOfMemory, state)
      | (some value, state) => (.hash value, state)
  | .wait thread obj => state.wait thread obj
  | .notify thread obj all => state.notify thread obj all true
  | .finish thread obj => state.notify thread obj true false
  | .sleep thread => (.done, state.sleepCurrentThread thread)
  | .interrupt _ other => (.done, state.interruptThread other)
  | .timeOut thread => (.done, state.timeOut thread)
  | .start _ other => (.done, state.start other)
  | .terminate thread => (.done, state.terminate thread)

/-- An event that cannot happen does nothing. -/
def respond (state : State) (event : Event) : Outcome × State :=
  if state.enabled event then state.perform event else (.done, state)

/-- The virtual machine with its first thread, which is in its first method. -/
def initial (nears : Nat → JavaNear) (nearCount : Nat) (nearOf : Nat → Nat) (random : BitVec 32) :
    State where
  klass obj := .heap (nearOf obj)
  nears := nears
  nearCount := nearCount
  locks _ := ⟨0, none, [], ⟨0, 0, 0⟩, none⟩
  lockCount := 0
  threads thread := ⟨[], thread == 0, thread == 0, none, none, false⟩
  waiting _ := []
  sleeping := []
  random := random

end State

end PicoJvm.Monitors
