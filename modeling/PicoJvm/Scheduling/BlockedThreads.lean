import PicoJvm.Lib.LinkedChains
import PicoJvm.Scheduling.ThreadLists

/-!
# The scheduler's counters and the buffer of blocked threads

The threads that are blocked asynchronously are handed to the check for events in a buffer that is
allocated when a thread is started. The scheduler counts the threads that were started and those
that are blocked, apart from the lists they are on.
-/

namespace PicoJvm.BlockedThreads

open PicoJvm.Lib

universe u

/-- `ThreadObj::NUM_PRIORITY_SLOTS`, and the slot of zero. -/
abbrev Slot := Fin 11

/-- The bytes of an array that a native method keeps for its thread. -/
structure ReentryData where
  baseAddress : Nat
  length : Nat
  deriving DecidableEq

/-- `JVMSPI_BlockedThreadInfo`. -/
structure BlockedThreadInfo (thread : Type u) where
  threadId : thread
  reentryData : Option Nat
  reentryDataSize : Nat
  deriving DecidableEq

/-- The scheduler's variables, and the threads' fields that it uses. The buffer is read in units of
`JVMSPI_BlockedThreadInfo`, and a unit that was not written is `none`. -/
structure Scheduler (thread : Type u) where
  links : Links thread
  globalNext : thread → Option thread
  priority : thread → Slot
  asyncInfo : thread → Option ReentryData
  priorityLists : Slot → Option thread
  schedulerAsync : Option thread
  globalThreadlist : Option thread
  activeCount : Int
  asyncCount : Int
  blockedThreadsBuffer : Option (List (Option (BlockedThreadInfo thread)))
  isBootstrapping : Bool
  isStopping : Bool

namespace Scheduler

variable {thread : Type u}

/-- The length of the buffer, in entries. -/
def capacity (scheduler : Scheduler thread) : Int :=
  match scheduler.blockedThreadsBuffer with
  | none => 0
  | some buffer => buffer.length

/-! ## The buffer -/

/-- The number of entries that `allocate_blocked_threads_buffer` allocates, if it does. -/
def newCapacity (currentCount targetCount : Int) : Option Int :=
  let targetCount := if targetCount < 4 then 4 else targetCount
  if currentCount > targetCount then
    if currentCount - targetCount < 4 then none else some targetCount
  else if targetCount - currentCount < 4 then some (currentCount + 4)
  else some targetCount

/-- `allocate_blocked_threads_buffer`, with whether an exception is pending before and after it.
`allocated` says whether a new array can be had. -/
def allocateBlockedThreadsBuffer
    (scheduler : Scheduler thread) (targetCount : Int) (pending allocated : Bool) :
    Scheduler thread × Bool :=
  match newCapacity scheduler.capacity targetCount with
  | none => (scheduler, pending)
  | some count =>
      if allocated then
        ({ scheduler with
            blockedThreadsBuffer := some (List.replicate count.toNat none) }, pending)
      -- a buffer that cannot be made smaller is kept without an exception
      else if count < scheduler.capacity then (scheduler, pending)
      else (scheduler, true)

/-- The entry of a thread. -/
def info (scheduler : Scheduler thread) (blocked : thread) : BlockedThreadInfo thread :=
  match scheduler.asyncInfo blocked with
  | none => { threadId := blocked, reentryData := none, reentryDataSize := 0 }
  | some data =>
      { threadId := blocked, reentryData := some data.baseAddress, reentryDataSize := data.length }

/-- The loop of `update_blocked_threads_buffer`: entries are written from `index` on. There is no
result when one is written outside of the buffer or when the list of threads ends. -/
def fillBuffer (scheduler : Scheduler thread) :
    Nat → Nat → Option thread → List (Option (BlockedThreadInfo thread)) →
      Option (List (Option (BlockedThreadInfo thread)))
  | 0, _, _, buffer => some buffer
  | _ + 1, _, none, _ => none
  | count + 1, index, some blocked, buffer =>
      if index < buffer.length then
        fillBuffer scheduler count (index + 1) (scheduler.links.next blocked)
          (buffer.set index (some (scheduler.info blocked)))
      else
        none

/-- `update_blocked_threads_buffer`. -/
def updateBlockedThreadsBuffer (scheduler : Scheduler thread) : Option (Scheduler thread) :=
  (fillBuffer scheduler scheduler.asyncCount.toNat 0 scheduler.schedulerAsync
    (scheduler.blockedThreadsBuffer.getD [])).map fun buffer =>
      { scheduler with
        blockedThreadsBuffer := scheduler.blockedThreadsBuffer.map fun _ => buffer }

/-- `get_blocked_threads`: the count and the buffer's entries. -/
def getBlockedThreads (scheduler : Scheduler thread) :
    Option (Int × Option (List (Option (BlockedThreadInfo thread)))) :=
  if scheduler.asyncCount = 0 then some (scheduler.asyncCount, none)
  else
    scheduler.updateBlockedThreadsBuffer.map fun updated =>
      (scheduler.asyncCount, updated.blockedThreadsBuffer)

variable [DecidableEq thread]

/-! ## The lists -/

/-- `adjust_priority_list`, for a thread that is added. -/
def addToActive (scheduler : Scheduler thread) (added : thread) : Option (Scheduler thread) :=
  let slot := scheduler.priority added
  (addToList scheduler.links (scheduler.priorityLists slot) added).map fun (links, _) =>
    { scheduler with
      links := links
      priorityLists :=
        -- the head of a list is not changed unless it was empty
        if scheduler.priorityLists slot = none then
          Function.update scheduler.priorityLists slot (some added)
        else
          scheduler.priorityLists }

/-- `adjust_priority_list`, for a thread that is removed. -/
def removeFromActive (scheduler : Scheduler thread) (removed : thread) :
    Option (Scheduler thread) :=
  let slot := scheduler.priority removed
  (removeFromList scheduler.links (scheduler.priorityLists slot) removed).map fun (links, list) =>
    { scheduler with
      links := links
      priorityLists := Function.update scheduler.priorityLists slot list }

/-- `add_to_asynchronous`. -/
def addToAsynchronous (scheduler : Scheduler thread) (added : thread) :
    Option (Scheduler thread) :=
  (addToList scheduler.links scheduler.schedulerAsync added).map fun (links, list) =>
    { scheduler with
      asyncCount := scheduler.asyncCount + 1
      links := links
      schedulerAsync := list }

/-- `remove_from_asynchronous`. -/
def removeFromAsynchronous (scheduler : Scheduler thread) (removed : thread) :
    Option (Scheduler thread) :=
  (removeFromList scheduler.links scheduler.schedulerAsync removed).map fun (links, list) =>
    { scheduler with
      links := links
      schedulerAsync := list
      asyncCount := scheduler.asyncCount - 1 }

def addToGlobalList (scheduler : Scheduler thread) (added : thread) : Scheduler thread :=
  { scheduler with
    globalNext := Function.update scheduler.globalNext added scheduler.globalThreadlist
    globalThreadlist := some added }

/-- The loop of `terminate` that takes the thread off the global list. There is no result when the
fuel does not last. -/
def removeFromGlobalList (fuel : Nat) (scheduler : Scheduler thread) (removed : thread) :
    Option (Scheduler thread) :=
  (searchWithPrevious scheduler.globalNext (fun other => decide (other = removed)) fuel none
    scheduler.globalThreadlist).map fun
    | none => { scheduler with globalNext := Function.update scheduler.globalNext removed none }
    | some (none, found) =>
        { scheduler with
          globalThreadlist := scheduler.globalNext found
          globalNext := Function.update scheduler.globalNext removed none }
    | some (some previous, found) =>
        { scheduler with
          globalNext :=
            Function.update
              (Function.update scheduler.globalNext previous (scheduler.globalNext found))
              removed none }

/-! ## What threads do -/

/-- `start`. The thread is not started when an exception is pending after the allocation. -/
def start (scheduler : Scheduler thread) (started : thread) (pending allocated : Bool) :
    Option (Scheduler thread) :=
  let (scheduler, pending) :=
    if scheduler.isBootstrapping then (scheduler, false)
    else
      scheduler.allocateBlockedThreadsBuffer (scheduler.activeCount + 1) pending allocated
  if pending then some scheduler
  else
    (addToActive { scheduler with activeCount := scheduler.activeCount + 1 } started).map
      fun scheduler => scheduler.addToGlobalList started

/-- `terminate`, of the thread that runs. -/
def terminate (fuel : Nat) (scheduler : Scheduler thread) (terminated : thread) :
    Option (Scheduler thread) :=
  (removeFromGlobalList fuel { scheduler with activeCount := scheduler.activeCount - 1 }
    terminated).bind fun scheduler => scheduler.removeFromActive terminated

/-- `block_current_thread`. -/
def blockCurrentThread (scheduler : Scheduler thread) (current : thread) :
    Option (Scheduler thread) :=
  (scheduler.removeFromActive current).bind fun scheduler => scheduler.addToAsynchronous current

def unblockThread (scheduler : Scheduler thread) (unblocked : thread) :
    Option (Scheduler thread) :=
  (scheduler.removeFromAsynchronous unblocked).bind fun scheduler =>
    scheduler.addToActive unblocked

/-- The thread's field is given its new value, and `set_priority` moves the thread to another list
when it is on the one of its old priority. -/
def setPriority (fuel : Nat) (scheduler : Scheduler thread) (moved : thread) (newPriority : Slot) :
    Option (Scheduler thread) :=
  let list := scheduler.priorityLists (scheduler.priority moved)
  (isInList fuel scheduler.links moved list).bind fun
    | true =>
        (scheduler.removeFromActive moved).bind fun scheduler =>
          { scheduler with
            priority := Function.update scheduler.priority moved newPriority }.addToActive moved
    | false =>
        some { scheduler with priority := Function.update scheduler.priority moved newPriority }

/-- `terminate_all`, called by `JVM::stop`. -/
def terminateAll (scheduler : Scheduler thread) (current : thread) : Scheduler thread :=
  { scheduler with
    isStopping := true
    links :=
      { next := Function.update scheduler.links.next current (some current)
        previous := Function.update scheduler.links.previous current (some current) }
    priorityLists :=
      Function.update (fun _ => none) (scheduler.priority current) (some current)
    schedulerAsync := none
    asyncCount := if scheduler.schedulerAsync = none then scheduler.asyncCount else 0
    activeCount := 1 }

end Scheduler

end PicoJvm.BlockedThreads
