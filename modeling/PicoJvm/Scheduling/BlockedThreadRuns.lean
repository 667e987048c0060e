import Mathlib.Tactic.SplitIfs
import PicoJvm.Scheduling.BlockedThreadSteps

/-!
# The buffer of blocked threads in every run

The states a scheduler comes to, with its lists, its counters and the room in its buffer.
-/

namespace PicoJvm.BlockedThreads

open PicoJvm.Lib

universe u

variable {thread : Type u} [DecidableEq thread]

namespace Scheduler

/-! ## Runs -/

/-- What can happen once the virtual machine was started. `pending` says whether an exception is
pending, and `allocated` whether an allocation succeeds. -/
inductive Event (thread : Type u)
  | start (started : thread) (pending allocated : Bool)
  | terminate (current : thread)
  /-- At the end of `lightweight_thread_exit`. -/
  | fitBuffer (pending allocated : Bool)
  | blockCurrentThread (current : thread)
  | unblockThread (blocked : thread)
  /-- A thread that begins to wait or to sleep. -/
  | removeFromActive (current : thread)
  /-- A thread that was woken up. -/
  | addToActive (woken : thread)
  | setPriority (moved : thread) (newPriority : Slot)
  /-- `get_next_runnable_thread` reads a list from its next thread. -/
  | turn (slot : Slot)
  /-- What the lists of waiting threads, and natives, write to the fields of threads. -/
  | setFields (links : Links thread) (globalNext : thread → Option thread)
      (asyncInfo : thread → Option ReentryData)
  | checkBlockedThreads
  | stop (current : thread)

def step (fuel : Nat) (scheduler : Scheduler thread) : Event thread → Option (Scheduler thread)
  | .start started pending allocated => scheduler.start started pending allocated
  | .terminate current => scheduler.terminate fuel current
  | .fitBuffer pending allocated =>
      some (scheduler.allocateBlockedThreadsBuffer scheduler.activeCount pending allocated).1
  | .blockCurrentThread current => scheduler.blockCurrentThread current
  | .unblockThread blocked => scheduler.unblockThread blocked
  | .removeFromActive current => scheduler.removeFromActive current
  | .addToActive woken => scheduler.addToActive woken
  | .setPriority moved newPriority => scheduler.setPriority fuel moved newPriority
  | .turn slot =>
      some { scheduler with
        priorityLists :=
          Function.update scheduler.priorityLists slot
            ((scheduler.priorityLists slot).bind scheduler.links.next) }
  | .setFields links globalNext asyncInfo =>
      some { scheduler with links := links, globalNext := globalNext, asyncInfo := asyncInfo }
  | .checkBlockedThreads => scheduler.updateBlockedThreadsBuffer
  | .stop current => some (scheduler.terminateAll current)

/-- A thread that was started and has not ended. -/
def Started (scheduler : Scheduler thread) (sought : thread) : Prop :=
  ∃ all, Linked scheduler.globalNext scheduler.globalThreadlist all ∧ sought ∈ all

/-- A thread that can run. -/
def Active (scheduler : Scheduler thread) (sought : thread) : Prop :=
  ∃ cells, scheduler.links.Circle (scheduler.priorityLists (scheduler.priority sought)) cells ∧
    sought ∈ cells

/-- A thread that is blocked asynchronously. -/
def Blocked (scheduler : Scheduler thread) (sought : thread) : Prop :=
  ∃ cells, scheduler.links.Circle scheduler.schedulerAsync cells ∧ sought ∈ cells

/-- What the callers see to. -/
def Allowed (scheduler : Scheduler thread) : Event thread → Prop
  | .start started _ _ => ¬ scheduler.Started started
  | .terminate current | .blockCurrentThread current | .removeFromActive current =>
      scheduler.Active current
  | .unblockThread blocked => scheduler.Blocked blocked
  | .addToActive woken =>
      scheduler.Started woken ∧ ¬ scheduler.Active woken ∧ ¬ scheduler.Blocked woken
  | .setFields links globalNext _ =>
      (∀ other, scheduler.Active other ∨ scheduler.Blocked other →
        links.next other = scheduler.links.next other ∧
          links.previous other = scheduler.links.previous other) ∧
      ∀ other, scheduler.Started other → globalNext other = scheduler.globalNext other
  | .fitBuffer _ _ | .setPriority _ _ | .turn _ | .checkBlockedThreads | .stop _ => True

/-- The scheduler after `initialize`. -/
structure Empty (scheduler : Scheduler thread) : Prop where
  priorityLists : ∀ slot, scheduler.priorityLists slot = none
  schedulerAsync : scheduler.schedulerAsync = none
  globalThreadlist : scheduler.globalThreadlist = none
  activeCount : scheduler.activeCount = 0
  asyncCount : scheduler.asyncCount = 0
  blockedThreadsBuffer : scheduler.blockedThreadsBuffer = none
  isBootstrapping : scheduler.isBootstrapping = true
  isStopping : scheduler.isStopping = false

/-- The allocation of `initialize_main`, without which the virtual machine does not start, and the
end of bootstrapping. -/
def initializeMain (scheduler : Scheduler thread) : Scheduler thread :=
  { (scheduler.allocateBlockedThreadsBuffer 1 false true).1 with isBootstrapping := false }

/-- The states of all runs. Classes that are in the image need no thread to be loaded, and then the
main thread is started first. -/
inductive Reached : Scheduler thread → Prop
  | empty {scheduler : Scheduler thread} : scheduler.Empty → Reached scheduler
  | romStart {scheduler scheduler' : Scheduler thread} {main : thread} {allocated : Bool} :
      scheduler.Empty →
      scheduler.start main false allocated = some scheduler' →
      Reached scheduler'
  | rom {scheduler scheduler' : Scheduler thread} {main : thread} {allocated : Bool} :
      scheduler.Empty →
      scheduler.start main false allocated = some scheduler' →
      Reached scheduler'.initializeMain
  | withoutRom {scheduler : Scheduler thread} :
      scheduler.Empty → Reached scheduler.initializeMain
  | step {scheduler scheduler' : Scheduler thread} {fuel : Nat} {event : Event thread} :
      Reached scheduler →
      scheduler.isBootstrapping = false →
      scheduler.isStopping = false →
      scheduler.Allowed event →
      scheduler.step fuel event = some scheduler' →
      Reached scheduler'

/-- The counters are those of the lists, there is room for all threads in the buffer, and so it can
be filled with the blocked ones. -/
def Fits (scheduler : Scheduler thread) : Prop :=
  ∃ blocked all,
    scheduler.links.Circle scheduler.schedulerAsync blocked ∧
    Linked scheduler.globalNext scheduler.globalThreadlist all ∧
    scheduler.asyncCount = blocked.length ∧
    scheduler.activeCount = all.length ∧
    scheduler.asyncCount ≤ scheduler.activeCount ∧
    scheduler.activeCount ≤ scheduler.capacity ∧
    ∃ buffer, scheduler.getBlockedThreads = some (scheduler.asyncCount, buffer) ∧
      ∀ index (inside : index < blocked.length),
        (buffer.getD [])[index]? = some (some (scheduler.info blocked[index]))

/-! ## The buffer -/

theorem newCapacity_some
    {currentCount targetCount count : Int}
    (isNew : newCapacity currentCount targetCount = some count) :
    targetCount ≤ count ∧ 0 ≤ count := by
  simp only [newCapacity] at isNew
  split_ifs at isNew <;> simp only [Option.some.injEq] at isNew <;> omega

theorem newCapacity_none
    {currentCount targetCount : Int}
    (kept : newCapacity currentCount targetCount = none) :
    targetCount ≤ currentCount := by
  simp only [newCapacity] at kept
  split_ifs at kept <;> omega

omit [DecidableEq thread] in
/-- The buffer is the only thing that an allocation changes. It has room for the target when there
is no exception, and it is the old one when there is one. -/
theorem allocateBlockedThreadsBuffer_spec
    (scheduler : Scheduler thread) (targetCount : Int) (pending allocated : Bool) :
    ∃ buffer,
      (scheduler.allocateBlockedThreadsBuffer targetCount pending allocated).1 =
        { scheduler with blockedThreadsBuffer := buffer } ∧
      ((scheduler.allocateBlockedThreadsBuffer targetCount pending allocated).2 = false →
        targetCount ≤ capacity { scheduler with blockedThreadsBuffer := buffer }) ∧
      (targetCount ≤ capacity { scheduler with blockedThreadsBuffer := buffer } ∨
        capacity { scheduler with blockedThreadsBuffer := buffer } = scheduler.capacity) := by
  rw [allocateBlockedThreadsBuffer]
  cases isNew : newCapacity scheduler.capacity targetCount with
  | none =>
      have enough := newCapacity_none isNew
      exact ⟨scheduler.blockedThreadsBuffer, rfl, fun _ => enough, Or.inr rfl⟩
  | some count =>
      have ⟨enough, natural⟩ := newCapacity_some isNew
      cases allocated with
      | true =>
          have room : capacity
              { scheduler with blockedThreadsBuffer := some (List.replicate count.toNat none) } =
                count := by
            simp [capacity, natural]
          exact ⟨_, rfl, fun _ => enough.trans room.ge, Or.inl (enough.trans room.ge)⟩
      | false =>
          by_cases shrinks : count < scheduler.capacity
          · refine ⟨scheduler.blockedThreadsBuffer, ?_, ?_, Or.inr rfl⟩
            · simp [shrinks]
            · intro _
              exact enough.trans shrinks.le
          · refine ⟨scheduler.blockedThreadsBuffer, ?_, ?_, Or.inr rfl⟩
            · simp [shrinks]
            · simp [shrinks]

omit [DecidableEq thread] in
theorem fillBuffer_chain
    {scheduler : Scheduler thread} {rest : List thread} {index : Nat} {first : Option thread}
    {buffer : List (Option (BlockedThreadInfo thread))}
    (chain : rest.IsChain (Joined scheduler.links.next scheduler.links.previous))
    (starts : ∀ cell ∈ rest.head?, first = some cell)
    (room : index + rest.length ≤ buffer.length) :
    ∃ filled, fillBuffer scheduler rest.length index first buffer = some filled ∧
      filled.length = buffer.length ∧
      (∀ before < index, filled[before]? = buffer[before]?) ∧
      ∀ behind (inside : behind < rest.length),
        filled[index + behind]? = some (some (scheduler.info rest[behind])) := by
  induction rest generalizing index first buffer with
  | nil =>
      exact ⟨buffer, rfl, rfl, fun _ _ => rfl, fun _ impossible => absurd impossible
        (Nat.not_lt_zero _)⟩
  | cons blocked rest inductionHypothesis =>
      have inside : index < buffer.length := by
        rw [List.length_cons] at room
        omega
      rw [List.isChain_cons] at chain
      have room' : index + 1 + rest.length ≤
          (buffer.set index (some (scheduler.info blocked))).length := by
        rw [List.length_cons] at room
        rw [List.length_set]
        omega
      obtain ⟨filled, isFilled, sameLength, before, behind⟩ :=
        inductionHypothesis chain.2 (fun cell isCell => (chain.1 cell isCell).1) room'
      refine ⟨filled, ?_, sameLength.trans List.length_set, ?_, ?_⟩
      · rw [starts blocked rfl]
        exact (if_pos inside).trans isFilled
      · intro position isBefore
        rw [before position (Nat.lt_succ_of_lt isBefore)]
        exact List.getElem?_set_ne isBefore.ne'
      · intro position isInside
        cases position with
        | zero =>
            rw [Nat.add_zero, before index (Nat.lt_succ_self index)]
            exact List.getElem?_set_self inside
        | succ position =>
            have atPosition := behind position (Nat.lt_of_succ_lt_succ isInside)
            rw [Nat.add_assoc, Nat.add_comm 1] at atPosition
            exact atPosition

/-! ## States in order -/

/-- A state of a run, once there is a buffer. -/
structure Sound (scheduler : Scheduler thread) (cells : Option Slot → List thread)
    (all : List thread) : Prop extends scheduler.Consistent cells all where
  room : scheduler.activeCount ≤ scheduler.capacity

omit [DecidableEq thread] in
theorem Sound.updateBlockedThreadsBuffer
    {scheduler : Scheduler thread} {cells : Option Slot → List thread} {all : List thread}
    (sound : scheduler.Sound cells all) :
    ∃ filled, scheduler.updateBlockedThreadsBuffer =
        some { scheduler with
          blockedThreadsBuffer := scheduler.blockedThreadsBuffer.map fun _ => filled } ∧
      filled.length = (scheduler.blockedThreadsBuffer.getD []).length ∧
      ∀ index (inside : index < (cells none).length),
        filled[index]? = some (some (scheduler.info (cells none)[index])) := by
  have circle := sound.onLists.circles.circle none
  have isHead : scheduler.schedulerAsync = (cells none).head? := circle.head_eq
  have counted : scheduler.asyncCount.toNat = (cells none).length := by
    rw [sound.onLists.asyncCount_eq, Int.toNat_natCast]
  have capacityIs : scheduler.capacity = (scheduler.blockedThreadsBuffer.getD []).length := by
    rw [capacity]
    cases scheduler.blockedThreadsBuffer <;> rfl
  have room : 0 + (cells none).length ≤ (scheduler.blockedThreadsBuffer.getD []).length := by
    have atMost := sound.asyncCount_le.trans sound.room
    rw [sound.onLists.asyncCount_eq, capacityIs] at atMost
    omega
  obtain ⟨filled, isFilled, sameLength, _, entries⟩ :=
    fillBuffer_chain (Circular.isChain circle) (fun cell isCell => isHead.trans isCell) room
  refine ⟨filled, ?_, sameLength, ?_⟩
  · rw [Scheduler.updateBlockedThreadsBuffer, counted, isFilled, Option.map_some]
  · intro index inside
    rw [← entries index inside, Nat.zero_add]

omit [DecidableEq thread] in
theorem Sound.fits
    {scheduler : Scheduler thread} {cells : Option Slot → List thread} {all : List thread}
    (sound : scheduler.Sound cells all) :
    scheduler.Fits := by
  refine ⟨cells none, all, sound.onLists.circles.circle none, sound.registered.linked,
    sound.onLists.asyncCount_eq, sound.registered.activeCount_eq, sound.asyncCount_le, sound.room,
    ?_⟩
  have counted := sound.onLists.asyncCount_eq
  rw [getBlockedThreads]
  by_cases none : scheduler.asyncCount = 0
  · refine ⟨_, if_pos none, ?_⟩
    intro index inside
    omega
  · obtain ⟨filled, updated, _, entries⟩ := sound.updateBlockedThreadsBuffer
    rw [if_neg none, updated]
    refine ⟨_, rfl, ?_⟩
    cases atBuffer : scheduler.blockedThreadsBuffer with
    | none =>
        have room := sound.asyncCount_le.trans sound.room
        rw [capacity, atBuffer] at room
        simp only at room
        omega
    | some buffer =>
        exact entries

end Scheduler

end PicoJvm.BlockedThreads
