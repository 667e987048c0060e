import PicoJvm.Scheduling.BlockedThreadRuns

/-!
# There is room for every blocked thread

Each thing that can happen leaves a state in order, and so every run does.
-/

namespace PicoJvm.BlockedThreads.Scheduler

open PicoJvm.Lib

universe u

variable {thread : Type u} [DecidableEq thread]
  {scheduler scheduler' : Scheduler thread} {cells : Option Slot → List thread}
  {all : List thread}

/-! ## Where threads are -/

omit [DecidableEq thread] in
theorem Consistent.started_iff
    (consistent : scheduler.Consistent cells all)
    (sought : thread) :
    scheduler.Started sought ↔ sought ∈ all := by
  constructor
  · intro isStarted
    obtain ⟨all', linked, listed⟩ := isStarted
    exact consistent.registered.linked.unique linked ▸ listed
  · intro listed
    exact ⟨all, consistent.registered.linked, listed⟩

omit [DecidableEq thread] in
theorem Consistent.active_iff
    (consistent : scheduler.Consistent cells all)
    (sought : thread) :
    scheduler.Active sought ↔ sought ∈ cells (some (scheduler.priority sought)) := by
  have circle := consistent.onLists.circles.circle (some (scheduler.priority sought))
  constructor
  · intro isActive
    obtain ⟨cells', circle', listed⟩ := isActive
    exact Circular.unique circle circle' ▸ listed
  · intro listed
    exact ⟨_, circle, listed⟩

omit [DecidableEq thread] in
theorem Consistent.blocked_iff
    (consistent : scheduler.Consistent cells all)
    (sought : thread) :
    scheduler.Blocked sought ↔ sought ∈ cells none := by
  have circle := consistent.onLists.circles.circle none
  constructor
  · intro isBlocked
    obtain ⟨cells', circle', listed⟩ := isBlocked
    exact Circular.unique circle circle' ▸ listed
  · intro listed
    exact ⟨_, circle, listed⟩

omit [DecidableEq thread] in
/-- A thread that is neither active nor blocked is on none of the lists. -/
theorem Consistent.nowhere
    {sought : thread}
    (consistent : scheduler.Consistent cells all)
    (notActive : ¬ scheduler.Active sought)
    (notBlocked : ¬ scheduler.Blocked sought)
    (list : Option Slot) :
    sought ∉ cells list := by
  intro listed
  cases list with
  | none =>
      exact notBlocked ((consistent.blocked_iff sought).mpr listed)
  | some slot =>
      have isSlot := consistent.onLists.slot_eq slot sought listed
      exact notActive ((consistent.active_iff sought).mpr (isSlot.symm ▸ listed))

/-! ## Steps -/

/-- What a step leads to: a state in order, unless the virtual machine is stopped. -/
def GoesOn (scheduler' : Scheduler thread) : Prop :=
  scheduler'.isBootstrapping = false ∧
    (scheduler'.isStopping = true ∨ ∃ cells all, scheduler'.Sound cells all)

theorem start_spec
    {started : thread}
    (consistent : scheduler.Consistent cells all)
    (isNew : started ∉ all) :
    ∃ links priorityLists scheduler',
      (addToActive { scheduler with activeCount := scheduler.activeCount + 1 } started).map
          (fun scheduler => scheduler.addToGlobalList started) = some scheduler' ∧
      scheduler' =
        { scheduler with
          activeCount := scheduler.activeCount + 1
          links := links
          priorityLists := priorityLists
          globalNext := Function.update scheduler.globalNext started scheduler.globalThreadlist
          globalThreadlist := some started } ∧
      scheduler'.Consistent
        (Function.update cells (some (scheduler.priority started))
          (cells (some (scheduler.priority started)) ++ [started]))
        (started :: all) := by
  have nowhere : ∀ list, started ∉ cells list := fun list listed =>
    isNew (consistent.started list started listed)
  have counted : OnLists { scheduler with activeCount := scheduler.activeCount + 1 } cells :=
    consistent.onLists.of_fields rfl rfl rfl rfl rfl
  obtain ⟨links, priorityLists, isAdded, onLists⟩ := counted.addToActive nowhere
  refine ⟨links, priorityLists, _, ?_, rfl, ?_, ?_, ?_⟩
  · rw [isAdded]
    rfl
  · exact onLists.of_fields rfl rfl rfl rfl rfl
  · exact (consistent.registered.addToGlobalList isNew).of_fields rfl rfl rfl
  · intro list cell listed
    rcases mem_added listed with before | rfl
    · exact List.mem_cons_of_mem started (consistent.started list cell before)
    · exact List.mem_cons_self

theorem Sound.start
    {started : thread}
    (sound : scheduler.Sound cells all)
    (running : scheduler.isBootstrapping = false)
    (isNew : started ∉ all)
    (pending allocated : Bool) :
    ∃ scheduler', scheduler.start started pending allocated = some scheduler' ∧
      scheduler'.GoesOn := by
  obtain ⟨buffer, isBuffer, room, keeps⟩ :=
    allocateBlockedThreadsBuffer_spec scheduler (scheduler.activeCount + 1) pending allocated
  have consistent : Consistent { scheduler with blockedThreadsBuffer := buffer } cells all :=
    ⟨sound.onLists.of_fields rfl rfl rfl rfl rfl, sound.registered.of_fields rfl rfl rfl,
      sound.started⟩
  rw [Scheduler.start, if_neg (running ▸ Bool.false_ne_true)]
  simp only [isBuffer]
  cases pending' :
      (scheduler.allocateBlockedThreadsBuffer (scheduler.activeCount + 1) pending allocated).2 with
  | true =>
      refine ⟨_, rfl, running, Or.inr ⟨cells, all, consistent, ?_⟩⟩
      have atMost := sound.room
      rcases keeps with enough | same
      · exact (Int.le_add_one le_rfl).trans enough
      · exact same ▸ atMost
  | false =>
      obtain ⟨links, priorityLists, scheduler', isStarted, rfl, consistent'⟩ :=
        start_spec consistent isNew
      exact ⟨_, isStarted, running, Or.inr ⟨_, _, consistent', room pending'⟩⟩

theorem Sound.terminate
    {current : thread}
    (sound : scheduler.Sound cells all)
    (running : scheduler.isBootstrapping = false)
    (isActive : scheduler.Active current) :
    ∃ enough scheduler', (∀ fuel ≥ enough, scheduler.terminate fuel current = some scheduler') ∧
      scheduler'.GoesOn := by
  have listed := (sound.active_iff current).mp isActive
  have isStarted : current ∈ all := sound.started _ current listed
  obtain ⟨globalNext, globalThreadlist, unlinked, registered⟩ :=
    sound.registered.removeFromGlobalList isStarted (Nat.lt_succ_self all.length)
  have onLists : OnLists { scheduler with
      activeCount := scheduler.activeCount - 1
      globalNext := globalNext
      globalThreadlist := globalThreadlist } cells :=
    sound.onLists.of_fields rfl rfl rfl rfl rfl
  obtain ⟨links, priorityLists, isRemoved, onLists'⟩ := onLists.removeFromActive listed
  have terminates : ∀ fuel ≥ all.length + 1, scheduler.terminate fuel current =
      Scheduler.removeFromActive { scheduler with
        activeCount := scheduler.activeCount - 1
        globalNext := globalNext
        globalThreadlist := globalThreadlist } current := by
    intro fuel enough
    rw [Scheduler.terminate, removeFromGlobalList_mono unlinked enough, Option.bind_some]
  refine ⟨all.length + 1, _, fun fuel enough => (terminates fuel enough).trans isRemoved, running,
    Or.inr ⟨_, all.erase current, ⟨onLists', ?_, ?_⟩, ?_⟩⟩
  · exact registered.of_fields rfl rfl rfl
  · intro list cell isCell
    have isKept := onLists.mem_erased listed isCell
    exact (List.mem_erase_of_ne isKept.2).mpr (sound.started list cell isKept.1)
  · exact (Int.sub_le_self _ Int.one_nonneg).trans sound.room

omit [DecidableEq thread] in
theorem Sound.fitBuffer
    (sound : scheduler.Sound cells all)
    (running : scheduler.isBootstrapping = false)
    (pending allocated : Bool) :
    GoesOn
      (scheduler.allocateBlockedThreadsBuffer scheduler.activeCount pending allocated).1 := by
  obtain ⟨buffer, isBuffer, _, keeps⟩ :=
    allocateBlockedThreadsBuffer_spec scheduler scheduler.activeCount pending allocated
  rw [isBuffer]
  refine ⟨running, Or.inr ⟨cells, all, ⟨?_, ?_, sound.started⟩, ?_⟩⟩
  · exact sound.onLists.of_fields rfl rfl rfl rfl rfl
  · exact sound.registered.of_fields rfl rfl rfl
  · have atMost := sound.room
    exact keeps.elim id fun same => same ▸ atMost

theorem Sound.removeFromActive
    {current : thread}
    (sound : scheduler.Sound cells all)
    (isActive : scheduler.Active current) :
    ∃ links priorityLists,
      scheduler.removeFromActive current =
        some { scheduler with links := links, priorityLists := priorityLists } ∧
      ∃ cells', Sound { scheduler with links := links, priorityLists := priorityLists } cells' all ∧
        (∀ list, current ∉ cells' list) ∧ current ∈ all := by
  have listed := (sound.active_iff current).mp isActive
  obtain ⟨links, priorityLists, isRemoved, onLists⟩ := sound.onLists.removeFromActive listed
  refine ⟨links, priorityLists, isRemoved, _, ⟨⟨onLists, ?_, ?_⟩, sound.room⟩, ?_, ?_⟩
  · exact sound.registered.of_fields rfl rfl rfl
  · intro list cell isCell
    exact sound.started list cell (sound.onLists.mem_erased listed isCell).1
  · intro list isCell
    exact (sound.onLists.mem_erased listed isCell).2 rfl
  · exact sound.started _ current listed

theorem Sound.addToActive
    {woken : thread}
    (sound : scheduler.Sound cells all)
    (isStarted : woken ∈ all)
    (nowhere : ∀ list, woken ∉ cells list) :
    ∃ links priorityLists,
      scheduler.addToActive woken =
        some { scheduler with links := links, priorityLists := priorityLists } ∧
      ∃ cells', Sound { scheduler with links := links, priorityLists := priorityLists }
        cells' all := by
  obtain ⟨links, priorityLists, isAdded, onLists⟩ := sound.onLists.addToActive nowhere
  refine ⟨links, priorityLists, isAdded, _, ⟨onLists, ?_, ?_⟩, sound.room⟩
  · exact sound.registered.of_fields rfl rfl rfl
  · intro list cell isCell
    rcases mem_added isCell with before | rfl
    · exact sound.started list cell before
    · exact isStarted

theorem Sound.blockCurrentThread
    {current : thread}
    (sound : scheduler.Sound cells all)
    (running : scheduler.isBootstrapping = false)
    (isActive : scheduler.Active current) :
    ∃ scheduler', scheduler.blockCurrentThread current = some scheduler' ∧
      scheduler'.GoesOn := by
  obtain ⟨links, priorityLists, isRemoved, cells', sound', nowhere, isStarted⟩ :=
    sound.removeFromActive isActive
  obtain ⟨links', schedulerAsync, isAdded, onLists⟩ := sound'.onLists.addToAsynchronous nowhere
  have blocks : scheduler.blockCurrentThread current =
      Scheduler.addToAsynchronous
        { scheduler with links := links, priorityLists := priorityLists } current := by
    rw [Scheduler.blockCurrentThread, isRemoved, Option.bind_some]
  refine ⟨_, blocks.trans isAdded, running, Or.inr ⟨_, all, ⟨⟨onLists, ?_, ?_⟩, sound.room⟩⟩⟩
  · exact sound.registered.of_fields rfl rfl rfl
  · intro list cell isCell
    rcases mem_added isCell with before | rfl
    · exact sound'.started list cell before
    · exact isStarted

theorem Sound.unblockThread
    {blocked : thread}
    (sound : scheduler.Sound cells all)
    (running : scheduler.isBootstrapping = false)
    (isBlocked : scheduler.Blocked blocked) :
    ∃ scheduler', scheduler.unblockThread blocked = some scheduler' ∧ scheduler'.GoesOn := by
  have listed := (sound.blocked_iff blocked).mp isBlocked
  obtain ⟨links, schedulerAsync, isRemoved, onLists⟩ := sound.onLists.removeFromAsynchronous listed
  have sound' : Sound { scheduler with
      links := links
      schedulerAsync := schedulerAsync
      asyncCount := scheduler.asyncCount - 1 }
      (Function.update cells none ((cells none).erase blocked)) all := by
    refine ⟨⟨onLists, ?_, ?_⟩, sound.room⟩
    · exact sound.registered.of_fields rfl rfl rfl
    · intro list cell isCell
      exact sound.started list cell (sound.onLists.mem_erased listed isCell).1
  obtain ⟨links', priorityLists, isAdded, cells', sound''⟩ :=
    sound'.addToActive (sound.started none blocked listed)
      (fun list isCell => (sound.onLists.mem_erased listed isCell).2 rfl)
  have unblocks : scheduler.unblockThread blocked =
      Scheduler.addToActive { scheduler with
        links := links
        schedulerAsync := schedulerAsync
        asyncCount := scheduler.asyncCount - 1 } blocked := by
    rw [Scheduler.unblockThread, isRemoved, Option.bind_some]
  exact ⟨_, unblocks.trans isAdded, running, Or.inr ⟨cells', all, sound''⟩⟩

omit [DecidableEq thread] in
/-- Fields that are not read from the lists may change. -/
theorem Sound.of_fields
    (sound : scheduler.Sound cells all)
    (onLists : scheduler'.OnLists cells)
    (registered : scheduler'.Registered all)
    (activeCount : scheduler'.activeCount = scheduler.activeCount)
    (capacity : scheduler'.capacity = scheduler.capacity) :
    scheduler'.Sound cells all :=
  ⟨⟨onLists, registered, sound.started⟩, activeCount ▸ capacity ▸ sound.room⟩

omit [DecidableEq thread] in
theorem OnLists.of_links
    {links : Links thread}
    (onLists : scheduler.OnLists cells)
    (same : ∀ list, ∀ cell ∈ cells list,
      links.next cell = scheduler.links.next cell ∧
        links.previous cell = scheduler.links.previous cell)
    (globalNext : thread → Option thread)
    (asyncInfo : thread → Option ReentryData) :
    OnLists { scheduler with links := links, globalNext := globalNext, asyncInfo := asyncInfo }
      cells := by
  refine ⟨⟨?_, onLists.circles.apart⟩, onLists.slot_eq, onLists.asyncCount_eq⟩
  intro list
  have circle : scheduler.links.Circle (scheduler.heads list) (cells list) :=
    onLists.circles.circle list
  have headStays : heads { scheduler with
      links := links, globalNext := globalNext, asyncInfo := asyncInfo } list =
        scheduler.heads list := by
    cases list <;> rfl
  rw [headStays]
  exact Circular.congr circle (fun cell listed => (same list cell listed).1)
    (fun cell listed => (same list cell listed).2)

/-- The priority of a thread that is in no queue. -/
theorem OnLists.changePriority
    {moved : thread}
    (onLists : scheduler.OnLists cells)
    (nowhere : ∀ slot, moved ∉ cells (some slot))
    (newPriority : Slot) :
    OnLists { scheduler with
      priority := Function.update scheduler.priority moved newPriority } cells := by
  refine ⟨onLists.circles, ?_, onLists.asyncCount_eq⟩
  intro slot queued listed
  have notMoved : queued ≠ moved := fun same => nowhere slot (same ▸ listed)
  simp only [Function.update_of_ne notMoved]
  exact onLists.slot_eq slot queued listed

theorem Sound.setPriority
    (sound : scheduler.Sound cells all)
    (running : scheduler.isBootstrapping = false)
    (moved : thread)
    (newPriority : Slot) :
    ∃ enough scheduler',
      (∀ fuel ≥ enough, scheduler.setPriority fuel moved newPriority = some scheduler') ∧
        scheduler'.GoesOn := by
  have circle := sound.onLists.circles.circle (some (scheduler.priority moved))
  have answered : ∀ fuel ≥ (cells (some (scheduler.priority moved))).length,
      isInList fuel scheduler.links moved (scheduler.priorityLists (scheduler.priority moved)) =
        some (decide (moved ∈ cells (some (scheduler.priority moved)))) :=
    fun fuel enough => isInList_eq circle enough moved
  by_cases listed : moved ∈ cells (some (scheduler.priority moved))
  · obtain ⟨links, priorityLists, isRemoved, cells', sound', nowhere, isStarted⟩ :=
      sound.removeFromActive ((sound.active_iff moved).mpr listed)
    have onLists := sound'.onLists.changePriority (fun slot => nowhere (some slot)) newPriority
    have registered : Registered { scheduler with
        links := links
        priorityLists := priorityLists
        priority := Function.update scheduler.priority moved newPriority } all :=
      sound.registered.of_fields rfl rfl rfl
    obtain ⟨links', priorityLists', isAdded, cells'', sound''⟩ :=
      (sound'.of_fields onLists registered rfl rfl).addToActive isStarted nowhere
    have moves : ∀ fuel ≥ (cells (some (scheduler.priority moved))).length,
        scheduler.setPriority fuel moved newPriority =
          Scheduler.addToActive { scheduler with
            links := links
            priorityLists := priorityLists
            priority := Function.update scheduler.priority moved newPriority } moved := by
      intro fuel enough
      rw [Scheduler.setPriority, answered fuel enough, decide_eq_true listed, Option.bind_some]
      simp only [isRemoved, Option.bind_some]
    exact ⟨_, _, fun fuel enough => (moves fuel enough).trans isAdded, running,
      Or.inr ⟨cells'', all, sound''⟩⟩
  · have nowhere : ∀ slot, moved ∉ cells (some slot) := by
      intro slot isListed
      have isSlot := sound.onLists.slot_eq slot moved isListed
      exact listed (isSlot.symm ▸ isListed)
    refine ⟨(cells (some (scheduler.priority moved))).length, { scheduler with
      priority := Function.update scheduler.priority moved newPriority }, ?_, running,
      Or.inr ⟨cells, all, ?_⟩⟩
    · intro fuel enough
      rw [Scheduler.setPriority, answered fuel enough, decide_eq_false listed, Option.bind_some]
    · exact sound.of_fields (sound.onLists.changePriority nowhere newPriority)
        (sound.registered.of_fields rfl rfl rfl) rfl rfl

omit [DecidableEq thread] in
theorem Sound.turn
    (sound : scheduler.Sound cells all)
    (slot : Slot) :
    ∃ cells', Sound { scheduler with
      priorityLists :=
        Function.update scheduler.priorityLists slot
          ((scheduler.priorityLists slot).bind scheduler.links.next) } cells' all := by
  have circle : scheduler.links.Circle (scheduler.priorityLists slot) (cells (some slot)) :=
    sound.onLists.circles.circle (some slot)
  cases atSlot : cells (some slot) with
  | nil =>
      rw [atSlot] at circle
      rw [show scheduler.priorityLists slot = none from circle.head_eq, Option.bind_none]
      have same : Function.update scheduler.priorityLists slot none = scheduler.priorityLists := by
        rw [← show scheduler.priorityLists slot = none from circle.head_eq,
          Function.update_eq_self]
      rw [same]
      exact ⟨cells, sound⟩
  | cons first rest =>
      rw [atSlot] at circle
      have isFirst : scheduler.priorityLists slot = some first := circle.head_eq
      rw [isFirst] at circle
      rw [isFirst, Option.bind_some]
      have sameThreads : ∀ cell, cell ∈ rest ++ [first] ↔ cell ∈ cells (some slot) := by
        intro cell
        rw [atSlot, List.mem_append, List.mem_singleton, List.mem_cons, or_comm]
      refine ⟨Function.update cells (some slot) (rest ++ [first]), ⟨⟨?_, ?_, ?_⟩, ?_, ?_⟩,
        sound.room⟩
      · have isTurned : heads { scheduler with
            links := scheduler.links
            priorityLists :=
              Function.update scheduler.priorityLists slot (scheduler.links.next first) } =
              Function.update scheduler.heads (some slot) (scheduler.links.next first) :=
          heads_queue slot (scheduler.links.next first) scheduler.links
        have unchanged : scheduler.links.SameOutside scheduler.links [] :=
          ⟨fun _ _ => rfl, fun _ _ => rfl⟩
        rw [isTurned]
        refine sound.onLists.circles.exchange (Circular.advance circle) unchanged ?_ ?_
        · intro other different cell listed
          exact sound.onLists.circles.apart (some slot) other different.symm cell
            ((sameThreads cell).mp listed)
        · intro other different cell impossible
          exact absurd impossible List.not_mem_nil
      · intro other queued listed
        rcases eq_or_ne other slot with rfl | different
        · rw [Function.update_self] at listed
          exact sound.onLists.slot_eq other queued ((sameThreads queued).mp listed)
        · rw [Function.update_of_ne (fun same => different (Option.some.inj same))] at listed
          exact sound.onLists.slot_eq other queued listed
      · rw [Function.update_of_ne (Option.some_ne_none slot).symm]
        exact sound.onLists.asyncCount_eq
      · exact sound.registered.of_fields rfl rfl rfl
      · intro list cell listed
        rcases eq_or_ne list (some slot) with rfl | different
        · rw [Function.update_self] at listed
          exact sound.started (some slot) cell ((sameThreads cell).mp listed)
        · rw [Function.update_of_ne different] at listed
          exact sound.started list cell listed

omit [DecidableEq thread] in
theorem Sound.setFields
    {links : Links thread} {globalNext : thread → Option thread}
    (sound : scheduler.Sound cells all)
    (sameLinks : ∀ other, scheduler.Active other ∨ scheduler.Blocked other →
      links.next other = scheduler.links.next other ∧
        links.previous other = scheduler.links.previous other)
    (sameGlobal : ∀ other, scheduler.Started other →
      globalNext other = scheduler.globalNext other)
    (asyncInfo : thread → Option ReentryData) :
    Sound { scheduler with links := links, globalNext := globalNext, asyncInfo := asyncInfo }
      cells all := by
  refine sound.of_fields (sound.onLists.of_links ?_ globalNext asyncInfo) ?_ rfl rfl
  · intro list cell listed
    by_contra different
    exact sound.toConsistent.nowhere
      (fun isActive => different (sameLinks cell (Or.inl isActive)))
      (fun isBlocked => different (sameLinks cell (Or.inr isBlocked))) list listed
  · refine ⟨sound.registered.linked.congr ?_, sound.registered.distinct,
      sound.registered.activeCount_eq⟩
    intro cell listed
    exact sameGlobal cell ((sound.started_iff cell).mpr listed)

omit [DecidableEq thread] in
theorem Sound.checkBlockedThreads
    (sound : scheduler.Sound cells all) :
    ∃ buffer, scheduler.updateBlockedThreadsBuffer =
        some { scheduler with blockedThreadsBuffer := buffer } ∧
      Sound { scheduler with blockedThreadsBuffer := buffer } cells all := by
  obtain ⟨filled, updated, sameLength, _⟩ := sound.updateBlockedThreadsBuffer
  refine ⟨_, updated, sound.of_fields ?_ ?_ rfl ?_⟩
  · exact sound.onLists.of_fields rfl rfl rfl rfl rfl
  · exact sound.registered.of_fields rfl rfl rfl
  · rw [capacity, capacity]
    cases atBuffer : scheduler.blockedThreadsBuffer with
    | none =>
        rfl
    | some buffer =>
        rw [atBuffer] at sameLength
        exact congrArg Nat.cast sameLength

/-! ## Runs -/

theorem step_mono
    {fuel more : Nat} {event : Event thread}
    (stepped : scheduler.step fuel event = some scheduler')
    (enough : fuel ≤ more) :
    scheduler.step more event = some scheduler' := by
  cases event with
  | terminate current =>
      obtain ⟨unlinked, isUnlinked, isRemoved⟩ := Option.bind_eq_some_iff.mp stepped
      exact Option.bind_eq_some_iff.mpr
        ⟨unlinked, removeFromGlobalList_mono isUnlinked enough, isRemoved⟩
  | setPriority moved newPriority =>
      obtain ⟨answer, answered, isMoved⟩ := Option.bind_eq_some_iff.mp stepped
      exact Option.bind_eq_some_iff.mpr ⟨answer, isInList_mono answered enough, isMoved⟩
  | start | fitBuffer | blockCurrentThread | unblockThread | removeFromActive | addToActive | turn
  | setFields | checkBlockedThreads | stop =>
      exact stepped

/-- Whatever is allowed can be done, and leads to a state in order. -/
theorem Sound.step
    {event : Event thread}
    (sound : scheduler.Sound cells all)
    (running : scheduler.isBootstrapping = false)
    (allowed : scheduler.Allowed event) :
    ∃ enough scheduler', (∀ fuel ≥ enough, scheduler.step fuel event = some scheduler') ∧
      scheduler'.GoesOn := by
  cases event with
  | start started pending allocated =>
      have isNew : started ∉ all := fun listed => allowed ((sound.started_iff started).mpr listed)
      obtain ⟨scheduler', isStarted, goesOn⟩ := sound.start running isNew pending allocated
      exact ⟨0, scheduler', fun _ _ => isStarted, goesOn⟩
  | terminate current =>
      exact sound.terminate running allowed
  | fitBuffer pending allocated =>
      exact ⟨0, _, fun _ _ => rfl, sound.fitBuffer running pending allocated⟩
  | blockCurrentThread current =>
      obtain ⟨scheduler', isBlocked, goesOn⟩ := sound.blockCurrentThread running allowed
      exact ⟨0, scheduler', fun _ _ => isBlocked, goesOn⟩
  | unblockThread blocked =>
      obtain ⟨scheduler', isUnblocked, goesOn⟩ := sound.unblockThread running allowed
      exact ⟨0, scheduler', fun _ _ => isUnblocked, goesOn⟩
  | removeFromActive current =>
      obtain ⟨links, priorityLists, isRemoved, cells', sound', _⟩ :=
        sound.removeFromActive allowed
      exact ⟨0, _, fun _ _ => isRemoved, running, Or.inr ⟨cells', all, sound'⟩⟩
  | addToActive woken =>
      have isStarted := (sound.started_iff woken).mp allowed.1
      obtain ⟨links, priorityLists, isAdded, cells', sound'⟩ :=
        sound.addToActive isStarted (sound.nowhere allowed.2.1 allowed.2.2)
      exact ⟨0, _, fun _ _ => isAdded, running, Or.inr ⟨cells', all, sound'⟩⟩
  | setPriority moved newPriority =>
      exact sound.setPriority running moved newPriority
  | turn slot =>
      obtain ⟨cells', sound'⟩ := sound.turn slot
      exact ⟨0, _, fun _ _ => rfl, running, Or.inr ⟨cells', all, sound'⟩⟩
  | setFields links globalNext asyncInfo =>
      exact ⟨0, _, fun _ _ => rfl, running,
        Or.inr ⟨cells, all, sound.setFields allowed.1 allowed.2 asyncInfo⟩⟩
  | checkBlockedThreads =>
      obtain ⟨buffer, updated, sound'⟩ := sound.checkBlockedThreads
      exact ⟨0, _, fun _ _ => updated, running, Or.inr ⟨cells, all, sound'⟩⟩
  | stop current =>
      exact ⟨0, _, fun _ _ => rfl, running, Or.inl rfl⟩

omit [DecidableEq thread] in
theorem Empty.consistent
    (empty : scheduler.Empty) :
    scheduler.Consistent (fun _ => []) [] := by
  refine ⟨⟨⟨?_, ?_⟩, ?_, empty.asyncCount⟩,
    ⟨empty.globalThreadlist, List.nodup_nil, empty.activeCount⟩, ?_⟩
  · intro list
    cases list with
    | none =>
        rw [show scheduler.heads none = none from empty.schedulerAsync]
        exact circular_none_iff.mpr rfl
    | some slot =>
        rw [show scheduler.heads (some slot) = none from empty.priorityLists slot]
        exact circular_none_iff.mpr rfl
  · intro _ _ _ _ impossible
    exact absurd impossible List.not_mem_nil
  · intro _ _ impossible
    exact absurd impossible List.not_mem_nil
  · intro _ _ impossible
    exact absurd impossible List.not_mem_nil

omit [DecidableEq thread] in
theorem Consistent.initializeMain
    (consistent : scheduler.Consistent cells all)
    (few : all.length ≤ 1) :
    scheduler.initializeMain.Sound cells all := by
  obtain ⟨buffer, isBuffer, room, _⟩ := allocateBlockedThreadsBuffer_spec scheduler 1 false true
  have pending : (scheduler.allocateBlockedThreadsBuffer 1 false true).2 = false := by
    rw [allocateBlockedThreadsBuffer]
    cases newCapacity scheduler.capacity 1 <;> rfl
  rw [Scheduler.initializeMain, isBuffer]
  refine ⟨⟨?_, ?_, consistent.started⟩, ?_⟩
  · exact consistent.onLists.of_fields rfl rfl rfl rfl rfl
  · exact consistent.registered.of_fields rfl rfl rfl
  · have isCount := consistent.registered.activeCount_eq
    have enough := room pending
    change scheduler.activeCount ≤ capacity { scheduler with blockedThreadsBuffer := buffer }
    omega

/-- The main thread while there is no buffer. -/
theorem Empty.start
    {main : thread} {allocated : Bool}
    (empty : scheduler.Empty)
    (isStarted : scheduler.start main false allocated = some scheduler') :
    scheduler'.isBootstrapping = true ∧ ∃ cells, scheduler'.Consistent cells [main] := by
  obtain ⟨links, priorityLists, scheduler'', isStarted', isState, consistent⟩ :=
    start_spec empty.consistent List.not_mem_nil
  have starts : scheduler.start main false allocated = some scheduler'' := by
    rw [Scheduler.start, if_pos empty.isBootstrapping]
    exact isStarted'
  have same : scheduler'' = scheduler' := Option.some.inj (starts.symm.trans isStarted)
  subst same
  refine ⟨?_, _, consistent⟩
  rw [isState]
  exact empty.isBootstrapping

theorem Reached.sound
    (reached : scheduler.Reached)
    (running : scheduler.isBootstrapping = false)
    (goesOn : scheduler.isStopping = false) :
    ∃ cells all, scheduler.Sound cells all := by
  induction reached with
  | empty empty =>
      exact absurd empty.isBootstrapping (running ▸ Bool.false_ne_true)
  | romStart empty isStarted =>
      exact absurd (empty.start isStarted).1 (running ▸ Bool.false_ne_true)
  | rom empty isStarted =>
      obtain ⟨cells, consistent⟩ := (empty.start isStarted).2
      exact ⟨cells, _, consistent.initializeMain le_rfl⟩
  | withoutRom empty =>
      exact ⟨_, _, empty.consistent.initializeMain (Nat.zero_le 1)⟩
  | @step scheduler scheduler' fuel event _ wasRunning wasGoingOn allowed stepped ih =>
      obtain ⟨cells, all, sound⟩ := ih wasRunning wasGoingOn
      obtain ⟨enough, next, steps, nextGoesOn⟩ := sound.step wasRunning allowed
      have same : next = scheduler' := by
        have atMost := step_mono stepped (Nat.le_max_left fuel enough)
        exact Option.some.inj ((steps _ (Nat.le_max_right fuel enough)).symm.trans atMost)
      subst same
      rcases nextGoesOn.2 with stopped | sound'
      · exact absurd stopped (goesOn ▸ Bool.false_ne_true)
      · exact sound'

/-- Between the end of bootstrapping and the stop of the virtual machine the counters are those of
the lists, the buffer has room for all threads and takes the blocked ones, and whatever is allowed
can be done. -/
theorem blockedThreads_fit
    (reached : scheduler.Reached)
    (running : scheduler.isBootstrapping = false)
    (goesOn : scheduler.isStopping = false) :
    scheduler.Fits ∧
      ∀ event, scheduler.Allowed event →
        ∃ fuel scheduler', scheduler.step fuel event = some scheduler' := by
  obtain ⟨cells, all, sound⟩ := reached.sound running goesOn
  refine ⟨sound.fits, ?_⟩
  intro event allowed
  obtain ⟨enough, scheduler', steps, _⟩ := sound.step running allowed
  exact ⟨enough, scheduler', steps enough le_rfl⟩

/-! ## Two threads -/

/-- The scheduler after `initialize`, with all threads of the highest priority. -/
def initial : Scheduler Bool where
  links := { next := fun _ => none, previous := fun _ => none }
  globalNext := fun _ => none
  priority := fun _ => Fin.last 10
  asyncInfo := fun _ => none
  priorityLists := fun _ => none
  schedulerAsync := none
  globalThreadlist := none
  activeCount := 0
  asyncCount := 0
  blockedThreadsBuffer := none
  isBootstrapping := true
  isStopping := false

theorem initial_empty : initial.Empty :=
  ⟨fun _ => rfl, rfl, rfl, rfl, rfl, rfl, rfl, rfl⟩

/-- The main thread is started while there is no buffer. -/
def booting : Scheduler Bool :=
  (initial.start false false true).getD initial

/-- There is a buffer, and then the main thread is started. -/
def one : Scheduler Bool :=
  (initial.initializeMain.start false false true).getD initial

/-- The main thread starts another one. -/
def two : Scheduler Bool :=
  (one.start true false true).getD one

/-- The other one blocks. -/
def twoBlocked : Scheduler Bool :=
  (two.blockCurrentThread true).getD two

/-- A thread that is not on the list of all threads. -/
theorem not_started
    {state : Scheduler Bool} {sought : Bool} {all : List Bool}
    (linked : Linked state.globalNext state.globalThreadlist all)
    (outside : sought ∉ all) :
    ¬ state.Started sought := by
  intro isStarted
  obtain ⟨all', linked', listed⟩ := isStarted
  exact outside (linked.unique linked' ▸ listed)

theorem two_reached : two.Reached := by
  have nobody : Linked initial.initializeMain.globalNext initial.initializeMain.globalThreadlist
      [] := rfl
  have onlyMain : Linked one.globalNext one.globalThreadlist [false] := ⟨rfl, rfl⟩
  have first : initial.initializeMain.Allowed (.start false false true) :=
    not_started nobody List.not_mem_nil
  have second : one.Allowed (.start true false true) := not_started onlyMain (by decide)
  have isOne : initial.initializeMain.step 0 (.start false false true) = some one := rfl
  have isTwo : one.step 0 (.start true false true) = some two := rfl
  exact .step (.step (.withoutRom initial_empty) rfl rfl first isOne) rfl rfl second isTwo

theorem twoBlocked_reached : twoBlocked.Reached := by
  have circle : two.links.Circle (two.priorityLists (two.priority true)) [false, true] :=
    ⟨rfl, by decide, (Cycle.chain_coe_cons _ _ _).mpr
      (.cons_cons ⟨rfl, rfl⟩ (.cons_cons ⟨rfl, rfl⟩ (.singleton false)))⟩
  have allowed : two.Allowed (.blockCurrentThread true) := ⟨[false, true], circle, by decide⟩
  have isBlocked : two.step 0 (.blockCurrentThread true) = some twoBlocked := rfl
  exact .step two_reached rfl rfl allowed isBlocked

theorem blockedThreads_fit_two :
    (twoBlocked.asyncCount = 1 ∧ twoBlocked.activeCount = 2 ∧ twoBlocked.capacity = 4) ∧
      twoBlocked.Fits :=
  ⟨⟨rfl, rfl, rfl⟩, (blockedThreads_fit twoBlocked_reached rfl rfl).1⟩

/-- Before there is a buffer the main thread is counted, and after the stop only one thread is. -/
theorem blockedThreads_misfit :
    (booting.Reached ∧ ¬ booting.Fits) ∧
      ((two.terminateAll true).Reached ∧ ¬ (two.terminateAll true).Fits) := by
  refine ⟨⟨?_, ?_⟩, ?_, ?_⟩
  · have isStarted : initial.start false false true = some booting := rfl
    exact .romStart initial_empty isStarted
  · intro fits
    obtain ⟨_, _, _, _, _, _, _, room, _⟩ := fits
    exact absurd room (by decide)
  · have stops : two.step 0 (.stop true) = some (two.terminateAll true) := rfl
    have allowed : two.Allowed (.stop true) := trivial
    exact .step two_reached rfl rfl allowed stops
  · intro fits
    obtain ⟨_, all, _, linked, _, counted, _⟩ := fits
    have both : Linked two.globalNext two.globalThreadlist [true, false] := ⟨rfl, rfl, rfl⟩
    have isBoth : [true, false] = all := both.unique linked
    exact absurd (isBoth ▸ counted) (by decide)

end PicoJvm.BlockedThreads.Scheduler
