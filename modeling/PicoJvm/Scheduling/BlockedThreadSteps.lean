import Mathlib.Data.List.Perm.Subperm
import PicoJvm.Scheduling.BlockedThreads

/-!
# What the scheduler's operations keep

The lists a scheduler state stands for, and what each operation makes of them.
-/

namespace PicoJvm.BlockedThreads

open PicoJvm.Lib

universe u

variable {thread : Type u}

namespace Scheduler

/-! ## The lists of a state -/

/-- The heads of the circular lists: one for each priority, and the one of the blocked threads. -/
def heads (scheduler : Scheduler thread) : Option Slot → Option thread
  | some slot => scheduler.priorityLists slot
  | none => scheduler.schedulerAsync

/-- The circular lists are in order, and so is the count of the blocked threads. -/
structure OnLists (scheduler : Scheduler thread) (cells : Option Slot → List thread) : Prop where
  circles : Circles scheduler.links scheduler.heads cells
  slot_eq : ∀ slot, ∀ queued ∈ cells (some slot), scheduler.priority queued = slot
  asyncCount_eq : scheduler.asyncCount = (cells none).length

/-- The list of all threads is in order, and so is their count. -/
structure Registered (scheduler : Scheduler thread) (all : List thread) : Prop where
  linked : Linked scheduler.globalNext scheduler.globalThreadlist all
  distinct : all.Nodup
  activeCount_eq : scheduler.activeCount = all.length

/-- A state whose lists and counters are in order. -/
structure Consistent (scheduler : Scheduler thread) (cells : Option Slot → List thread)
    (all : List thread) : Prop where
  onLists : scheduler.OnLists cells
  registered : scheduler.Registered all
  started : ∀ list, ∀ cell ∈ cells list, cell ∈ all

theorem Consistent.asyncCount_le
    {scheduler : Scheduler thread} {cells : Option Slot → List thread} {all : List thread}
    (consistent : scheduler.Consistent cells all) :
    scheduler.asyncCount ≤ scheduler.activeCount := by
  rw [consistent.onLists.asyncCount_eq, consistent.registered.activeCount_eq]
  have distinct := (consistent.onLists.circles.circle none).nodup
  exact_mod_cast (distinct.subperm (consistent.started none)).length_le

/-- The lists depend on the fields they are read from. -/
theorem OnLists.of_fields
    {scheduler scheduler' : Scheduler thread} {cells : Option Slot → List thread}
    (onLists : scheduler.OnLists cells)
    (links : scheduler'.links = scheduler.links)
    (priorityLists : scheduler'.priorityLists = scheduler.priorityLists)
    (schedulerAsync : scheduler'.schedulerAsync = scheduler.schedulerAsync)
    (asyncCount : scheduler'.asyncCount = scheduler.asyncCount)
    (priority : scheduler'.priority = scheduler.priority) :
    scheduler'.OnLists cells := by
  have sameHeads : scheduler'.heads = scheduler.heads := by
    funext list
    cases list <;> simp [heads, priorityLists, schedulerAsync]
  refine ⟨?_, ?_, asyncCount.trans onLists.asyncCount_eq⟩
  · rw [links, sameHeads]
    exact onLists.circles
  · rw [priority]
    exact onLists.slot_eq

variable {scheduler : Scheduler thread} {cells : Option Slot → List thread}

/-! ## Queues and the list of blocked threads -/

theorem heads_queue
    (slot : Slot) (head : Option thread) (links : Links thread) :
    heads { scheduler with
        links := links
        priorityLists := Function.update scheduler.priorityLists slot head } =
      Function.update scheduler.heads (some slot) head := by
  funext list
  cases list with
  | none =>
      rw [Function.update_of_ne (Option.some_ne_none slot).symm]
      rfl
  | some other =>
      rcases eq_or_ne other slot with rfl | different
      · simp [heads]
      · simp [heads, different]

theorem heads_async
    (head : Option thread) (links : Links thread) (count : Int) :
    heads { scheduler with
        links := links
        schedulerAsync := head
        asyncCount := count } =
      Function.update scheduler.heads none head := by
  funext list
  cases list <;> simp [heads]

variable [DecidableEq thread]

omit [DecidableEq thread] in
/-- The head that `adjust_priority_list` leaves is the first of the longer list. -/
theorem OnLists.head_append
    (onLists : scheduler.OnLists cells)
    (slot : Slot) (added : thread) :
    (if scheduler.priorityLists slot = none then
      Function.update scheduler.priorityLists slot (some added) else scheduler.priorityLists) =
      Function.update scheduler.priorityLists slot (cells (some slot) ++ [added]).head? := by
  have isHead : scheduler.priorityLists slot = (cells (some slot)).head? :=
    (onLists.circles.circle (some slot)).head_eq
  cases atHead : cells (some slot) with
  | nil =>
      have isEmpty : scheduler.priorityLists slot = none :=
        isHead.trans (congrArg List.head? atHead)
      rw [if_pos isEmpty]
      rfl
  | cons first rest =>
      have isFirst : scheduler.priorityLists slot = some first :=
        isHead.trans (congrArg List.head? atHead)
      rw [if_neg (isFirst ▸ Option.some_ne_none first), List.cons_append, List.head?_cons,
        ← isFirst, Function.update_eq_self]

theorem OnLists.addToActive
    {added : thread}
    (onLists : scheduler.OnLists cells)
    (isNew : ∀ list, added ∉ cells list) :
    ∃ links priorityLists,
      scheduler.addToActive added =
        some { scheduler with links := links, priorityLists := priorityLists } ∧
      OnLists { scheduler with links := links, priorityLists := priorityLists }
        (Function.update cells (some (scheduler.priority added))
          (cells (some (scheduler.priority added)) ++ [added])) := by
  let slot := scheduler.priority added
  obtain ⟨links, isAdded, circles⟩ := onLists.circles.add (some slot) isNew
  refine ⟨links, Function.update scheduler.priorityLists slot (cells (some slot) ++ [added]).head?,
    ?_, ?_⟩
  · have onQueue : addToList scheduler.links (scheduler.priorityLists slot) added = _ := isAdded
    rw [Scheduler.addToActive, onQueue, Option.map_some]
    rw [onLists.head_append slot added]
  · refine ⟨?_, ?_, ?_⟩
    · rw [heads_queue]
      exact circles
    · intro other queued listed
      rcases eq_or_ne other slot with rfl | different
      · rw [Function.update_self] at listed
        rcases List.mem_append.mp listed with before | isAdded
        · exact onLists.slot_eq slot queued before
        · exact congrArg scheduler.priority (List.mem_singleton.mp isAdded)
      · rw [Function.update_of_ne (fun same => different (Option.some.inj same))] at listed
        exact onLists.slot_eq other queued listed
    · rw [Function.update_of_ne (Option.some_ne_none slot).symm]
      exact onLists.asyncCount_eq

theorem OnLists.removeFromActive
    {removed : thread}
    (onLists : scheduler.OnLists cells)
    (listed : removed ∈ cells (some (scheduler.priority removed))) :
    ∃ links priorityLists,
      scheduler.removeFromActive removed =
        some { scheduler with links := links, priorityLists := priorityLists } ∧
      OnLists { scheduler with links := links, priorityLists := priorityLists }
        (Function.update cells (some (scheduler.priority removed))
          ((cells (some (scheduler.priority removed))).erase removed)) := by
  let slot := scheduler.priority removed
  obtain ⟨links, isRemoved, circles⟩ := onLists.circles.remove listed
  refine ⟨links, Function.update scheduler.priorityLists slot
    ((cells (some slot)).erase removed).head?, ?_, ?_⟩
  · have onQueue : removeFromList scheduler.links (scheduler.priorityLists slot) removed = _ :=
      isRemoved
    rw [Scheduler.removeFromActive, onQueue, Option.map_some]
  · refine ⟨?_, ?_, ?_⟩
    · rw [heads_queue]
      exact circles
    · intro other queued isQueued
      rcases eq_or_ne other slot with rfl | different
      · rw [Function.update_self] at isQueued
        exact onLists.slot_eq slot queued (List.mem_of_mem_erase isQueued)
      · rw [Function.update_of_ne (fun same => different (Option.some.inj same))] at isQueued
        exact onLists.slot_eq other queued isQueued
    · rw [Function.update_of_ne (Option.some_ne_none slot).symm]
      exact onLists.asyncCount_eq

theorem OnLists.addToAsynchronous
    {added : thread}
    (onLists : scheduler.OnLists cells)
    (isNew : ∀ list, added ∉ cells list) :
    ∃ links schedulerAsync,
      scheduler.addToAsynchronous added =
        some { scheduler with
          asyncCount := scheduler.asyncCount + 1
          links := links
          schedulerAsync := schedulerAsync } ∧
      OnLists { scheduler with
          asyncCount := scheduler.asyncCount + 1
          links := links
          schedulerAsync := schedulerAsync }
        (Function.update cells none (cells none ++ [added])) := by
  obtain ⟨links, isAdded, circles⟩ := onLists.circles.add none isNew
  refine ⟨links, (cells none ++ [added]).head?, ?_, ?_, ?_, ?_⟩
  · have onList : addToList scheduler.links scheduler.schedulerAsync added = _ := isAdded
    rw [Scheduler.addToAsynchronous, onList, Option.map_some]
  · rw [heads_async]
    exact circles
  · intro slot queued listed
    rw [Function.update_of_ne (Option.some_ne_none slot)] at listed
    exact onLists.slot_eq slot queued listed
  · have count := onLists.asyncCount_eq
    rw [Function.update_self, List.length_append, List.length_singleton]
    change scheduler.asyncCount + 1 = _
    omega

theorem OnLists.removeFromAsynchronous
    {removed : thread}
    (onLists : scheduler.OnLists cells)
    (listed : removed ∈ cells none) :
    ∃ links schedulerAsync,
      scheduler.removeFromAsynchronous removed =
        some { scheduler with
          links := links
          schedulerAsync := schedulerAsync
          asyncCount := scheduler.asyncCount - 1 } ∧
      OnLists { scheduler with
          links := links
          schedulerAsync := schedulerAsync
          asyncCount := scheduler.asyncCount - 1 }
        (Function.update cells none ((cells none).erase removed)) := by
  obtain ⟨links, isRemoved, circles⟩ := onLists.circles.remove listed
  refine ⟨links, ((cells none).erase removed).head?, ?_, ?_, ?_, ?_⟩
  · have onList : removeFromList scheduler.links scheduler.schedulerAsync removed = _ := isRemoved
    rw [Scheduler.removeFromAsynchronous, onList, Option.map_some]
  · rw [heads_async]
    exact circles
  · intro slot queued isQueued
    rw [Function.update_of_ne (Option.some_ne_none slot)] at isQueued
    exact onLists.slot_eq slot queued isQueued
  · have positive := List.length_pos_of_mem listed
    have count := onLists.asyncCount_eq
    rw [Function.update_self, List.length_erase_of_mem listed]
    change scheduler.asyncCount - 1 = _
    omega

omit [DecidableEq thread] in
/-- A thread is on one list only. -/
theorem OnLists.list_eq
    {cell : thread} {list other : Option Slot}
    (onLists : scheduler.OnLists cells)
    (listed : cell ∈ cells list)
    (listed' : cell ∈ cells other) :
    list = other := by
  by_contra different
  exact onLists.circles.apart list other different cell listed listed'

/-- What is on the lists when a thread is taken off its own. -/
theorem OnLists.mem_erased
    {removed cell : thread} {list other : Option Slot}
    (onLists : scheduler.OnLists cells)
    (listed : removed ∈ cells list)
    (isCell : cell ∈ Function.update cells list ((cells list).erase removed) other) :
    cell ∈ cells other ∧ cell ≠ removed := by
  rcases eq_or_ne other list with rfl | different
  · rw [Function.update_self] at isCell
    have distinct := (onLists.circles.circle other).nodup
    exact ⟨List.mem_of_mem_erase isCell, (distinct.mem_erase_iff.mp isCell).1⟩
  · rw [Function.update_of_ne different] at isCell
    refine ⟨isCell, ?_⟩
    rintro rfl
    exact different (onLists.list_eq isCell listed)

omit [DecidableEq thread] in
/-- What is on the lists when a thread is put on one. -/
theorem mem_added
    {added cell : thread} {list other : Option Slot}
    (isCell : cell ∈ Function.update cells list (cells list ++ [added]) other) :
    cell ∈ cells other ∨ cell = added := by
  rcases eq_or_ne other list with rfl | different
  · rw [Function.update_self] at isCell
    exact (List.mem_append.mp isCell).imp_right List.mem_singleton.mp
  · rw [Function.update_of_ne different] at isCell
    exact Or.inl isCell

/-! ## The list of all threads -/

omit [DecidableEq thread] in
theorem Registered.of_fields
    {scheduler scheduler' : Scheduler thread} {all : List thread}
    (registered : scheduler.Registered all)
    (globalNext : scheduler'.globalNext = scheduler.globalNext)
    (globalThreadlist : scheduler'.globalThreadlist = scheduler.globalThreadlist)
    (activeCount : scheduler'.activeCount = scheduler.activeCount) :
    scheduler'.Registered all := by
  refine ⟨?_, registered.distinct, activeCount.trans registered.activeCount_eq⟩
  rw [globalNext, globalThreadlist]
  exact registered.linked

theorem Registered.addToGlobalList
    {all : List thread} {added : thread}
    (registered : scheduler.Registered all)
    (isNew : added ∉ all) :
    ({ scheduler with activeCount := scheduler.activeCount + 1 }.addToGlobalList added).Registered
      (added :: all) := by
  refine ⟨?_, List.nodup_cons.mpr ⟨isNew, registered.distinct⟩, ?_⟩
  · refine registered.linked.push (Function.update_self added _ _) ?_
    intro other listed
    have notAdded : other ≠ added := fun same => isNew (same ▸ listed)
    exact Function.update_of_ne notAdded _ _
  · have count := registered.activeCount_eq
    rw [List.length_cons]
    change scheduler.activeCount + 1 = _
    omega

theorem Registered.removeFromGlobalList
    {all : List thread} {removed : thread} {fuel : Nat}
    (registered : scheduler.Registered all)
    (listed : removed ∈ all)
    (enough : all.length < fuel) :
    ∃ globalNext globalThreadlist,
      removeFromGlobalList fuel { scheduler with activeCount := scheduler.activeCount - 1 }
          removed =
        some { scheduler with
          activeCount := scheduler.activeCount - 1
          globalNext := globalNext
          globalThreadlist := globalThreadlist } ∧
      Registered { scheduler with
          activeCount := scheduler.activeCount - 1
          globalNext := globalNext
          globalThreadlist := globalThreadlist } (all.erase removed) := by
  have counted : scheduler.activeCount - 1 = (all.erase removed).length := by
    have positive := List.length_pos_of_mem listed
    rw [registered.activeCount_eq, List.length_erase_of_mem listed]
    omega
  rcases searchWithPrevious_eq registered.linked enough (fun other => decide (other = removed))
    none with ⟨_, nowhere⟩ | ⟨front, found, rest, rfl, isFound, searched⟩
  · simpa using nowhere removed listed
  · have same : found = removed := of_decide_eq_true isFound
    subst same
    have distinct := registered.distinct
    have notBefore : found ∉ front := fun before =>
      (List.nodup_append.mp distinct).2.2 found before found List.mem_cons_self rfl
    have notBehind : found ∉ rest :=
      (List.nodup_cons.mp (List.nodup_append.mp distinct).2.1).1
    have erased : (front ++ found :: rest).erase found = front ++ rest := by
      rw [List.erase_append_right _ notBefore, List.erase_cons_head]
    have stillDistinct := distinct.erase found
    rw [erased] at counted stillDistinct ⊢
    rcases List.eq_nil_or_concat' front with rfl | ⟨front, previous, rfl⟩
    · refine ⟨Function.update scheduler.globalNext found none, scheduler.globalNext found,
        ?_, ?_, stillDistinct, counted⟩
      · rw [Scheduler.removeFromGlobalList]
        change Option.map _ (searchWithPrevious scheduler.globalNext _ fuel none
          scheduler.globalThreadlist) = _
        rw [searched]
        rfl
      · refine registered.linked.2.congr ?_
        intro other isOther
        have notFound : other ≠ found := fun same => notBehind (same ▸ isOther)
        exact Function.update_of_ne notFound _ _
    · have previousNe : previous ≠ found := fun same =>
        notBefore (same ▸ List.mem_append_right front List.mem_cons_self)
      refine ⟨Function.update (Function.update scheduler.globalNext previous
        (scheduler.globalNext found)) found none, scheduler.globalThreadlist,
        ?_, ?_, stillDistinct, counted⟩
      · rw [Scheduler.removeFromGlobalList]
        change Option.map _ (searchWithPrevious scheduler.globalNext _ fuel none
          scheduler.globalThreadlist) = _
        rw [searched, List.getLast?_concat, Option.some_or]
        rfl
      · have linked := registered.linked
        rw [List.append_assoc, List.singleton_append] at linked distinct ⊢
        refine linked.unlink ?_ ?_
        · simp [previousNe]
        · intro other isOther
          have notFound : other ≠ found := by
            rintro rfl
            rcases List.mem_append.mp isOther with before | behind
            · exact notBefore (List.mem_append_left _ before)
            · exact notBehind behind
          have notPrevious : other ≠ previous := by
            rintro rfl
            rcases List.mem_append.mp isOther with before | behind
            · exact (List.nodup_append.mp distinct).2.2 other before other List.mem_cons_self rfl
            · exact (List.nodup_cons.mp (List.nodup_append.mp distinct).2.1).1
                (List.mem_cons_of_mem found behind)
          simp [notFound, notPrevious]

theorem removeFromGlobalList_mono
    {removed : thread} {fuel more : Nat} {scheduler' : Scheduler thread}
    (isRemoved : removeFromGlobalList fuel scheduler removed = some scheduler')
    (enough : fuel ≤ more) :
    removeFromGlobalList more scheduler removed = some scheduler' := by
  rw [Scheduler.removeFromGlobalList, Option.map_eq_some_iff] at isRemoved ⊢
  obtain ⟨found, searched, isResult⟩ := isRemoved
  exact ⟨found, searchWithPrevious_mono searched enough, isResult⟩

end Scheduler

end PicoJvm.BlockedThreads
