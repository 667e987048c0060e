import Mathlib.Algebra.BigOperators.Fin
import Mathlib.Algebra.Order.BigOperators.Group.Finset
import PicoJvm.Lib.Countdown
import PicoJvm.Scheduling.ThreadSelection

/-!
# When every thread gets its turn

Runs of calls and of changes of the queues. A thread waits for a bounded number of calls when the
threads of its queue take turns.
-/

namespace PicoJvm.ThreadSelection

open PicoJvm.Lib.Countdown

universe u

variable {thread : Type u} [DecidableEq thread]

/-! ## Runs -/

/-- What happens to the scheduler's tables. The last is `_next_runnable_thread = NULL`. -/
inductive Event (thread : Type u)
  | call (startingThread : Option thread)
  | addToActive (added : thread) (slot : Slot)
  | removeFromActive (removed : thread) (slot : Slot)
  | setPriority (moved : thread) (oldPriority newPriority : Slot)
  | forget
  deriving DecidableEq, Repr

/-- The tables after an event. -/
def Scheduler.after (product : Bool) (scheduler : Scheduler thread) :
    Event thread → Scheduler thread
  | .call startingThread => scheduler.getNextRunnableThread product startingThread
  | .addToActive added slot => scheduler.addToActive added slot
  | .removeFromActive removed slot => scheduler.removeFromActive removed slot
  | .setPriority moved oldPriority newPriority =>
      scheduler.setPriority moved oldPriority newPriority
  | .forget => { scheduler with nextRunnableThread := none }

/-- The tables in a run, and which queues are fresh: their heads have not been the thread to run
since they came there. -/
@[ext]
structure Course (thread : Type u) where
  scheduler : Scheduler thread
  fresh : Slot → Bool

/-- One event. -/
def Course.step (product : Bool) (course : Course thread) (event : Event thread) :
    Course thread :=
  let scheduler := course.scheduler.after product event
  { scheduler := scheduler
    fresh := fun slot =>
      decide ((scheduler.queues slot).head? ≠ scheduler.nextRunnableThread) &&
        (decide ((scheduler.queues slot).head? ≠ (course.scheduler.queues slot).head?) ||
          course.fresh slot) }

/-- A thread is added when it is in no queue, and removed from the one it is in. -/
def Legal (course : Course thread) : Event thread → Prop
  | .addToActive added slot => slot ≠ 0 ∧ ¬ course.scheduler.Active added
  | .removeFromActive removed slot => removed ∈ course.scheduler.queues slot
  | .setPriority _ _ newPriority => newPriority ≠ 0
  | .call _ | .forget => True

/-- The thread stays in its queue. -/
def Keeps (member : thread) : Event thread → Prop
  | .removeFromActive removed _ => removed ≠ member
  | .setPriority moved _ _ => moved ≠ member
  | .call _ | .addToActive _ _ | .forget => True

/-- A call that looks into the queues finds the yielding thread at the head of the queue whose turn
it is exactly when that head has been the thread to run since it came there. -/
def TakesTurn (course : Course thread) : Event thread → Prop
  | .call startingThread =>
      course.scheduler.answeredAtOnce startingThread = false →
        ∀ slot, course.scheduler.Turn slot →
          ((course.scheduler.queues slot).head? = startingThread ↔ course.fresh slot = false)
  | _ => True

/-- The calls that look into the queues. -/
def looksIntoQueues (course : Course thread) : Event thread → Bool
  | .call startingThread => !course.scheduler.answeredAtOnce startingThread
  | _ => false

/-- In every run in which the thread stays in its queue, with at most `longest` threads there, so
many calls that look into the queues make it the thread to run. -/
def ServedWithin (product : Bool) (allowed : Course thread → Event thread → Prop)
    (start : Course thread) (member : thread) (slot : Slot) (longest calls : Nat) : Prop :=
  ∀ events,
    Follows (Course.step product)
      (fun course event =>
        Legal course event ∧ Keeps member event ∧ allowed course event ∧
          (course.scheduler.queues slot).length ≤ longest)
      start events →
    calls ≤ ticks (Course.step product) looksIntoQueues start events →
      ∃ before event after, events = before ++ event :: after ∧
        ((before.foldl (Course.step product) start).step product
          event).scheduler.nextRunnableThread = some member

/-- What is asked of the choice in all runs of allowed events. -/
structure SelectsWell (product : Bool) (allowed : Course thread → Event thread → Prop)
    (start : Course thread) : Prop where
  none_iff :
    ∀ events,
      Follows (Course.step product) (fun course event => Legal course event ∧ allowed course event)
        start events →
      ∀ startingThread,
        let scheduler := (events.foldl (Course.step product) start).scheduler
        (scheduler.getNextRunnableThread product startingThread).nextRunnableThread = none ↔
          ∀ member, ¬ scheduler.Active member
  active :
    ∀ events,
      Follows (Course.step product) (fun course event => Legal course event ∧ allowed course event)
        start events →
      ∀ startingThread member,
        let scheduler := (events.foldl (Course.step product) start).scheduler
        (scheduler.getNextRunnableThread product startingThread).nextRunnableThread =
          some member → scheduler.Active member
  /-- The loop is left in its second round at the latest, whatever its counter allows. -/
  terminates :
    ∀ events,
      Follows (Course.step product) (fun course event => Legal course event ∧ allowed course event)
        start events →
      ∀ startingThread innerLoopCount, 2 ≤ innerLoopCount →
        let scheduler := (events.foldl (Course.step product) start).scheduler
        scheduler.search product scheduler.startPriority startingThread innerLoopCount =
          scheduler.search product scheduler.startPriority startingThread 2
  served :
    ∀ member slot, member ∈ start.scheduler.queues slot →
      ∀ longest, ∃ calls, ServedWithin product allowed start member slot longest calls

/-! ## Every call -/

section Calls

variable {scheduler : Scheduler thread}

omit [DecidableEq thread] in
/-- Only one queue has its turn. -/
theorem Scheduler.Turn.unique
    {slot slot' : Slot}
    (turn : scheduler.Turn slot)
    (turn' : scheduler.Turn slot') :
    slot = slot' := by
  rcases turn with ⟨ready, highest⟩ | ⟨none, hasThreads, highest⟩
  · rcases turn' with ⟨ready', highest'⟩ | ⟨none', _, _⟩
    · apply le_antisymm
      · exact not_lt.mp fun above => highest' slot above ready
      · exact not_lt.mp fun above => highest slot' above ready'
    · exact absurd ready (none' slot)
  · rcases turn' with ⟨ready', _⟩ | ⟨_, hasThreads', highest'⟩
    · exact absurd ready' (none slot')
    · apply le_antisymm
      · exact not_lt.mp fun above => hasThreads (highest' slot above)
      · exact not_lt.mp fun above => hasThreads' (highest slot' above)

omit [DecidableEq thread] in
theorem Scheduler.Turn.hasThreads
    {slot : Slot}
    (turn : scheduler.Turn slot) :
    scheduler.queues slot ≠ [] := by
  rcases turn with ⟨ready, _⟩ | ⟨_, hasThreads, _⟩
  · exact ready.1
  · exact hasThreads

/-- The loop is left in its second round at the latest. -/
theorem Scheduler.WellFormed.search_eq
    (wellFormed : scheduler.WellFormed)
    (product : Bool)
    (startingThread : Option thread)
    (more : Nat) :
    scheduler.search product scheduler.startPriority startingThread (more + 2) =
      scheduler.search product scheduler.startPriority startingThread 2 := by
  rcases search_cases wellFormed product startingThread more with
    ⟨empty, result⟩ | ⟨slot, turn, result⟩
  · rcases search_cases wellFormed product startingThread 0 with
      ⟨_, result'⟩ | ⟨slot', turn', _⟩
    · exact result.trans result'.symm
    · exact absurd (empty slot') turn'.hasThreads
  · rcases search_cases wellFormed product startingThread 0 with
      ⟨empty, _⟩ | ⟨slot', turn', result'⟩
    · exact absurd (empty slot) turn.hasThreads
    · rw [turn.unique turn'] at result
      exact result.trans result'.symm

theorem turned_head_exists
    (startingThread : Option thread)
    {list : List thread}
    (hasThreads : list ≠ []) :
    ∃ head, (Scheduler.turned startingThread list).head? = some head ∧ head ∈ list := by
  have perm := Scheduler.turned_perm startingThread list
  cases isTurned : Scheduler.turned startingThread list with
  | nil =>
      rw [isTurned] at perm
      exact absurd perm.symm.eq_nil hasThreads
  | cons head rest =>
      rw [isTurned] at perm
      exact ⟨head, rfl, perm.mem_iff.mp List.mem_cons_self⟩

/-- A call gives no thread exactly when none is active, and otherwise an active one. -/
theorem Scheduler.WellFormed.result_cases
    (wellFormed : scheduler.WellFormed)
    (product : Bool)
    (startingThread : Option thread) :
    (∀ member, ¬ scheduler.Active member) ∧
        (scheduler.getNextRunnableThread product startingThread).nextRunnableThread = none ∨
      ∃ member, scheduler.Active member ∧
        (scheduler.getNextRunnableThread product startingThread).nextRunnableThread =
          some member := by
  by_cases atOnce : scheduler.answeredAtOnce startingThread = true
  · have isCached : scheduler.nextRunnableThread.isSome = true :=
      (Bool.and_eq_true_iff.mp atOnce).2
    obtain ⟨member, isNext⟩ := Option.isSome_iff_exists.mp isCached
    refine Or.inr ⟨member, wellFormed.cached member isNext, ?_⟩
    rw [Scheduler.getNextRunnableThread, if_pos atOnce]
    exact isNext
  · rcases Scheduler.getNextRunnableThread_cases wellFormed product
      (Bool.eq_false_iff.mpr atOnce) with ⟨empty, result⟩ | ⟨slot, turn, result⟩
    · refine Or.inl ⟨?_, by rw [result]⟩
      rintro member ⟨slot, found⟩
      rw [empty slot] at found
      cases found
    · obtain ⟨head, isHead, inQueue⟩ := turned_head_exists startingThread turn.hasThreads
      refine Or.inr ⟨head, ⟨slot, inQueue⟩, ?_⟩
      rw [result]
      exact isHead

/-- Every legal event keeps the tables well formed. -/
theorem Scheduler.WellFormed.after
    {course : Course thread}
    {event : Event thread}
    (product : Bool)
    (wellFormed : course.scheduler.WellFormed)
    (legal : Legal course event) :
    (course.step product event).scheduler.WellFormed := by
  cases event with
  | call startingThread =>
      exact wellFormed.getNextRunnableThread product startingThread
  | addToActive added slot =>
      exact wellFormed.addToActive legal.1 legal.2
  | removeFromActive removed slot =>
      exact wellFormed.removeFromActive legal
  | setPriority moved oldPriority newPriority =>
      exact wellFormed.setPriority legal
  | forget =>
      exact wellFormed.forget

end Calls

/-! ## The place in the queue -/

/-- A thread does not fall back in its queue, and when the head goes it comes nearer. -/
structure Advances (member : thread) (before after : List thread) : Prop where
  stays : member ∈ after
  nearer : after.idxOf member ≤ before.idxOf member
  head : after.head? = before.head? ∨ after.idxOf member + 1 ≤ before.idxOf member

section Places

variable {member other : thread} {list list' list'' : List thread}

theorem Advances.refl (found : member ∈ list) : Advances member list list :=
  ⟨found, Nat.le_refl _, Or.inl rfl⟩

theorem Advances.trans
    (first : Advances member list list')
    (second : Advances member list' list'') :
    Advances member list list'' := by
  have nearer := first.nearer
  have nearer' := second.nearer
  refine ⟨second.stays, Nat.le_trans nearer' nearer, ?_⟩
  rcases second.head with same | moved
  · rcases first.head with same' | moved'
    · exact Or.inl (same.trans same')
    · exact Or.inr (by omega)
  · exact Or.inr (by omega)

theorem Advances.append (found : member ∈ list) : Advances member list (list ++ [other]) := by
  refine ⟨List.mem_append_left _ found, ?_, Or.inl ?_⟩
  · rw [List.idxOf_append_of_mem found]
  · cases list with
    | nil =>
        cases found
    | cons head rest =>
        rfl

theorem Advances.erase
    (found : member ∈ list)
    (different : other ≠ member) :
    Advances member list (list.erase other) := by
  have stays : member ∈ list.erase other := (List.mem_erase_of_ne different.symm).mpr found
  induction list with
  | nil =>
      cases found
  | cons head rest inductionHypothesis =>
      by_cases isOther : head = other
      · subst isOther
        rw [List.erase_cons_head] at stays ⊢
        have behind : (head :: rest).idxOf member = rest.idxOf member + 1 :=
          List.idxOf_cons_ne _ different
        exact ⟨stays, by omega, Or.inr (by omega)⟩
      · have kept : (head :: rest).erase other = head :: rest.erase other :=
          List.erase_cons_tail (by simpa using isOther)
        rw [kept] at stays ⊢
        refine ⟨stays, ?_, Or.inl rfl⟩
        by_cases isMember : head = member
        · rw [isMember, List.idxOf_cons_self]
          exact Nat.zero_le _
        · rw [List.idxOf_cons_ne _ isMember, List.idxOf_cons_ne _ isMember]
          have inRest : member ∈ rest := (List.mem_cons.mp found).resolve_left (Ne.symm isMember)
          have inErased := (List.mem_erase_of_ne different.symm).mpr inRest
          have := (inductionHypothesis inRest inErased).nearer
          omega

theorem head?_eq_of_idxOf
    (found : member ∈ list)
    (isFirst : list.idxOf member = 0) :
    list.head? = some member := by
  cases list with
  | nil =>
      cases found
  | cons head rest =>
      by_cases isMember : head = member
      · rw [isMember]
        rfl
      · rw [List.idxOf_cons_ne _ isMember] at isFirst
        cases isFirst

theorem idxOf_eq_zero
    (isHead : list.head? = some member) :
    list.idxOf member = 0 := by
  cases list with
  | nil =>
      cases isHead
  | cons head rest =>
      cases isHead
      exact List.idxOf_cons_self

end Places

/-! ## How long a thread waits -/

/-- How often the queue of the thread has its turn before the thread is chosen. A thread that was
chosen and is still at the head goes behind all others. -/
def distance (course : Course thread) (member : thread) (slot : Slot) (longest : Nat) : Nat :=
  let place := (course.scheduler.queues slot).idxOf member
  if course.fresh slot then place + 1 else if place = 0 then longest else place

/-- What is left of all quotas. -/
def quotaLeft (scheduler : Scheduler thread) : Nat :=
  ∑ slot : Slot, (slot.val * 2 + 1 - scheduler.threadExecuteCounts slot)

/-- How often other queues have their turn before this one has. -/
def patience (scheduler : Scheduler thread) (slot : Slot) : Nat :=
  if scheduler.threadExecuteCounts slot ≤ slot.val * 2 then
    quotaLeft scheduler
  else
    quotaLeft scheduler + 121

/-- A bound on the calls before the thread is chosen. -/
def waiting (member : thread) (slot : Slot) (longest : Nat) (course : Course thread) : Nat :=
  distance course member slot longest * 243 + patience course.scheduler slot

section Waiting

variable {course : Course thread} {member : thread} {slot : Slot} {longest : Nat}

omit [DecidableEq thread] in
theorem quotaLeft_le (scheduler : Scheduler thread) : quotaLeft scheduler ≤ 121 := by
  have whole : ∑ slot : Slot, (slot.val * 2 + 1) = 121 := by decide
  rw [← whole]
  apply Finset.sum_le_sum
  intro slot _
  exact Nat.sub_le _ _

omit [DecidableEq thread] in
theorem patience_le (scheduler : Scheduler thread) (slot : Slot) :
    patience scheduler slot ≤ 242 := by
  have := quotaLeft_le scheduler
  unfold patience
  split <;> omega

omit [DecidableEq thread] in
/-- A turn uses up a part of the quota that was left. -/
theorem quotaLeft_select
    {scheduler : Scheduler thread}
    (list : List thread)
    (withinQuota : scheduler.threadExecuteCounts slot ≤ slot.val * 2) :
    quotaLeft (scheduler.select slot list) < quotaLeft scheduler := by
  have counts : ∀ slot', (scheduler.select slot list).threadExecuteCounts slot' =
      if slot' = slot then scheduler.threadExecuteCounts slot + 1
      else scheduler.threadExecuteCounts slot' := by
    intro slot'
    have fits : (scheduler.threadExecuteCounts slot + 1) % 256 =
        scheduler.threadExecuteCounts slot + 1 := by
      apply Nat.mod_eq_of_lt
      omega
    change Function.update _ _ _ _ = _
    rw [Function.update_apply, fits]
  apply Finset.sum_lt_sum
  · intro slot' _
    rw [counts]
    split
    · next isSlot =>
        rw [isSlot]
        omega
    · exact Nat.le_refl _
  · refine ⟨slot, Finset.mem_univ slot, ?_⟩
    rw [counts, if_pos rfl]
    omega

omit [DecidableEq thread] in
/-- When another queue has its turn, this one has waited once more. -/
theorem Scheduler.Turn.patience_select
    {scheduler : Scheduler thread}
    {slot' : Slot}
    (list : List thread)
    (turn : scheduler.Turn slot')
    (hasThreads : scheduler.queues slot ≠ [])
    (different : slot ≠ slot') :
    patience (scheduler.refreshed.select slot' list) slot + 1 ≤ patience scheduler slot := by
  have count : (scheduler.refreshed.select slot' list).threadExecuteCounts slot =
      scheduler.refreshed.threadExecuteCounts slot := Function.update_of_ne different _ _
  rcases turn with ⟨ready, _⟩ | ⟨none, _, _⟩
  · have isSame : scheduler.refreshed = scheduler := if_neg fun none => none slot' ready
    rw [isSame] at count ⊢
    have less := quotaLeft_select list ready.2
    unfold patience
    rw [count]
    split <;> omega
  · have isReset : scheduler.refreshed = scheduler.resetThreadCounts := if_pos none
    have used : ¬ scheduler.threadExecuteCounts slot ≤ slot.val * 2 := fun within =>
      none slot ⟨hasThreads, within⟩
    rw [isReset] at count ⊢
    have zero : scheduler.resetThreadCounts.threadExecuteCounts slot ≤ slot.val * 2 :=
      Nat.zero_le _
    have less := quotaLeft_select list
      (show scheduler.resetThreadCounts.threadExecuteCounts slot' ≤ slot'.val * 2 from
        Nat.zero_le _)
    have most := quotaLeft_le scheduler.resetThreadCounts
    unfold patience
    rw [count, if_pos zero, if_neg used]
    omega

/-- A thread that does not fall back and is not chosen is not farther from its turn. -/
theorem distance_step_le
    {product : Bool}
    {event : Event thread}
    (longest : Nat)
    (advances : Advances member (course.scheduler.queues slot)
      ((course.step product event).scheduler.queues slot))
    (missed : (course.step product event).scheduler.nextRunnableThread ≠ some member) :
    distance (course.step product event) member slot longest ≤
      distance course member slot longest := by
  have nearer := advances.nearer
  have isFresh : (course.step product event).fresh slot =
      (decide (((course.step product event).scheduler.queues slot).head? ≠
          (course.step product event).scheduler.nextRunnableThread) &&
        (decide (((course.step product event).scheduler.queues slot).head? ≠
            (course.scheduler.queues slot).head?) || course.fresh slot)) := rfl
  generalize course.step product event = after at advances missed nearer isFresh ⊢
  have first : (after.scheduler.queues slot).idxOf member = 0 →
      (after.scheduler.queues slot).head? = some member :=
    head?_eq_of_idxOf advances.stays
  have notNext : (after.scheduler.queues slot).idxOf member = 0 →
      (after.scheduler.queues slot).head? ≠ after.scheduler.nextRunnableThread := by
    intro isFirst isNext
    exact missed (isNext.symm.trans (first isFirst))
  have place : (after.scheduler.queues slot).head? = (course.scheduler.queues slot).head? →
      (after.scheduler.queues slot).idxOf member = 0 →
        (course.scheduler.queues slot).idxOf member = 0 := by
    intro same isFirst
    exact idxOf_eq_zero (same.symm.trans (first isFirst))
  unfold distance
  dsimp only
  rw [isFresh]
  rcases advances.head with same | moved
  · simp only [same, ne_eq, not_true_eq_false, decide_false, Bool.false_or]
    rw [same] at notNext
    by_cases wasFresh : course.fresh slot = true
    · rw [wasFresh]
      simp only [Bool.and_true, if_true, decide_not, Bool.not_eq_true', decide_eq_false_iff_not]
      split
      · omega
      · next isNext =>
          rw [if_neg fun isFirst => isNext (notNext isFirst)]
          omega
    · rw [Bool.eq_false_iff.mpr wasFresh]
      simp only [Bool.and_false, Bool.false_eq_true, if_false]
      by_cases isFirst : (after.scheduler.queues slot).idxOf member = 0
      · rw [if_pos isFirst, if_pos (place same isFirst)]
      · rw [if_neg isFirst, if_neg (by omega)]
        exact nearer
  · have before : (course.scheduler.queues slot).idxOf member ≠ 0 := by omega
    have atLeast : (course.scheduler.queues slot).idxOf member ≤
        if course.fresh slot then (course.scheduler.queues slot).idxOf member + 1
        else if (course.scheduler.queues slot).idxOf member = 0 then longest
        else (course.scheduler.queues slot).idxOf member := by
      rw [if_neg before]
      split <;> omega
    refine Nat.le_trans ?_ atLeast
    split
    · omega
    · next notFresh =>
        have behind : (after.scheduler.queues slot).idxOf member ≠ 0 := by
          intro isFirst
          apply notFresh
          have changed : (after.scheduler.queues slot).head? ≠
              (course.scheduler.queues slot).head? := fun same => before (place same isFirst)
          simp [notNext isFirst, changed]
        rw [if_neg behind]
        exact nearer

omit [DecidableEq thread] in
theorem refreshed_queues (scheduler : Scheduler thread) :
    scheduler.refreshed.queues = scheduler.queues := by
  unfold Scheduler.refreshed
  split <;> rfl

/-- Events other than calls leave the quotas, and do not push the thread back. -/
theorem advances_of_keeps
    {event : Event thread}
    (product : Bool)
    (found : member ∈ course.scheduler.queues slot)
    (keeps : Keeps member event)
    (isChange : ∀ startingThread, event ≠ .call startingThread) :
    Advances member (course.scheduler.queues slot)
        ((course.step product event).scheduler.queues slot) ∧
      (course.step product event).scheduler.threadExecuteCounts =
        course.scheduler.threadExecuteCounts := by
  have removal : ∀ {removed : thread} (slot' : Slot), removed ≠ member →
      Advances member (course.scheduler.queues slot)
          ((course.scheduler.removeFromQueue removed slot').queues slot) ∧
        (course.scheduler.removeFromQueue removed slot').threadExecuteCounts =
          course.scheduler.threadExecuteCounts := by
    intro removed slot' different
    constructor
    · rw [Scheduler.removeFromQueue_queues]
      split
      · next isSlot => exact isSlot ▸ .erase found different
      · exact .refl found
    · unfold Scheduler.removeFromQueue
      dsimp only
      split <;> rfl
  cases event with
  | call startingThread =>
      exact absurd rfl (isChange startingThread)
  | addToActive added slot' =>
      refine ⟨?_, rfl⟩
      change Advances _ _ ((course.scheduler.addToActive added slot').queues slot)
      rw [Scheduler.addToActive_queues]
      split
      · next isSlot => exact isSlot ▸ .append found
      · exact .refl found
  | removeFromActive removed slot' =>
      have taken := removal slot' keeps
      change Advances _ _ ((course.scheduler.removeFromActive removed slot').queues slot) ∧
        (course.scheduler.removeFromActive removed slot').threadExecuteCounts = _
      unfold Scheduler.removeFromActive
      dsimp only
      split <;> exact taken
  | setPriority moved oldPriority newPriority =>
      have taken := removal oldPriority keeps
      change Advances _ _ ((course.scheduler.setPriority moved oldPriority newPriority).queues slot) ∧
        (course.scheduler.setPriority moved oldPriority newPriority).threadExecuteCounts = _
      unfold Scheduler.setPriority
      split
      · refine ⟨taken.1.trans ?_, taken.2⟩
        rw [Scheduler.addToActive_queues]
        split
        · next isSlot => exact isSlot ▸ .append taken.1.stays
        · exact .refl taken.1.stays
      · exact ⟨.refl found, rfl⟩
  | forget =>
      exact ⟨.refl found, rfl⟩

/-- When the queue of the thread has its turn, the thread is chosen or comes nearer. -/
theorem distance_turn
    {product : Bool}
    {startingThread : Option thread}
    (found : member ∈ course.scheduler.queues slot)
    (short : (course.scheduler.queues slot).length ≤ longest)
    (takes : (course.scheduler.queues slot).head? = startingThread ↔ course.fresh slot = false)
    (result : (course.step product (.call startingThread)).scheduler =
      course.scheduler.refreshed.select slot
        (Scheduler.turned startingThread (course.scheduler.queues slot)))
    (missed : (course.step product (.call startingThread)).scheduler.nextRunnableThread ≠
      some member) :
    distance (course.step product (.call startingThread)) member slot longest + 1 ≤
      distance course member slot longest := by
  have queue : (course.step product (.call startingThread)).scheduler.queues slot =
      Scheduler.turned startingThread (course.scheduler.queues slot) := by
    rw [result]
    exact Function.update_self _ _ _
  have next : (course.step product (.call startingThread)).scheduler.nextRunnableThread =
      (Scheduler.turned startingThread (course.scheduler.queues slot)).head? := by
    rw [result]
    rfl
  have isFresh : (course.step product (.call startingThread)).fresh slot =
      (decide (((course.step product (.call startingThread)).scheduler.queues slot).head? ≠
          (course.step product (.call startingThread)).scheduler.nextRunnableThread) &&
        (decide (((course.step product (.call startingThread)).scheduler.queues slot).head? ≠
            (course.scheduler.queues slot).head?) || course.fresh slot)) := rfl
  rw [queue, next] at isFresh
  rw [next] at missed
  simp only [ne_eq, not_true_eq_false, decide_false, Bool.false_and] at isFresh
  unfold distance
  dsimp only
  rw [queue, isFresh]
  simp only [Bool.false_eq_true, if_false]
  cases isQueue : course.scheduler.queues slot with
  | nil =>
      rw [isQueue] at found
      cases found
  | cons head rest =>
      rw [isQueue] at found short takes missed
      by_cases isStarting : startingThread = some head
      · -- the head yields: it goes behind the others, and the next one is chosen
        have wasServed := takes.mp isStarting.symm
        rw [Scheduler.turned, if_pos isStarting] at missed ⊢
        rw [wasServed]
        simp only [Bool.false_eq_true, if_false]
        by_cases isHead : head = member
        · subst isHead
          cases rest with
          | nil =>
              exact absurd rfl missed
          | cons second others =>
              have behind : ((second :: others) ++ [head]).idxOf head ≤ others.length + 1 := by
                have inside := List.idxOf_lt_length_of_mem
                  (show head ∈ (second :: others) ++ [head] by simp)
                simp only [List.length_append, List.length_cons, List.length_nil] at inside
                omega
              rw [List.idxOf_cons_self, if_pos rfl]
              simp only [List.length_cons] at short
              split
              · next isFirst =>
                  exact absurd (head?_eq_of_idxOf (by simp) isFirst) missed
              · omega
        · have inRest : member ∈ rest := (List.mem_cons.mp found).resolve_left (Ne.symm isHead)
          have place : (rest ++ [head]).idxOf member = rest.idxOf member :=
            List.idxOf_append_of_mem inRest
          rw [List.idxOf_cons_ne _ isHead, place, if_neg (Nat.succ_ne_zero _)]
          split
          · next isFirst =>
              have isNext := head?_eq_of_idxOf inRest isFirst
              refine absurd ?_ missed
              rw [List.head?_append, isNext]
              rfl
          · omega
      · -- a fresh head is chosen itself
        have wasFresh : course.fresh slot = true := by
          rw [← Bool.not_eq_false, ← takes]
          exact fun isHead => isStarting isHead.symm
        rw [Scheduler.turned, if_neg isStarting] at missed ⊢
        rw [wasFresh, if_pos rfl]
        split
        · next isFirst =>
            exact absurd (head?_eq_of_idxOf found isFirst) missed
        · exact Nat.le_refl _

/-- What a call that looks into the queues does when some queue has threads. -/
theorem step_of_searched
    {startingThread : Option thread}
    (product : Bool)
    (wellFormed : course.scheduler.WellFormed)
    (found : member ∈ course.scheduler.queues slot)
    (searched : course.scheduler.answeredAtOnce startingThread = false) :
    ∃ slot', course.scheduler.Turn slot' ∧
      (course.step product (.call startingThread)).scheduler =
        course.scheduler.refreshed.select slot'
          (Scheduler.turned startingThread (course.scheduler.queues slot')) := by
  rcases Scheduler.getNextRunnableThread_cases wellFormed product searched with
    ⟨empty, _⟩ | taken
  · rw [empty slot] at found
    cases found
  · exact taken

/-- The thread stays in its queue. -/
theorem Keeps.stays
    {event : Event thread}
    (product : Bool)
    (wellFormed : course.scheduler.WellFormed)
    (found : member ∈ course.scheduler.queues slot)
    (keeps : Keeps member event) :
    member ∈ (course.step product event).scheduler.queues slot := by
  by_cases isCall : ∃ startingThread, event = .call startingThread
  · obtain ⟨startingThread, rfl⟩ := isCall
    by_cases atOnce : course.scheduler.answeredAtOnce startingThread = true
    · change member ∈ (course.scheduler.getNextRunnableThread product startingThread).queues slot
      rw [Scheduler.getNextRunnableThread, if_pos atOnce]
      exact found
    · obtain ⟨slot', _, result⟩ := step_of_searched product wellFormed found
        (Bool.eq_false_iff.mpr atOnce)
      rw [result]
      change member ∈ Function.update course.scheduler.refreshed.queues slot' _ slot
      rw [refreshed_queues]
      by_cases isSlot : slot = slot'
      · subst isSlot
        rw [Function.update_self]
        exact (Scheduler.turned_perm _ _).mem_iff.mpr found
      · rw [Function.update_of_ne isSlot]
        exact found
  · have isChange : ∀ startingThread, event ≠ .call startingThread :=
      fun startingThread same => isCall ⟨startingThread, same⟩
    exact (advances_of_keeps product found keeps isChange).1.stays

/-- Every call that looks into the queues brings the thread nearer, and no event the other way. -/
theorem waiting_step
    {event : Event thread}
    (product : Bool)
    (wellFormed : course.scheduler.WellFormed)
    (found : member ∈ course.scheduler.queues slot)
    (keeps : Keeps member event)
    (takes : TakesTurn course event)
    (short : (course.scheduler.queues slot).length ≤ longest)
    (missed : (course.step product event).scheduler.nextRunnableThread ≠ some member) :
    waiting member slot longest (course.step product event) +
        (looksIntoQueues course event).toNat ≤
      waiting member slot longest course := by
  unfold waiting
  by_cases isCall : ∃ startingThread, event = .call startingThread
  · obtain ⟨startingThread, rfl⟩ := isCall
    cases atOnce : course.scheduler.answeredAtOnce startingThread with
    | true =>
        have isSame : (course.step product (.call startingThread)).scheduler =
            course.scheduler := by
          change course.scheduler.getNextRunnableThread product startingThread = _
          rw [Scheduler.getNextRunnableThread, if_pos atOnce]
        have notFarther := distance_step_le longest
          (show Advances member (course.scheduler.queues slot)
            ((course.step product (.call startingThread)).scheduler.queues slot) by
              rw [isSame]
              exact .refl found) missed
        rw [isSame, looksIntoQueues, atOnce]
        simp only [Bool.not_true, Bool.toNat_false]
        omega
    | false =>
        obtain ⟨slot', turn, result⟩ := step_of_searched product wellFormed found atOnce
        rw [looksIntoQueues, atOnce]
        simp only [Bool.not_false, Bool.toNat_true]
        by_cases isSlot : slot = slot'
        · subst isSlot
          have nearer := distance_turn found short (takes atOnce slot turn) result missed
          have most := patience_le (course.step product (.call startingThread)).scheduler slot
          omega
        · have sameQueue : (course.step product (.call startingThread)).scheduler.queues slot =
              course.scheduler.queues slot := by
            rw [result]
            change Function.update course.scheduler.refreshed.queues slot' _ slot = _
            rw [Function.update_of_ne isSlot, refreshed_queues]
          have notFarther := distance_step_le longest
            (show Advances member (course.scheduler.queues slot)
              ((course.step product (.call startingThread)).scheduler.queues slot) by
                rw [sameQueue]
                exact .refl found) missed
          have waited := Scheduler.Turn.patience_select
            (Scheduler.turned startingThread (course.scheduler.queues slot')) turn
            (List.ne_nil_of_mem found) isSlot
          rw [← result] at waited
          omega
  · have isChange : ∀ startingThread, event ≠ .call startingThread :=
      fun startingThread same => isCall ⟨startingThread, same⟩
    obtain ⟨advances, counts⟩ := advances_of_keeps product found keeps isChange
    have notFarther := distance_step_le longest advances missed
    have samePatience : patience (course.step product event).scheduler slot =
        patience course.scheduler slot := by
      unfold patience quotaLeft
      rw [counts]
    have notCounted : looksIntoQueues course event = false := by
      cases event with
      | call startingThread =>
          exact absurd rfl (isChange startingThread)
      | addToActive | removeFromActive | setPriority | forget =>
          rfl
    rw [samePatience, notCounted, Bool.toNat_false]
    omega

end Waiting

/-- A thread that stays in a queue of at most `longest` threads that take turns is chosen within
`243 * (longest + 1)` calls. -/
theorem served_within
    {start : Course thread}
    {member : thread}
    {slot : Slot}
    (product : Bool)
    (wellFormed : start.scheduler.WellFormed)
    (found : member ∈ start.scheduler.queues slot)
    (longest : Nat) :
    ServedWithin product TakesTurn start member slot longest (243 * (longest + 1)) := by
  intro events follows many
  rcases follows_or_exists
    (fun course event =>
      ¬ (course.step product event).scheduler.nextRunnableThread = some member)
    start events with missed | ⟨before, event, after, split, chosen⟩
  · exfalso
    have bounded := follows.ticks_le
      (fun course => course.scheduler.WellFormed ∧ member ∈ course.scheduler.queues slot)
      (fun course => course.scheduler.nextRunnableThread = some member)
      looksIntoQueues (waiting member slot longest)
      (fun course event holds allowed =>
        ⟨holds.1.after product allowed.1, allowed.2.1.stays product holds.1 holds.2⟩)
      (fun course event holds allowed notChosen =>
        waiting_step product holds.1 holds.2 allowed.2.1 allowed.2.2.1 allowed.2.2.2 notChosen)
      ⟨wellFormed, found⟩ missed
    have atMost := patience_le start.scheduler slot
    cases events with
    | nil =>
        have none : 243 * (longest + 1) ≤ 0 := many
        omega
    | cons first rest =>
        have short : (start.scheduler.queues slot).length ≤ longest := follows.1.2.2.2
        have inside := List.idxOf_lt_length_of_mem found
        have near : distance start member slot longest ≤ longest := by
          unfold distance
          dsimp only
          split
          · omega
          · split <;> omega
        have enough : 243 * (longest + 1) ≤ waiting member slot longest start :=
          Nat.le_trans many bounded
        unfold waiting at enough
        omega
  · exact ⟨before, event, after, split, not_not.mp chosen⟩

/-- When the threads of every queue take turns, every active thread is chosen. -/
theorem selects_when_turns_are_taken
    (product : Bool)
    (start : Course thread)
    (wellFormed : start.scheduler.WellFormed) :
    SelectsWell product TakesTurn start := by
  have reached : ∀ events,
      Follows (Course.step product) (fun course event => Legal course event ∧ TakesTurn course event)
        start events →
      (events.foldl (Course.step product) start).scheduler.WellFormed := by
    intro events follows
    exact follows.invariant (fun course => course.scheduler.WellFormed)
      (fun course event holds allowed => holds.after product allowed.1) wellFormed
  refine
    { none_iff := ?_
      active := ?_
      terminates := ?_
      served := ?_ }
  · intro events follows startingThread scheduler
    rcases (reached events follows).result_cases product startingThread with
      ⟨inactive, result⟩ | ⟨member, active, result⟩
    · exact ⟨fun _ => inactive, fun _ => result⟩
    · constructor
      · intro none
        rw [result] at none
        cases none
      · intro inactive
        exact absurd active (inactive member)
  · intro events follows startingThread member scheduler isNext
    rcases (reached events follows).result_cases product startingThread with
      ⟨_, result⟩ | ⟨member', active, result⟩
    · rw [result] at isNext
      cases isNext
    · rw [result] at isNext
      cases isNext
      exact active
  · intro events follows startingThread innerLoopCount atLeast scheduler
    obtain ⟨more, rfl⟩ := Nat.exists_eq_add_of_le' atLeast
    exact (reached events follows).search_eq product startingThread more
  · intro member slot found longest
    exact ⟨_, served_within product wellFormed found longest⟩

/-! ## A queue that is never turned -/

instance (course : Course thread) (event : Event thread) : Decidable (Legal course event) :=
  match event with
  | .addToActive added slot =>
      inferInstanceAs (Decidable (slot ≠ 0 ∧ ¬ ∃ slot', added ∈ course.scheduler.queues slot'))
  | .removeFromActive removed slot =>
      inferInstanceAs (Decidable (removed ∈ course.scheduler.queues slot))
  | .setPriority _ _ newPriority => inferInstanceAs (Decidable (newPriority ≠ 0))
  | .call _ | .forget => .isTrue trivial

instance (member : thread) (event : Event thread) : Decidable (Keeps member event) :=
  match event with
  | .removeFromActive removed _ => inferInstanceAs (Decidable (removed ≠ member))
  | .setPriority moved _ _ => inferInstanceAs (Decidable (moved ≠ member))
  | .call _ | .addToActive _ _ | .forget => .isTrue trivial

/-- Two threads of normal priority, and one above them that sleeps most of the time. -/
inductive Worker
  | busy
  | starved
  | sleeper
  deriving DecidableEq, Repr

/-- Both threads of normal priority are active. -/
def crowded : Course Worker where
  scheduler :=
    { queues := fun slot => if slot = 5 then [.busy, .starved] else []
      priorityQueueValid := 32
      lastPriorityQueue := 5
      threadExecuteCounts := fun _ => 0
      nextRunnableThread := none }
  fresh := fun _ => true

/-- The sleeper yields after it has gone to sleep, and wakes up before the other thread yields. -/
def interrupted : List (Event Worker) :=
  [.call (some .sleeper), .addToActive .sleeper 6, .call (some .busy), .removeFromActive .sleeper 6]

theorem crowded_wellFormed : crowded.scheduler.WellFormed where
  unused := by decide
  valid := by decide
  validOnly := by
    intro bit above
    have inWord : ∀ bit : Fin 16, 11 ≤ bit.val →
        crowded.scheduler.priorityQueueValid.getLsbD bit.val = false := by decide
    by_cases fits : bit < 16
    · exact inWord ⟨bit, fits⟩ above
    · exact BitVec.getLsbD_of_ge _ _ (by omega)
  nodup := by decide
  apart := by
    intro slot slot' member here there
    have only : ∀ slot, member ∈ crowded.scheduler.queues slot → slot = 5 := by
      intro slot found
      by_contra other
      have empty : crowded.scheduler.queues slot = [] := if_neg other
      rw [empty] at found
      cases found
    rw [only slot here, only slot' there]
  cached := by
    intro member isNext
    cases isNext

theorem crowded_selects : SelectsWell false TakesTurn crowded :=
  selects_when_turns_are_taken false crowded crowded_wellFormed

/-- The head of the queue gets every turn, and the thread behind it none. -/
theorem crowded_starves : ¬ SelectsWell false (fun _ _ => True) crowded := by
  intro selects
  obtain ⟨calls, within⟩ := selects.served .starved 5 (by decide) 2
  let rest := (List.replicate 11 interrupted).flatten
  let later := interrupted.foldl (Course.step false) crowded
  have returns : rest.foldl (Course.step false) later = later := by
    apply Course.ext
    · apply Scheduler.ext <;> decide +kernel
    · decide +kernel
  have fine : Follows (Course.step false)
      (fun course event =>
        Legal course event ∧ Keeps Worker.starved event ∧ True ∧
          (course.scheduler.queues 5).length ≤ 2) crowded interrupted := by decide
  have fineLater : Follows (Course.step false)
      (fun course event =>
        Legal course event ∧ Keeps Worker.starved event ∧ True ∧
          (course.scheduler.queues 5).length ≤ 2) later rest := by decide +kernel
  have missed : Follows (Course.step false)
      (fun course event =>
        (course.step false event).scheduler.nextRunnableThread ≠ some .starved)
      crowded interrupted := by decide
  have missedLater : Follows (Course.step false)
      (fun course event =>
        (course.step false event).scheduler.nextRunnableThread ≠ some .starved)
      later rest := by decide
  have many : ticks (Course.step false) looksIntoQueues later rest = 22 := by decide
  have fineRun := fineLater.repeated looksIntoQueues returns calls
  have missedRun := missedLater.repeated looksIntoQueues returns calls
  obtain ⟨before, event, after, split, chosen⟩ :=
    within (interrupted ++ (List.replicate calls rest).flatten)
      (follows_append_iff.mpr ⟨fine, fineRun.1⟩) (by
        rw [ticks_append, fineRun.2, many]
        omega)
  have never := follows_append_iff.mpr ⟨missed, missedRun.1⟩
  rw [split] at never
  exact (follows_append_iff.mp never).2.1 chosen

end PicoJvm.ThreadSelection
