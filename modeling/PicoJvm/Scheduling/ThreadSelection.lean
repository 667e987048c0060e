import Mathlib.Data.Fintype.Pi
import Mathlib.Logic.Function.Basic

/-!
# Choosing the thread that runs next

The queues of active threads, one for each priority, and the choice among them. A queue whose
threads were chosen too often waits for the others until the counts start again.
-/

namespace PicoJvm.ThreadSelection

universe u

variable {thread : Type u} [DecidableEq thread]

/-! ## Queues -/

/-- A priority. There is a queue for each up to `NUM_PRIORITY_SLOTS`, and that of zero is unused. -/
abbrev Slot := Fin 11

instance slots_neZero : @NeZero Nat Zero.ofOfNat0 11 :=
  Nat.instNeZeroSucc

/-- The scheduler's tables. The circular list of a queue is read from its head. -/
@[ext]
structure Scheduler (thread : Type u) where
  queues : Slot → List thread
  priorityQueueValid : BitVec 16
  lastPriorityQueue : Slot
  threadExecuteCounts : Slot → Nat
  nextRunnableThread : Option thread

namespace Scheduler

def setPriorityValid (scheduler : Scheduler thread) (slot : Slot) : Scheduler thread :=
  { scheduler with
    priorityQueueValid := scheduler.priorityQueueValid ||| 1#16 <<< slot.val }

def clearPriorityValid (scheduler : Scheduler thread) (slot : Slot) : Scheduler thread :=
  { scheduler with
    priorityQueueValid := scheduler.priorityQueueValid &&& ~~~(1#16 <<< slot.val) }

/-- `add_to_active`: at the end of the list, and at its head when there is no other. -/
def addToActive (scheduler : Scheduler thread) (added : thread) (slot : Slot) : Scheduler thread :=
  let list := scheduler.queues slot ++ [added]
  { scheduler with queues := Function.update scheduler.queues slot list }.setPriorityValid slot

/-- `remove_from_list`, and the bit of a list that became empty. -/
def removeFromQueue (scheduler : Scheduler thread) (removed : thread) (slot : Slot) :
    Scheduler thread :=
  let list := (scheduler.queues slot).erase removed
  let scheduler := { scheduler with queues := Function.update scheduler.queues slot list }
  if list.isEmpty then scheduler.clearPriorityValid slot else scheduler

/-- `remove_from_active`. -/
def removeFromActive (scheduler : Scheduler thread) (removed : thread) (slot : Slot) :
    Scheduler thread :=
  let scheduler' := scheduler.removeFromQueue removed slot
  if scheduler.nextRunnableThread = some removed then
    { scheduler' with nextRunnableThread := (scheduler'.queues slot).head? }
  else
    scheduler'

/-- `set_priority`, of a thread that may be in no queue. -/
def setPriority (scheduler : Scheduler thread) (moved : thread) (oldPriority newPriority : Slot) :
    Scheduler thread :=
  if moved ∈ scheduler.queues oldPriority then
    (scheduler.removeFromQueue moved oldPriority).addToActive moved newPriority
  else
    scheduler

/-! ## The choice -/

def noHigherPriorityThreads (priorityQueueValid : BitVec 16) (lastPriorityQueue : Slot) : Bool :=
  priorityQueueValid != 0 &&
    (priorityQueueValid &&& ~~~(1#16 <<< (lastPriorityQueue.val + 1) - 1#16)) == 0

def resetThreadCounts (scheduler : Scheduler thread) : Scheduler thread :=
  { scheduler with threadExecuteCounts := fun _ => 0 }

/-- The thread at the head of the list is the one to run. -/
def select (scheduler : Scheduler thread) (slot : Slot) (list : List thread) : Scheduler thread :=
  { scheduler with
    lastPriorityQueue := slot
    queues := Function.update scheduler.queues slot list
    nextRunnableThread := list.head?
    threadExecuteCounts :=
      Function.update scheduler.threadExecuteCounts slot
        ((scheduler.threadExecuteCounts slot + 1) % 256) }

/-- The list from the thread that is looked at first: the one behind the head when the head is the
thread that yields. -/
def turned (startingThread : Option thread) : List thread → List thread
  | [] => []
  | head :: rest => if startingThread = some head then rest ++ [head] else head :: rest

/-- A thread was chosen, or every priority was passed over, some because of the quota. -/
inductive Scan (thread : Type u)
  | chosen (scheduler : Scheduler thread)
  | passed (threadQuotaExceeded : Bool)

/-- The loop over the priorities, downwards. -/
def scan (scheduler : Scheduler thread) (startingThread : Option thread) :
    (priority : Nat) → priority < 11 → Bool → Scan thread
  | 0, _, threadQuotaExceeded => .passed threadQuotaExceeded
  | priority + 1, inSlots, threadQuotaExceeded =>
      let slot : Slot := ⟨priority + 1, inSlots⟩
      if scheduler.queues slot = [] then
        scan scheduler startingThread priority (Nat.lt_of_succ_lt inSlots) threadQuotaExceeded
      else if scheduler.threadExecuteCounts slot > (priority + 1) * 2 then
        scan scheduler startingThread priority (Nat.lt_of_succ_lt inSlots) true
      else
        .chosen (scheduler.select slot (turned startingThread (scheduler.queues slot)))

/-- The loop around it, for `inner_loop_count` rounds at most. A product build leaves it when no
queue is marked. -/
def search (product : Bool) (startPriority : Slot) (startingThread : Option thread) :
    Nat → Scheduler thread → Scheduler thread
  | 0, scheduler => { scheduler with nextRunnableThread := none }
  | innerLoopCount + 1, scheduler =>
      if product && scheduler.priorityQueueValid == 0 then
        { scheduler with nextRunnableThread := none }
      else
        match scan scheduler startingThread startPriority.val startPriority.isLt false with
        | .chosen scheduler' => scheduler'
        | .passed true =>
            search product startPriority startingThread innerLoopCount scheduler.resetThreadCounts
        | .passed false => { scheduler with nextRunnableThread := none }

/-- Where the search starts. -/
def startPriority (scheduler : Scheduler thread) : Slot :=
  if noHigherPriorityThreads scheduler.priorityQueueValid scheduler.lastPriorityQueue then
    scheduler.lastPriorityQueue
  else
    10

/-- The call is answered from `_next_runnable_thread`. -/
def answeredAtOnce (scheduler : Scheduler thread) (startingThread : Option thread) : Bool :=
  startingThread.isNone && scheduler.nextRunnableThread.isSome

/-- `get_next_runnable_thread`. The thread it returns is the new `_next_runnable_thread`. -/
def getNextRunnableThread (product : Bool) (startingThread : Option thread)
    (scheduler : Scheduler thread) : Scheduler thread :=
  if scheduler.answeredAtOnce startingThread then
    scheduler
  else
    search product scheduler.startPriority startingThread 2 scheduler

/-! ## What is chosen -/

/-- The queue has threads, and its quota is not used up. -/
def Ready (scheduler : Scheduler thread) (slot : Slot) : Prop :=
  scheduler.queues slot ≠ [] ∧ scheduler.threadExecuteCounts slot ≤ slot.val * 2

instance (scheduler : Scheduler thread) (slot : Slot) : Decidable (scheduler.Ready slot) :=
  inferInstanceAs (Decidable (_ ∧ _))

/-- The queue whose turn it is: the highest that is ready, or when none is, the highest that has
threads. -/
def Turn (scheduler : Scheduler thread) (slot : Slot) : Prop :=
  (scheduler.Ready slot ∧ ∀ higher, slot < higher → ¬ scheduler.Ready higher) ∨
    ((∀ other, ¬ scheduler.Ready other) ∧ scheduler.queues slot ≠ [] ∧
      ∀ higher, slot < higher → scheduler.queues higher = [])

instance (scheduler : Scheduler thread) (slot : Slot) : Decidable (scheduler.Turn slot) :=
  inferInstanceAs (Decidable (_ ∨ _))

/-- The counts start again when no queue is ready. -/
def refreshed (scheduler : Scheduler thread) : Scheduler thread :=
  if ∀ slot, ¬ scheduler.Ready slot then scheduler.resetThreadCounts else scheduler

/-- Tables whose parts agree. -/
structure WellFormed (scheduler : Scheduler thread) : Prop where
  unused : scheduler.queues 0 = []
  valid :
    ∀ slot : Slot, scheduler.priorityQueueValid.getLsbD slot.val = true ↔
      scheduler.queues slot ≠ []
  validOnly : ∀ bit, 11 ≤ bit → scheduler.priorityQueueValid.getLsbD bit = false
  nodup : ∀ slot, (scheduler.queues slot).Nodup
  apart :
    ∀ slot slot' member, member ∈ scheduler.queues slot → member ∈ scheduler.queues slot' →
      slot = slot'
  cached :
    ∀ member, scheduler.nextRunnableThread = some member →
      ∃ slot, member ∈ scheduler.queues slot

/-- The thread is in one of the queues. -/
def Active (scheduler : Scheduler thread) (member : thread) : Prop :=
  ∃ slot, member ∈ scheduler.queues slot

section Choice

variable {scheduler : Scheduler thread} {startingThread : Option thread}

theorem higherMask :
    ∀ last slot : Slot,
      (~~~(1#16 <<< (last.val + 1) - 1#16)).getLsbD slot.val = decide (last < slot) := by
  decide

omit [DecidableEq thread] in
/-- The search starts above all queues that have threads. -/
theorem WellFormed.le_startPriority
    (wellFormed : scheduler.WellFormed)
    {slot : Slot}
    (hasThreads : scheduler.queues slot ≠ []) :
    slot ≤ scheduler.startPriority := by
  unfold startPriority
  split
  · next noHigher =>
      by_contra above
      have marked := (wellFormed.valid slot).mpr hasThreads
      have inMask := higherMask scheduler.lastPriorityQueue slot
      rw [decide_eq_true (not_le.mp above)] at inMask
      simp only [noHigherPriorityThreads, Bool.and_eq_true, beq_iff_eq] at noHigher
      have bit : (scheduler.priorityQueueValid &&&
          ~~~(1#16 <<< (scheduler.lastPriorityQueue.val + 1) - 1#16)).getLsbD slot.val = true := by
        rw [BitVec.getLsbD_and, marked, inMask]
        rfl
      rw [noHigher.2] at bit
      simp at bit
  · exact Fin.le_last slot

omit [DecidableEq thread] in
theorem WellFormed.valid_eq_zero
    (wellFormed : scheduler.WellFormed) :
    (scheduler.priorityQueueValid == 0) = true ↔ ∀ slot, scheduler.queues slot = [] := by
  rw [beq_iff_eq]
  constructor
  · intro isZero slot
    by_contra hasThreads
    have marked := (wellFormed.valid slot).mpr hasThreads
    rw [isZero] at marked
    simp at marked
  · intro empty
    apply BitVec.eq_of_getLsbD_eq
    intro bit _
    rw [show (0 : BitVec 16).getLsbD bit = false by simp]
    by_cases inSlots : bit < 11
    · by_contra marked
      have isMarked : scheduler.priorityQueueValid.getLsbD bit = true := by simpa using marked
      exact (wellFormed.valid ⟨bit, inSlots⟩).mp isMarked (empty _)
    · exact wellFormed.validOnly bit (by omega)

/-- What a scan from a priority downwards comes to: the highest ready queue, or the news whether some
queue has threads. -/
inductive Scans (scheduler : Scheduler thread) (startingThread : Option thread) (priority : Nat)
    (threadQuotaExceeded : Bool) : Scan thread → Prop
  | chosen {slot : Slot} :
      slot.val ≤ priority → scheduler.Ready slot →
      (∀ higher : Slot, slot < higher → higher.val ≤ priority → ¬ scheduler.Ready higher) →
      Scans scheduler startingThread priority threadQuotaExceeded
        (.chosen (scheduler.select slot (turned startingThread (scheduler.queues slot))))
  | passed {threadQuotaExceeded' : Bool} :
      (∀ slot : Slot, slot.val ≤ priority → ¬ scheduler.Ready slot) →
      (threadQuotaExceeded' = true ↔
        threadQuotaExceeded = true ∨
          ∃ slot : Slot, slot.val ≤ priority ∧ scheduler.queues slot ≠ []) →
      Scans scheduler startingThread priority threadQuotaExceeded (.passed threadQuotaExceeded')

/-- A queue that is passed over. -/
theorem Scans.succ
    {priority : Nat}
    {inSlots : priority + 1 < 11}
    {threadQuotaExceeded exceeded : Bool}
    {result : Scan thread}
    (notReady : ¬ scheduler.Ready ⟨priority + 1, inSlots⟩)
    (isExceeded : exceeded = true ↔
      threadQuotaExceeded = true ∨ scheduler.queues ⟨priority + 1, inSlots⟩ ≠ [])
    (scans : Scans scheduler startingThread priority exceeded result) :
    Scans scheduler startingThread (priority + 1) threadQuotaExceeded result := by
  have next : ∀ slot : Slot, slot.val ≤ priority + 1 →
      slot.val ≤ priority ∨ slot = ⟨priority + 1, inSlots⟩ := by
    intro slot isBelow
    rcases Nat.lt_or_eq_of_le isBelow with below | same
    · exact Or.inl (Nat.lt_succ_iff.mp below)
    · exact Or.inr (Fin.ext same)
  cases scans with
  | chosen below ready highest =>
      refine .chosen (Nat.le_succ_of_le below) ready ?_
      intro higher above isBelow
      rcases next higher isBelow with lower | same
      · exact highest higher above lower
      · rw [same]
        exact notReady
  | passed none told =>
      refine .passed ?_ ?_
      · intro slot isBelow
        rcases next slot isBelow with lower | same
        · exact none slot lower
        · rw [same]
          exact notReady
      · rw [told, isExceeded, or_assoc]
        apply or_congr_right
        constructor
        · rintro (here | ⟨slot, below, hasThreads⟩)
          · exact ⟨_, Nat.le_refl _, here⟩
          · exact ⟨slot, Nat.le_succ_of_le below, hasThreads⟩
        · rintro ⟨slot, isBelow, hasThreads⟩
          rcases next slot isBelow with lower | same
          · exact Or.inr ⟨slot, lower, hasThreads⟩
          · exact Or.inl (same ▸ hasThreads)

theorem scan_scans
    (scheduler : Scheduler thread)
    (unused : scheduler.queues 0 = [])
    (startingThread : Option thread)
    (priority : Nat)
    (inSlots : priority < 11)
    (threadQuotaExceeded : Bool) :
    Scans scheduler startingThread priority threadQuotaExceeded
      (scan scheduler startingThread priority inSlots threadQuotaExceeded) := by
  induction priority generalizing threadQuotaExceeded with
  | zero =>
      have onlyZero : ∀ slot : Slot, slot.val ≤ 0 → scheduler.queues slot = [] := by
        intro slot isLeast
        have isZero : slot = 0 := Fin.ext (Nat.le_zero.mp isLeast)
        rw [isZero, unused]
      refine .passed (fun slot isLeast ready => ready.1 (onlyZero slot isLeast)) ?_
      constructor
      · exact Or.inl
      · rintro (already | ⟨slot, isLeast, hasThreads⟩)
        · exact already
        · exact absurd (onlyZero slot isLeast) hasThreads
  | succ priority inductionHypothesis =>
      have lower := inductionHypothesis (Nat.lt_of_succ_lt inSlots)
      by_cases empty : scheduler.queues ⟨priority + 1, inSlots⟩ = []
      · rw [scan, if_pos empty]
        apply (lower threadQuotaExceeded).succ
        · intro ready
          exact ready.1 empty
        · simp [empty]
      · by_cases used : scheduler.threadExecuteCounts ⟨priority + 1, inSlots⟩ > (priority + 1) * 2
        · rw [scan, if_neg empty, if_pos used]
          apply (lower true).succ
          · intro ready
            exact absurd ready.2 (not_le.mpr used)
          · simp [empty]
        · rw [scan, if_neg empty, if_neg used]
          refine .chosen (Nat.le_refl _) ⟨empty, not_lt.mp used⟩ ?_
          intro higher above isBelow
          exact absurd above (not_lt.mpr isBelow)

/-- With no thread in any queue, none is chosen; otherwise the queue whose turn it is gives one. The
loop ends before its counter does. -/
theorem search_cases
    (wellFormed : scheduler.WellFormed)
    (product : Bool)
    (startingThread : Option thread)
    (more : Nat) :
    ((∀ slot, scheduler.queues slot = []) ∧
        search product scheduler.startPriority startingThread (more + 2) scheduler =
          { scheduler with nextRunnableThread := none }) ∨
      ∃ slot, scheduler.Turn slot ∧
        search product scheduler.startPriority startingThread (more + 2) scheduler =
          scheduler.refreshed.select slot (turned startingThread (scheduler.queues slot)) := by
  have start := fun slot (hasThreads : scheduler.queues slot ≠ []) =>
    wellFormed.le_startPriority hasThreads
  generalize scheduler.startPriority = startPriority at start ⊢
  have beyond : ∀ slot, startPriority < slot → scheduler.queues slot = [] := by
    intro slot above
    by_contra hasThreads
    exact absurd (start slot hasThreads) (not_le.mpr above)
  by_cases left : (product && scheduler.priorityQueueValid == 0) = true
  · refine Or.inl ⟨wellFormed.valid_eq_zero.mp (Bool.and_eq_true_iff.mp left).2, ?_⟩
    rw [search, if_pos left]
  · have first := scan_scans scheduler wellFormed.unused startingThread startPriority.val
      startPriority.isLt false
    rw [search, if_neg left]
    cases isFirst : scan scheduler startingThread startPriority.val startPriority.isLt false with
    | chosen scheduler' =>
        rw [isFirst] at first
        cases first with
        | @chosen slot below ready highest =>
            refine Or.inr ⟨slot, Or.inl ⟨ready, ?_⟩, ?_⟩
            · intro higher above
              by_cases inScan : higher ≤ startPriority
              · exact highest higher above inScan
              · exact fun isReady => isReady.1 (beyond higher (not_le.mp inScan))
            · rw [refreshed, if_neg fun none => none slot ready]
    | passed exceeded =>
        rw [isFirst] at first
        cases first with
        | passed none told =>
            have noneReady : ∀ slot, ¬ scheduler.Ready slot := by
              intro slot ready
              exact none slot (start slot ready.1) ready
            cases exceeded with
            | false =>
                refine Or.inl ⟨?_, rfl⟩
                intro slot
                by_contra hasThreads
                have exceeded := told.mpr (Or.inr ⟨slot, start slot hasThreads, hasThreads⟩)
                cases exceeded
            | true =>
                have second := scan_scans scheduler.resetThreadCounts wellFormed.unused startingThread
                  startPriority.val startPriority.isLt false
                have stays : ¬ (product &&
                    scheduler.resetThreadCounts.priorityQueueValid == 0) = true := left
                dsimp only
                rw [search, if_neg stays]
                cases isSecond : scan scheduler.resetThreadCounts startingThread startPriority.val
                    startPriority.isLt false with
                | chosen scheduler' =>
                    rw [isSecond] at second
                    cases second with
                    | @chosen slot below ready highest =>
                        refine Or.inr ⟨slot, Or.inr ⟨noneReady, ready.1, ?_⟩, ?_⟩
                        · intro higher above
                          by_cases inScan : higher ≤ startPriority
                          · by_contra hasThreads
                            exact highest higher above inScan ⟨hasThreads, Nat.zero_le _⟩
                          · exact beyond higher (not_le.mp inScan)
                        · rw [refreshed, if_pos noneReady]
                          rfl
                | passed exceeded =>
                    rw [isSecond] at second
                    cases second with
                    | passed noneAgain _ =>
                        obtain impossible | ⟨slot, below, hasThreads⟩ := told.mp rfl
                        · cases impossible
                        · exact absurd ⟨hasThreads, Nat.zero_le _⟩ (noneAgain slot below)

theorem getNextRunnableThread_cases
    (wellFormed : scheduler.WellFormed)
    (product : Bool)
    (searched : scheduler.answeredAtOnce startingThread = false) :
    ((∀ slot, scheduler.queues slot = []) ∧
        getNextRunnableThread product startingThread scheduler =
          { scheduler with nextRunnableThread := none }) ∨
      ∃ slot, scheduler.Turn slot ∧
        getNextRunnableThread product startingThread scheduler =
          scheduler.refreshed.select slot (turned startingThread (scheduler.queues slot)) := by
  rw [getNextRunnableThread, if_neg (by rw [searched]; decide)]
  exact search_cases wellFormed product startingThread 0

end Choice

/-! ## Well-formed tables stay so -/

section Kept

variable {scheduler : Scheduler thread}

theorem turned_perm (startingThread : Option thread) (list : List thread) :
    (turned startingThread list).Perm list := by
  cases list with
  | nil =>
      exact .refl _
  | cons head rest =>
      rw [turned]
      split
      · exact List.perm_append_singleton head rest
      · exact .refl _

omit [DecidableEq thread] in
/-- Any active thread may be the next one to run. -/
theorem WellFormed.withNext
    (wellFormed : scheduler.WellFormed)
    (next : Option thread)
    (cached : ∀ member, next = some member → scheduler.Active member) :
    { scheduler with nextRunnableThread := next }.WellFormed :=
  { wellFormed with cached := cached }

omit [DecidableEq thread] in
theorem WellFormed.forget
    (wellFormed : scheduler.WellFormed) :
    { scheduler with nextRunnableThread := none }.WellFormed :=
  wellFormed.withNext none fun _ impossible => by cases impossible

omit [DecidableEq thread] in
theorem WellFormed.refreshed
    (wellFormed : scheduler.WellFormed) :
    scheduler.refreshed.WellFormed := by
  unfold Scheduler.refreshed
  split
  · exact { wellFormed with }
  · exact wellFormed

omit [DecidableEq thread] in
/-- The list of one queue is replaced by one of the same threads. -/
theorem WellFormed.select
    (wellFormed : scheduler.WellFormed)
    {slot : Slot}
    {list : List thread}
    (same : list.Perm (scheduler.queues slot)) :
    (scheduler.select slot list).WellFormed := by
  have members : ∀ slot' member, member ∈ (scheduler.select slot list).queues slot' ↔
      member ∈ scheduler.queues slot' := by
    intro slot' member
    change member ∈ Function.update scheduler.queues slot list slot' ↔ _
    by_cases isSlot : slot' = slot
    · rw [isSlot, Function.update_self]
      exact same.mem_iff
    · rw [Function.update_of_ne isSlot]
  have empty : ∀ slot', (scheduler.select slot list).queues slot' = [] ↔
      scheduler.queues slot' = [] := by
    intro slot'
    simp only [List.eq_nil_iff_forall_not_mem, members]
  refine
    { unused := (empty 0).mpr wellFormed.unused
      valid := fun slot' => (wellFormed.valid slot').trans (not_congr (empty slot').symm)
      validOnly := wellFormed.validOnly
      nodup := ?_
      apart := ?_
      cached := ?_ }
  · intro slot'
    change (Function.update scheduler.queues slot list slot').Nodup
    by_cases isSlot : slot' = slot
    · rw [isSlot, Function.update_self]
      exact same.nodup_iff.mpr (wellFormed.nodup slot)
    · rw [Function.update_of_ne isSlot]
      exact wellFormed.nodup slot'
  · intro slot' slot'' member here there
    exact wellFormed.apart slot' slot'' member ((members _ _).mp here) ((members _ _).mp there)
  · intro member isNext
    refine ⟨slot, (members _ _).mpr (same.mem_iff.mp ?_)⟩
    exact List.mem_of_head? isNext

theorem WellFormed.getNextRunnableThread
    (wellFormed : scheduler.WellFormed)
    (product : Bool)
    (startingThread : Option thread) :
    (getNextRunnableThread product startingThread scheduler).WellFormed := by
  by_cases atOnce : scheduler.answeredAtOnce startingThread = true
  · rw [Scheduler.getNextRunnableThread, if_pos atOnce]
    exact wellFormed
  · rcases getNextRunnableThread_cases wellFormed product (Bool.eq_false_iff.mpr atOnce) with
      ⟨_, result⟩ | ⟨slot, _, result⟩
    · rw [result]
      exact wellFormed.forget
    · rw [result]
      apply wellFormed.refreshed.select
      have sameQueues : scheduler.refreshed.queues = scheduler.queues := by
        unfold Scheduler.refreshed
        split <;> rfl
      rw [sameQueues]
      exact turned_perm _ _

omit [DecidableEq thread] in
theorem markOf :
    ∀ slot slot' : Slot, (1#16 <<< slot.val).getLsbD slot'.val = decide (slot' = slot) := by
  decide

omit [DecidableEq thread] in
theorem markOf_above (slot : Slot) {bit : Nat} (above : 11 ≤ bit) :
    (1#16 <<< slot.val).getLsbD bit = false := by
  have inWord : ∀ slot : Slot, ∀ bit : Fin 16, 11 ≤ bit.val →
      (1#16 <<< slot.val).getLsbD bit.val = false := by decide
  by_cases fits : bit < 16
  · exact inWord slot ⟨bit, fits⟩ above
  · exact BitVec.getLsbD_of_ge _ _ (by omega)

omit [DecidableEq thread] in
theorem addToActive_queues (scheduler : Scheduler thread) (added : thread) (slot slot' : Slot) :
    (scheduler.addToActive added slot).queues slot' =
      if slot' = slot then scheduler.queues slot ++ [added] else scheduler.queues slot' :=
  Function.update_apply _ _ _ _

omit [DecidableEq thread] in
theorem mem_addToActive_queues {added member : thread} {slot slot' : Slot} :
    member ∈ (scheduler.addToActive added slot).queues slot' ↔
      member ∈ scheduler.queues slot' ∨ (slot' = slot ∧ member = added) := by
  rw [addToActive_queues]
  split
  · next isSlot => simp [isSlot]
  · next other => simp [other]

omit [DecidableEq thread] in
/-- A thread that was in no queue is added to one. -/
theorem WellFormed.addToActive
    (wellFormed : scheduler.WellFormed)
    {added : thread}
    {slot : Slot}
    (isPriority : slot ≠ 0)
    (inactive : ¬ scheduler.Active added) :
    (scheduler.addToActive added slot).WellFormed := by
  have queues := addToActive_queues scheduler added slot
  refine
    { unused := ?_
      valid := ?_
      validOnly := ?_
      nodup := ?_
      apart := ?_
      cached := ?_ }
  · rw [queues, if_neg (Ne.symm isPriority)]
    exact wellFormed.unused
  · intro slot'
    change (scheduler.priorityQueueValid ||| 1#16 <<< slot.val).getLsbD slot'.val = true ↔ _
    rw [BitVec.getLsbD_or, markOf, Bool.or_eq_true, wellFormed.valid, queues, decide_eq_true_iff]
    split
    · next isSlot => simp [isSlot]
    · next other => simp [other]
  · intro bit above
    change (scheduler.priorityQueueValid ||| 1#16 <<< slot.val).getLsbD bit = false
    rw [BitVec.getLsbD_or, markOf_above slot above, wellFormed.validOnly bit above]
    rfl
  · intro slot'
    rw [queues]
    split
    · apply List.Nodup.append (wellFormed.nodup slot) (List.nodup_singleton added)
      intro member inQueue isAdded
      rw [List.mem_singleton] at isAdded
      exact inactive ⟨slot, isAdded ▸ inQueue⟩
    · exact wellFormed.nodup slot'
  · intro slot' slot'' member here there
    rw [mem_addToActive_queues] at here there
    rcases here with here | ⟨isSlot, isAdded⟩
    · rcases there with there | ⟨_, isAdded⟩
      · exact wellFormed.apart slot' slot'' member here there
      · exact absurd ⟨slot', isAdded ▸ here⟩ inactive
    · rcases there with there | ⟨isSlot', _⟩
      · exact absurd ⟨slot'', isAdded ▸ there⟩ inactive
      · rw [isSlot, isSlot']
  · intro member isNext
    obtain ⟨slot', inQueue⟩ := wellFormed.cached member isNext
    exact ⟨slot', mem_addToActive_queues.2 (Or.inl inQueue)⟩

theorem removeFromQueue_queues (scheduler : Scheduler thread) (removed : thread)
    (slot slot' : Slot) :
    (scheduler.removeFromQueue removed slot).queues slot' =
      if slot' = slot then (scheduler.queues slot).erase removed else scheduler.queues slot' := by
  unfold removeFromQueue
  dsimp only
  split <;> exact Function.update_apply _ _ _ _

theorem removeFromQueue_valid (scheduler : Scheduler thread) (removed : thread) (slot : Slot) :
    (scheduler.removeFromQueue removed slot).priorityQueueValid =
      if ((scheduler.queues slot).erase removed).isEmpty then
        scheduler.priorityQueueValid &&& ~~~(1#16 <<< slot.val)
      else
        scheduler.priorityQueueValid := by
  unfold removeFromQueue
  dsimp only
  split <;> rfl

/-- What is left when a thread that is in a queue is taken out, with no thread to run next. -/
theorem WellFormed.removeFromQueue
    (wellFormed : scheduler.WellFormed)
    {removed : thread}
    {slot : Slot}
    (inQueue : removed ∈ scheduler.queues slot) :
    { scheduler.removeFromQueue removed slot with nextRunnableThread := none }.WellFormed := by
  have queues := removeFromQueue_queues scheduler removed slot
  have valid := removeFromQueue_valid scheduler removed slot
  have sub : ∀ slot' member,
      member ∈ (scheduler.removeFromQueue removed slot).queues slot' →
        member ∈ scheduler.queues slot' := by
    intro slot' member
    rw [queues]
    split
    · next isSlot =>
        rw [isSlot]
        exact List.mem_of_mem_erase
    · exact id
  refine
    { unused := ?_
      valid := ?_
      validOnly := ?_
      nodup := ?_
      apart := fun slot' slot'' member here there =>
        wellFormed.apart slot' slot'' member (sub _ _ here) (sub _ _ there)
      cached := fun _ impossible => by cases impossible }
  · apply List.eq_nil_iff_forall_not_mem.mpr
    intro member found
    have := sub 0 member found
    rw [wellFormed.unused] at this
    cases this
  · intro slot'
    have before := wellFormed.valid slot'
    dsimp only
    rw [valid, queues]
    by_cases isSlot : slot' = slot
    · rw [if_pos isSlot]
      split
      · next empty =>
          rw [BitVec.getLsbD_and, BitVec.getLsbD_not, markOf, isSlot]
          simp [List.isEmpty_iff.mp empty]
      · next notEmpty =>
          rw [isSlot] at before ⊢
          rw [before]
          have hasThreads : scheduler.queues slot ≠ [] := List.ne_nil_of_mem inQueue
          simp only [ne_eq, hasThreads, not_false_eq_true, true_iff]
          exact fun isNil => notEmpty (List.isEmpty_iff.mpr isNil)
    · rw [if_neg isSlot, ← before]
      split
      · rw [BitVec.getLsbD_and, BitVec.getLsbD_not, markOf, decide_eq_false isSlot]
        have inWord : slot'.val < 16 := by omega
        simp [inWord]
      · rfl
  · intro bit above
    dsimp only
    rw [valid]
    split
    · rw [BitVec.getLsbD_and, wellFormed.validOnly bit above]
      rfl
    · exact wellFormed.validOnly bit above
  · intro slot'
    dsimp only
    rw [queues]
    split
    · exact (wellFormed.nodup slot).erase removed
    · exact wellFormed.nodup slot'

theorem removeFromQueue_next (scheduler : Scheduler thread) (removed : thread) (slot : Slot) :
    (scheduler.removeFromQueue removed slot).nextRunnableThread =
      scheduler.nextRunnableThread := by
  unfold removeFromQueue
  dsimp only
  split <;> rfl

/-- The other threads stay active. -/
theorem Active.removeFromQueue
    {removed member : thread}
    (slot : Slot)
    (active : scheduler.Active member)
    (other : member ≠ removed) :
    (scheduler.removeFromQueue removed slot).Active member := by
  obtain ⟨slot', found⟩ := active
  refine ⟨slot', ?_⟩
  rw [removeFromQueue_queues]
  split
  · next isSlot => exact (List.mem_erase_of_ne other).mpr (isSlot ▸ found)
  · exact found

theorem WellFormed.removeFromActive
    (wellFormed : scheduler.WellFormed)
    {removed : thread}
    {slot : Slot}
    (inQueue : removed ∈ scheduler.queues slot) :
    (scheduler.removeFromActive removed slot).WellFormed := by
  have left := wellFormed.removeFromQueue inQueue
  unfold Scheduler.removeFromActive
  dsimp only
  split
  · exact left.withNext _ fun member isHead => ⟨slot, List.mem_of_head? isHead⟩
  · next notNext =>
      have kept := left.withNext scheduler.nextRunnableThread fun member isNext =>
        (show scheduler.Active member from wellFormed.cached member isNext).removeFromQueue _
          fun isRemoved => notNext (isRemoved ▸ isNext)
      rw [← removeFromQueue_next scheduler removed slot] at kept
      exact kept

theorem WellFormed.setPriority
    (wellFormed : scheduler.WellFormed)
    {moved : thread}
    {oldPriority newPriority : Slot}
    (isPriority : newPriority ≠ 0) :
    (scheduler.setPriority moved oldPriority newPriority).WellFormed := by
  unfold Scheduler.setPriority
  split
  · next inQueue =>
      have left := wellFormed.removeFromQueue inQueue
      have inactive : ¬ (scheduler.removeFromQueue moved oldPriority).Active moved := by
        rintro ⟨slot, found⟩
        rw [removeFromQueue_queues] at found
        split at found
        · exact (wellFormed.nodup oldPriority).not_mem_erase found
        · next other => exact other (wellFormed.apart _ _ _ found inQueue)
      have added := left.addToActive isPriority inactive
      have kept := added.withNext scheduler.nextRunnableThread (by
        intro member isNext
        have wasActive : scheduler.Active member := wellFormed.cached member isNext
        by_cases isMoved : member = moved
        · exact ⟨newPriority, mem_addToActive_queues.2 (Or.inr ⟨rfl, isMoved⟩)⟩
        · obtain ⟨slot, found⟩ := wasActive.removeFromQueue oldPriority isMoved
          exact ⟨slot, mem_addToActive_queues.2 (Or.inl found)⟩)
      rw [← removeFromQueue_next scheduler moved oldPriority] at kept
      exact kept
  · exact wellFormed

end Kept

end Scheduler

end PicoJvm.ThreadSelection
