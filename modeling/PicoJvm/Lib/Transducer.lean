import Mathlib.Data.List.Induction

/-!
# Transducers

A component answers each event it is given and changes its state. The history of a run
keeps the answers, and what every step preserves holds of all runs.
-/

namespace PicoJvm.Lib.Transducer

universe u v w

variable {state : Type u} {event : Type v} {answer : Type w}

/-- The answers to a list of events, and the state behind it. -/
def run (respond : state → event → answer × state) (start : state) :
    List event → List (event × answer) × state
  | [] => ([], start)
  | current :: rest =>
      let (given, next) := respond start current
      let (history, last) := run respond next rest
      ((current, given) :: history, last)

/-- The events with the answers to them. -/
def historyOf
    (respond : state → event → answer × state) (start : state) (events : List event) :
    List (event × answer) :=
  (run respond start events).1

/-- The state behind the events. -/
def stateAfter
    (respond : state → event → answer × state) (start : state) (events : List event) : state :=
  (run respond start events).2

/-- Each event of a run meets a condition on the state it finds. -/
def StepsMeet
    (respond : state → event → answer × state) (start : state)
    (condition : state → event → Prop) (events : List event) : Prop :=
  ∀ before current after, events = before ++ current :: after →
    condition (stateAfter respond start before) current

section Runs

variable (respond : state → event → answer × state) (start : state)

@[simp] theorem historyOf_nil : historyOf respond start [] = [] :=
  rfl

@[simp] theorem stateAfter_nil : stateAfter respond start [] = start :=
  rfl

theorem run_append (events events' : List event) :
    run respond start (events ++ events') =
      ((run respond start events).1 ++ (run respond (run respond start events).2 events').1,
        (run respond (run respond start events).2 events').2) := by
  induction events generalizing start with
  | nil =>
      rfl
  | cons current rest inductionHypothesis =>
      simp [run, inductionHypothesis]

theorem historyOf_snoc (events : List event) (current : event) :
    historyOf respond start (events ++ [current]) =
      historyOf respond start events ++
        [(current, (respond (stateAfter respond start events) current).1)] := by
  unfold historyOf stateAfter
  rw [run_append]
  rfl

theorem stateAfter_snoc (events : List event) (current : event) :
    stateAfter respond start (events ++ [current]) =
      (respond (stateAfter respond start events) current).2 := by
  unfold stateAfter
  rw [run_append]
  rfl

end Runs

section Invariants

variable {respond : state → event → answer × state} {start : state}
  {condition : state → event → Prop}

theorem StepsMeet.of_append
    {events events' : List event}
    (meets : StepsMeet respond start condition (events ++ events')) :
    StepsMeet respond start condition events := by
  intro before current after split
  exact meets before current (after ++ events') (by rw [split]; simp)

theorem StepsMeet.last
    {events : List event} {current : event}
    (meets : StepsMeet respond start condition (events ++ [current])) :
    condition (stateAfter respond start events) current :=
  meets events current [] rfl

/-- What holds at first, and is kept by each step that meets the condition, holds behind every
run whose steps all meet it. -/
theorem history_induction
    (invariant : List (event × answer) → state → Prop)
    (initial : invariant [] start)
    (step : ∀ history current next, invariant history current → condition current next →
      invariant (history ++ [(next, (respond current next).1)]) (respond current next).2)
    {events : List event}
    (meets : StepsMeet respond start condition events) :
    invariant (historyOf respond start events) (stateAfter respond start events) := by
  induction events using List.reverseRecOn with
  | nil =>
      exact initial
  | append_singleton events current inductionHypothesis =>
      rw [historyOf_snoc, stateAfter_snoc]
      exact step _ _ _ (inductionHypothesis meets.of_append) meets.last

/-- What holds at first and is kept by each step holds behind every run. -/
theorem state_induction
    {invariant : state → Prop}
    (initial : invariant start)
    (step : ∀ current next, invariant current → invariant (respond current next).2)
    (events : List event) :
    invariant (stateAfter respond start events) := by
  induction events using List.reverseRecOn with
  | nil =>
      exact initial
  | append_singleton events current inductionHypothesis =>
      rw [stateAfter_snoc]
      exact step _ _ inductionHypothesis

/-- When related states give the same answers and stay related, whatever is asked under the
condition, the runs give the same answers. -/
theorem simulation
    {state' : Type*} {respond' : state' → event → answer × state'} {start' : state'}
    (relation : state → state' → Prop)
    (initial : relation start start')
    (step : ∀ current current' next, relation current current' → condition current next →
      (respond current next).1 = (respond' current' next).1 ∧
        relation (respond current next).2 (respond' current' next).2)
    {events : List event}
    (meets : StepsMeet respond start condition events) :
    historyOf respond start events = historyOf respond' start' events ∧
      relation (stateAfter respond start events) (stateAfter respond' start' events) := by
  induction events using List.reverseRecOn with
  | nil =>
      exact ⟨rfl, initial⟩
  | append_singleton events current inductionHypothesis =>
      obtain ⟨same, related⟩ := inductionHypothesis meets.of_append
      obtain ⟨sameAnswer, related'⟩ := step _ _ current related meets.last
      simp only [historyOf_snoc, stateAfter_snoc]
      rw [same, sameAnswer]
      exact ⟨rfl, related'⟩

end Invariants

/-- The last entry of a list is the one in question, or that one stands in the list before. -/
theorem snoc_eq_append_cons
    {entry : Type u} {entries before after : List entry} {last inner : entry}
    (split : entries ++ [last] = before ++ inner :: after) :
    (last = inner ∧ entries = before) ∨ ∃ after', entries = before ++ inner :: after' := by
  cases after using List.reverseRecOn with
  | nil =>
      obtain ⟨same, sameEntry⟩ := List.append_inj' split rfl
      exact Or.inl ⟨List.singleton_inj.mp sameEntry, same⟩
  | append_singleton after' final =>
      right
      rw [← List.cons_append, ← List.append_assoc] at split
      exact ⟨after', (List.append_inj' split rfl).1⟩

/-- The places of a list, one by one. -/
theorem forall_splits_iff
    {entry : Type u} {property : List entry → entry → Prop} (entries : List entry) :
    (∀ before current after, entries = before ++ current :: after → property before current) ↔
      ∀ place : Fin entries.length, property (entries.take place) (entries.get place) := by
  constructor
  · intro holds place
    refine holds _ _ (entries.drop (place + 1)) ?_
    rw [List.get_eq_getElem, ← List.drop_eq_getElem_cons, List.take_append_drop]
  · intro holds before current after split
    subst split
    simpa using holds ⟨before.length, by simp⟩

instance
    (respond : state → event → answer × state) (start : state)
    (condition : state → event → Prop) [∀ current next, Decidable (condition current next)]
    (events : List event) :
    Decidable (StepsMeet respond start condition events) :=
  decidable_of_iff _ (forall_splits_iff events).symm

end PicoJvm.Lib.Transducer
