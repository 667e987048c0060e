import Mathlib.Data.Nat.Basic

/-!
# Counting events down

A system that takes a step for every event. A measure that every counted event decreases bounds the
number of counted events in a run.
-/

namespace PicoJvm.Lib.Countdown

universe u v

variable {state : Type u} {event : Type v} (step : state → event → state)

/-- Every event of the run is allowed where it happens. -/
def Follows (allowed : state → event → Prop) : state → List event → Prop
  | _, [] => True
  | current, first :: rest => allowed current first ∧ Follows allowed (step current first) rest

/-- How many events of the run are counted. -/
def ticks (counted : state → event → Bool) : state → List event → Nat
  | _, [] => 0
  | current, first :: rest =>
      (counted current first).toNat + ticks counted (step current first) rest

instance decidableFollows
    (allowed : state → event → Prop)
    [∀ current first, Decidable (allowed current first)] :
    ∀ current events, Decidable (Follows step allowed current events)
  | _, [] => .isTrue trivial
  | current, first :: rest =>
      have := decidableFollows allowed (step current first) rest
      inferInstanceAs (Decidable (_ ∧ _))

variable {step}

theorem follows_append_iff
    {allowed : state → event → Prop}
    {current : state}
    {before after : List event} :
    Follows step allowed current (before ++ after) ↔
      Follows step allowed current before ∧
        Follows step allowed (before.foldl step current) after := by
  induction before generalizing current with
  | nil =>
      simp [Follows]
  | cons first rest inductionHypothesis =>
      simp only [List.cons_append, Follows, inductionHypothesis, List.foldl_cons, and_assoc]

theorem ticks_append
    (counted : state → event → Bool)
    (current : state)
    (before after : List event) :
    ticks step counted current (before ++ after) =
      ticks step counted current before +
        ticks step counted (before.foldl step current) after := by
  induction before generalizing current with
  | nil =>
      exact (Nat.zero_add _).symm
  | cons first rest inductionHypothesis =>
      simp only [List.cons_append, ticks, inductionHypothesis, List.foldl_cons, Nat.add_assoc]

/-- Either all events are allowed, or there is one that is not. -/
theorem follows_or_exists
    (allowed : state → event → Prop)
    (current : state)
    (events : List event) :
    Follows step allowed current events ∨
      ∃ before event after, events = before ++ event :: after ∧
        ¬ allowed (before.foldl step current) event := by
  induction events generalizing current with
  | nil =>
      exact Or.inl trivial
  | cons first rest inductionHypothesis =>
      by_cases here : allowed current first
      · rcases inductionHypothesis (step current first) with
          later | ⟨before, event, after, split, missed⟩
        · exact Or.inl ⟨here, later⟩
        · exact Or.inr ⟨first :: before, event, after, by rw [split]; rfl, missed⟩
      · exact Or.inr ⟨[], first, rest, rfl, here⟩

/-- An invariant holds where the run ends. -/
theorem Follows.invariant
    {allowed : state → event → Prop}
    {current : state}
    {events : List event}
    (Invariant : state → Prop)
    (kept : ∀ current event, Invariant current → allowed current event →
      Invariant (step current event))
    (start : Invariant current)
    (follows : Follows step allowed current events) :
    Invariant (events.foldl step current) := by
  induction events generalizing current with
  | nil =>
      exact start
  | cons first rest inductionHypothesis =>
      exact inductionHypothesis (kept _ _ start follows.1) follows.2

/-- As long as the goal is not reached, no more events are counted than the measure allows. -/
theorem Follows.ticks_le
    {allowed : state → event → Prop}
    {current : state}
    {events : List event}
    (Invariant goal : state → Prop)
    (counted : state → event → Bool)
    (measure : state → Nat)
    (kept : ∀ current event, Invariant current → allowed current event →
      Invariant (step current event))
    (decreases : ∀ current event, Invariant current → allowed current event →
      ¬ goal (step current event) →
        measure (step current event) + (counted current event).toNat ≤ measure current)
    (start : Invariant current)
    (follows : Follows step allowed current events)
    (missed : Follows step (fun current event => ¬ goal (step current event)) current events) :
    ticks step counted current events ≤ measure current := by
  induction events generalizing current with
  | nil =>
      exact Nat.zero_le _
  | cons first rest inductionHypothesis =>
      have onward := inductionHypothesis (kept _ _ start follows.1) follows.2 missed.2
      have once := decreases _ _ start follows.1 missed.1
      rw [ticks]
      omega

/-- A run that leads back to where it started can be repeated. -/
theorem Follows.repeated
    {allowed : state → event → Prop}
    {current : state}
    {events : List event}
    (counted : state → event → Bool)
    (returns : events.foldl step current = current)
    (follows : Follows step allowed current events)
    (times : Nat) :
    Follows step allowed current (List.replicate times events).flatten ∧
      ticks step counted current (List.replicate times events).flatten =
        times * ticks step counted current events := by
  induction times with
  | zero =>
      exact ⟨trivial, (Nat.zero_mul _).symm⟩
  | succ times inductionHypothesis =>
      rw [List.replicate_succ, List.flatten_cons, follows_append_iff, ticks_append, returns,
        inductionHypothesis.2, Nat.succ_mul, Nat.add_comm]
      exact ⟨⟨follows, inductionHypothesis.1⟩, rfl⟩

end PicoJvm.Lib.Countdown
