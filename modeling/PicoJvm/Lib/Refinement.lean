import PicoJvm.Lib.Transducer

/-!
# Refinement

A component refines a specification when every answer of a run is one that the specification
allows. The specification is a relation: it may leave open which answer is given.
-/

namespace PicoJvm.Lib.Refinement

open PicoJvm.Lib.Transducer

universe u v w x

variable {model : Type u} {event : Type v} {answer : Type w} {state : Type x}

/-- The specification allows the answers to these events, and comes to another state. -/
inductive Allows (specification : model → event → answer → model → Prop) :
    model → List (event × answer) → model → Prop
  | nil (start : model) : Allows specification start [] start
  | cons {start next final : model} {given : event × answer} {history : List (event × answer)}
      (step : specification start given.1 given.2 next)
      (rest : Allows specification next history final) :
      Allows specification start (given :: history) final

section Histories

variable {specification : model → event → answer → model → Prop}

/-- A longer history has a state between its parts. -/
theorem Allows.split
    {start final : model} {history history' : List (event × answer)}
    (allows : Allows specification start (history ++ history') final) :
    ∃ next, Allows specification start history next ∧
      Allows specification next history' final := by
  induction history generalizing start with
  | nil =>
      exact ⟨start, .nil start, allows⟩
  | cons given history inductionHypothesis =>
      cases allows with
      | cons step rest =>
          obtain ⟨next, before, after⟩ := inductionHypothesis rest
          exact ⟨next, .cons step before, after⟩

end Histories

/-- What every answer refines, whole runs refine. -/
theorem refines
    {respond : state → event → answer × state}
    {specification : model → event → answer → model → Prop}
    {Represents : state → model → Prop}
    (answers : ∀ start abstractly current, Represents start abstractly →
      ∃ next, specification abstractly current (respond start current).1 next ∧
        Represents (respond start current).2 next)
    {start : state} {abstractly : model}
    (represents : Represents start abstractly)
    (events : List event) :
    ∃ final, Allows specification abstractly (historyOf respond start events) final ∧
      Represents (stateAfter respond start events) final := by
  induction events generalizing start abstractly with
  | nil =>
      exact ⟨abstractly, .nil abstractly, represents⟩
  | cons current rest inductionHypothesis =>
      obtain ⟨next, step, represents'⟩ := answers start abstractly current represents
      obtain ⟨final, allows, isFinal⟩ := inductionHypothesis represents'
      exact ⟨final, .cons step allows, isFinal⟩

end PicoJvm.Lib.Refinement
