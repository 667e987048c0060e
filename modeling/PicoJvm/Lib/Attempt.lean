import Mathlib.Logic.Basic

/-!
# Computations that keep their state when they fail

An attempt in `EStateM` ends with a value or with a fault, and in both cases with
a state. `Ensures` says what holds of either end; its rules follow the way
attempts are put together.
-/

namespace PicoJvm.Lib.Attempt

universe u

variable {fault state first second : Type u}

/-- Run from `before`, the attempt ends in a value that `onOk` describes or in a
fault that `onError` describes. -/
def Ensures (attempt : EStateM fault state first) (before : state)
    (onOk : first → state → Prop) (onError : fault → state → Prop) : Prop :=
  match attempt.run before with
  | .ok value after => onOk value after
  | .error reason after => onError reason after

namespace Ensures

variable {attempt : EStateM fault state first} {before : state}
  {onOk onOk' : first → state → Prop} {onError onError' : fault → state → Prop}

theorem of_run_error
    {reason : fault} {after : state}
    (ran : attempt.run before = .error reason after)
    (holds : onError reason after) :
    Ensures attempt before onOk onError := by
  unfold Ensures
  rw [ran]
  exact holds

/-- What is ensured of a value that was returned. -/
theorem ok
    {value : first} {after : state}
    (ensured : Ensures attempt before onOk onError)
    (ran : attempt.run before = .ok value after) :
    onOk value after := by
  unfold Ensures at ensured
  rwa [ran] at ensured

/-- What is ensured of a fault that was thrown. -/
theorem error
    {reason : fault} {after : state}
    (ensured : Ensures attempt before onOk onError)
    (ran : attempt.run before = .error reason after) :
    onError reason after := by
  unfold Ensures at ensured
  rwa [ran] at ensured

theorem mono
    (ensured : Ensures attempt before onOk onError)
    (okMono : ∀ value after, onOk value after → onOk' value after)
    (errorMono : ∀ reason after, onError reason after → onError' reason after) :
    Ensures attempt before onOk' onError' := by
  unfold Ensures at ensured ⊢
  split at ensured
  · exact okMono _ _ ensured
  · exact errorMono _ _ ensured

theorem pure
    {value : first}
    (holds : onOk value before) :
    Ensures (Pure.pure value) before onOk onError :=
  holds

theorem throw
    {reason : fault}
    (holds : onError reason before) :
    Ensures (MonadExcept.throw reason) before onOk onError :=
  holds

theorem get
    {onOk : state → state → Prop} {onError : fault → state → Prop}
    (holds : onOk before before) :
    Ensures (MonadState.get) before onOk onError :=
  holds

theorem set
    {onOk : PUnit → state → Prop} {onError : fault → state → Prop}
    {after : state}
    (holds : onOk ⟨⟩ after) :
    Ensures (MonadStateOf.set after) before onOk onError :=
  holds

theorem modify
    {onOk : PUnit → state → Prop} {onError : fault → state → Prop}
    {change : state → state}
    (holds : onOk ⟨⟩ (change before)) :
    Ensures (modify change) before onOk onError :=
  holds

theorem bind
    {next : first → EStateM fault state second}
    {onOk : second → state → Prop}
    (ensured : Ensures attempt before
      (fun value middle => Ensures (next value) middle onOk onError) onError) :
    Ensures (attempt >>= next) before onOk onError := by
  unfold Ensures at ensured
  split at ensured
  · rename_i value middle ran
    unfold Ensures
    rw [show (attempt >>= next).run before = (next value).run middle by
      simp only [EStateM.run, Bind.bind, EStateM.bind] at ran ⊢
      rw [ran]]
    exact ensured
  · rename_i reason after ran
    refine of_run_error ?_ ensured
    simp only [EStateM.run, Bind.bind, EStateM.bind] at ran ⊢
    rw [ran]

/-- The two branches of a test. -/
theorem ite
    {test : Prop} [Decidable test]
    {attempt' : EStateM fault state first}
    (whenTrue : test → Ensures attempt before onOk onError)
    (whenFalse : ¬ test → Ensures attempt' before onOk onError) :
    Ensures (if test then attempt else attempt') before onOk onError := by
  split
  · exact whenTrue ‹_›
  · exact whenFalse ‹_›

end Ensures

end PicoJvm.Lib.Attempt
