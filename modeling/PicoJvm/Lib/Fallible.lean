import Mathlib.Logic.Basic

/-!
# Taking fallible computations apart

A computation in `Except` succeeds when each of its steps does. These lemmas
peel the steps off one at a time, in either direction.
-/

namespace PicoJvm.Lib.Fallible

universe u v

variable {fault : Type u} {first second : Type v}

@[simp] theorem ok_bind (value : first) (next : first → Except fault second) :
    (Except.ok value >>= next) = next value :=
  rfl

@[simp] theorem error_bind (reason : fault) (next : first → Except fault second) :
    ((Except.error reason : Except fault first) >>= next) = .error reason :=
  rfl

@[simp] theorem pure_eq_ok (value : first) :
    (pure value : Except fault first) = .ok value :=
  rfl

@[simp] theorem throw_eq_error (reason : fault) :
    (throw reason : Except fault first) = .error reason :=
  rfl

theorem bind_eq_ok_iff
    {start : Except fault first} {next : first → Except fault second} {result : second} :
    (start >>= next) = .ok result ↔
      ∃ value, start = .ok value ∧ next value = .ok result := by
  cases start with
  | error reason =>
      simp
  | ok value =>
      simp

/-- A guard that throws lets through exactly the computations it does not
catch. -/
theorem guarded_eq_ok_iff
    {guarded : Prop} [Decidable guarded] {reason : fault}
    {rest : Except fault first} {result : first} :
    (if guarded then .error reason else rest) = .ok result ↔
      ¬ guarded ∧ rest = .ok result := by
  by_cases caught : guarded <;> simp [caught]

end PicoJvm.Lib.Fallible
