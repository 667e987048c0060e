import PicoJvm.Stackmaps.Simulation

/-!
# Interpretation along linear code

The loop of `generate_stackmap` as a relation between bytecode indexes, and which `long`s and
`double`s linear code leaves open in the locals.
-/

namespace PicoJvm.Stackmaps

open PicoJvm.Verifier (Instruction Kind PrimitiveType Tag)

/-! ## Runs -/

/-- The bytecodes from one index to another turn a frame into another. -/
inductive Runs (method : Method) : Nat → Frame → Nat → Frame → Prop
  | here {bci : Nat} {frame : Frame} : Runs method bci frame bci frame
  | step {bci target : Nat} {frame next final : Frame}
      (operation : interpretOperation method (method.operationAt bci) frame = some next)
      (rest : Runs method (method.nextBci bci) next target final) :
      Runs method bci frame target final

section Runs

variable {method : Method} {bci middle target : Nat} {frame other final : Frame}

theorem Runs.le (run : Runs method bci frame target final) : bci ≤ target := by
  induction run with
  | here => exact Nat.le_refl _
  | step operation rest induction => exact Nat.le_trans (method.lt_nextBci _).le induction

theorem Runs.final_eq (run : Runs method bci frame bci final) : final = frame := by
  cases run with
  | here => rfl
  | step operation rest => exact absurd rest.le (Nat.not_le.mpr (method.lt_nextBci bci))

theorem Runs.trans
    (run : Runs method bci frame middle other)
    (run' : Runs method middle other target final) :
    Runs method bci frame target final := by
  induction run with
  | here => exact run'
  | step operation rest induction => exact .step operation (induction run')

/-- A longer run goes on where a shorter one ends. -/
theorem Runs.split
    (run : Runs method bci frame middle other)
    (longer : Runs method bci frame target final)
    (below : middle ≤ target) :
    Runs method middle other target final := by
  induction run with
  | here => exact longer
  | step operation rest induction =>
      cases longer with
      | here => exact absurd (rest.le.trans below) (Nat.not_le.mpr (method.lt_nextBci _))
      | step operation' rest' =>
          cases operation.symm.trans operation'
          exact induction rest' below

theorem Runs.unique
    (run : Runs method bci frame target final)
    (run' : Runs method bci frame target other) :
    final = other :=
  ((run.split run' (Nat.le_refl _)).final_eq).symm

/-- A run to the next bytecode is one operation. -/
theorem Runs.operation_of_next
    (run : Runs method bci frame (method.nextBci bci) final) :
    interpretOperation method (method.operationAt bci) frame = some final := by
  generalize next : method.nextBci bci = target at run
  cases run with
  | here => exact absurd next (method.lt_nextBci bci).ne'
  | step operation rest =>
      subst next
      rw [rest.final_eq, operation]

theorem runs_reached_iff
    (below : bci ≤ target)
    (reached : target ≤ bci) :
    some frame = some final ↔ Runs method bci frame target final := by
  cases Nat.le_antisymm below reached
  constructor
  · rintro ⟨⟩
    exact .here
  · intro run
    rw [run.final_eq]

theorem interpret_eq_some_iff
    {fuel : Nat}
    (below : bci ≤ target)
    (enough : target - bci ≤ fuel) :
    interpret method target fuel bci frame = some final ↔ Runs method bci frame target final := by
  induction fuel generalizing bci frame with
  | zero =>
      have reached : target ≤ bci := by omega
      unfold interpret
      rw [if_pos reached]
      exact runs_reached_iff below reached
  | succ fuel induction =>
      have ahead := method.lt_nextBci bci
      unfold interpret
      by_cases reached : target ≤ bci
      · rw [if_pos reached]
        exact runs_reached_iff below reached
      · rw [if_neg reached]
        have step : Runs method bci frame target final ↔
            ∃ next, interpretOperation method (method.operationAt bci) frame = some next ∧
              Runs method (method.nextBci bci) next target final := by
          constructor
          · intro run
            cases run with
            | here => exact absurd (Nat.le_refl _) reached
            | step operation rest => exact ⟨_, operation, rest⟩
          · rintro ⟨next, operation, rest⟩
            exact .step operation rest
        rw [step]
        split
        · rename_i inside
          rw [Option.bind_eq_some_iff]
          simp only [induction inside (by omega)]
        · rename_i outside
          refine ⟨fun none' => (Option.some_ne_none _ none'.symm).elim, ?_⟩
          rintro ⟨next, -, rest⟩
          exact absurd rest.le outside

end Runs

/-! ## Linear code -/

/-- Control goes on with the next bytecode. -/
def comesBack : Operation → Bool
  | .plain (.branch _) | .plain (.returnOp _) | .plain (.tableSwitch _ _)
  | .plain (.lookupSwitch _ _) | .plain .throwException | .plain .illegalCode
  | .invokeNative _ | .uncommonTrap => false
  | _ => true

/-- Linear code leads from one bytecode index to another. -/
inductive Follows (method : Method) (start : Nat) : Nat → Prop
  | here : Follows method start start
  | step {bci : Nat}
      (before : Follows method start bci)
      (goesOn : comesBack (method.operationAt bci) = true) :
      Follows method start (method.nextBci bci)

/-- The first words of `long`s and `double`s that the stores on the way leave in the locals. -/
def openedAt (method : Method) (target : Nat) : Nat → Nat → (Nat → Bool) → Nat → Bool
  | 0, _, opened => opened
  | fuel + 1, bci, opened =>
      if target ≤ bci then
        opened
      else
        openedAt method target fuel (method.nextBci bci)
          (leavesOpen (method.operationAt bci) opened)

section Linear

variable {method : Method} {bci target : Nat} {frame other final : Frame}

theorem comesBack_of_operation
    {operation : Operation}
    (run : interpretOperation method operation frame = some final) :
    comesBack operation = true := by
  cases operation with
  | plain instruction => cases instruction <;> first | rfl | cases run
  | _ => first | rfl | cases run

theorem Runs.follows
    {start : Nat}
    (before : Follows method start bci)
    (run : Runs method bci frame target final) :
    Follows method start target := by
  induction run with
  | here => exact before
  | step operation rest induction =>
      exact induction (before.step (comesBack_of_operation operation))

theorem Runs.opened
    {fuel : Nat}
    (run : Runs method bci frame target final)
    (enough : target - bci ≤ fuel) :
    final.opened = openedAt method target fuel bci frame.opened := by
  induction run generalizing fuel with
  | here => cases fuel <;> simp [openedAt]
  | @step bci target frame next final operation rest induction =>
      have ahead := method.lt_nextBci bci
      have below := rest.le
      obtain ⟨fuel, rfl⟩ : ∃ less, fuel = less + 1 := ⟨fuel - 1, by omega⟩
      unfold openedAt
      rw [if_neg (by omega), ← (operation_opened operation).1]
      exact induction (by omega)

theorem Runs.length (run : Runs method bci frame target final) :
    final.locals.length = frame.locals.length := by
  induction run with
  | here => rfl
  | step operation rest induction => exact induction.trans (operation_opened operation).2

/-- Similar frames stay similar while the same locals are open where a reference is stored. -/
theorem runs_similar
    (run : Runs method bci frame target final)
    (similar : Similar frame other)
    (agree : ∀ place middle middle' index, Runs method bci frame place middle →
      Runs method bci other place middle' → method.nextBci place ≤ target →
      storesBehind (method.operationAt place) index →
      middle.opened index = middle'.opened index) :
    ∃ final', Runs method bci other target final' ∧ Similar final final' := by
  induction run generalizing other with
  | here => exact ⟨other, .here, similar⟩
  | step operation rest induction =>
      obtain ⟨next', operation', iff⟩ := operation_similar similar operation
      have similar' := iff.mpr fun index stores =>
        agree _ _ _ index .here .here rest.le stores
      obtain ⟨final', run', same⟩ := induction similar' fun place middle middle' index first first' =>
        agree place middle middle' index (.step operation first) (.step operation' first')
      exact ⟨final', .step operation' run', same⟩

end Linear

end PicoJvm.Stackmaps
