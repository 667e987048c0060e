import Mathlib.Data.List.Basic

/-!
# The last mark of a list

A list with a mark in it is cut at the last one.
-/

namespace PicoJvm.Lib.LastMark

universe u

variable {item : Type u} [DecidableEq item]

/-- What stands before the last mark. -/
def beforeLast (mark : item) : List item → Option (List item)
  | [] => none
  | first :: rest =>
      match beforeLast mark rest with
      | some before => some (first :: before)
      | none => if first = mark then some [] else none

variable {mark : item} {items before : List item}

theorem beforeLast_eq_none_iff :
    beforeLast mark items = none ↔ mark ∉ items := by
  induction items with
  | nil =>
      simp [beforeLast]
  | cons first rest inductionHypothesis =>
      rw [beforeLast, List.mem_cons, not_or, ← inductionHypothesis]
      cases beforeLast mark rest with
      | some before =>
          simp
      | none =>
          by_cases isMark : first = mark
          · simp [isMark]
          · simp [isMark, Ne.symm isMark]

theorem beforeLast_eq_some_iff :
    beforeLast mark items = some before ↔
      ∃ behind, items = before ++ mark :: behind ∧ mark ∉ behind := by
  induction items generalizing before with
  | nil =>
      simp [beforeLast]
  | cons first rest inductionHypothesis =>
      rw [beforeLast]
      cases isRest : beforeLast mark rest with
      | some before' =>
          obtain ⟨behind', split', last'⟩ := inductionHypothesis.mp isRest
          constructor
          · intro same
            cases same
            exact ⟨behind', by rw [split']; rfl, last'⟩
          · rintro ⟨behind, split, last⟩
            cases before with
            | nil =>
                injection split with isMark isBehind
                rw [← isBehind, split'] at last
                exact absurd (List.mem_append_right _ List.mem_cons_self) last
            | cons head before =>
                injection split with isHead isTail
                have again := inductionHypothesis.mpr ⟨behind, isTail, last⟩
                rw [isRest] at again
                cases again
                rw [isHead]
      | none =>
          have absent := beforeLast_eq_none_iff.1 isRest
          by_cases isMark : first = mark
          · rw [if_pos isMark]
            constructor
            · intro same
              cases same
              exact ⟨rest, by rw [isMark]; rfl, absent⟩
            · rintro ⟨behind, split, last⟩
              cases before with
              | nil =>
                  rfl
              | cons head before =>
                  injection split with _ isTail
                  rw [isTail] at absent
                  exact absurd (List.mem_append_right _ List.mem_cons_self) absent
          · rw [if_neg isMark]
            constructor
            · intro impossible
              cases impossible
            · rintro ⟨behind, split, _⟩
              cases before with
              | nil =>
                  injection split with isFirst _
                  exact absurd isFirst isMark
              | cons head before =>
                  injection split with _ isTail
                  rw [isTail] at absent
                  exact absurd (List.mem_append_right _ List.mem_cons_self) absent

end PicoJvm.Lib.LastMark
