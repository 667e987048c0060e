import Mathlib.Data.Nat.Basic

/-!
# Polling

A loop that asks again until there is an answer, for so many rounds at most.
-/

namespace PicoJvm.Lib.Polling

universe u

variable {answer : Type u}

/-- The first answer from a round on, with its round. -/
def firstAnswer (ask : Nat → Option answer) : Nat → Nat → Option (Nat × answer)
  | 0, _ => none
  | rounds + 1, round =>
      match ask round with
      | some result => some (round, result)
      | none => firstAnswer ask rounds (round + 1)

/-- No round before this one has an answer. -/
def Silent (ask : Nat → Option answer) (start round : Nat) : Prop :=
  ∀ earlier, start ≤ earlier → earlier < round → ask earlier = none

variable {ask : Nat → Option answer}

theorem firstAnswer_eq_some_iff
    {rounds start round : Nat} {result : answer} :
    firstAnswer ask rounds start = some (round, result) ↔
      start ≤ round ∧ round < start + rounds ∧ ask round = some result ∧
        Silent ask start round := by
  induction rounds generalizing start with
  | zero =>
      constructor
      · intro impossible
        cases impossible
      · intro facts
        omega
  | succ rounds inductionHypothesis =>
      rw [firstAnswer]
      split
      · next result' asked =>
          constructor
          · intro same
            cases same
            exact ⟨le_rfl, by omega, asked, fun earlier _ _ => by omega⟩
          · rintro ⟨from_, _, answered, silent⟩
            rcases Nat.eq_or_lt_of_le from_ with rfl | later
            · rw [asked] at answered
              cases answered
              rfl
            · have none := silent start le_rfl later
              rw [asked] at none
              cases none
      · next unanswered =>
          rw [inductionHypothesis]
          constructor
          · rintro ⟨after, before, answered, silent⟩
            refine ⟨by omega, by omega, answered, ?_⟩
            intro earlier from_ below
            rcases Nat.eq_or_lt_of_le from_ with rfl | later
            · exact unanswered
            · exact silent earlier later below
          · rintro ⟨from_, before, answered, silent⟩
            have later : start ≠ round := by
              rintro rfl
              rw [unanswered] at answered
              cases answered
            exact ⟨by omega, by omega, answered,
              fun earlier after below => silent earlier (by omega) below⟩

theorem firstAnswer_eq_none_iff
    {rounds start : Nat} :
    firstAnswer ask rounds start = none ↔ Silent ask start (start + rounds) := by
  induction rounds generalizing start with
  | zero =>
      exact iff_of_true rfl fun earlier _ _ => by omega
  | succ rounds inductionHypothesis =>
      rw [firstAnswer]
      split
      · next result asked =>
          constructor
          · intro impossible
            cases impossible
          · intro silent
            have none := silent start le_rfl (by omega)
            rw [asked] at none
            cases none
      · next unanswered =>
          rw [inductionHypothesis]
          constructor
          · intro silent earlier from_ below
            rcases Nat.eq_or_lt_of_le from_ with rfl | later
            · exact unanswered
            · exact silent earlier later (by omega)
          · intro silent earlier after below
            exact silent earlier (by omega) (by omega)

end PicoJvm.Lib.Polling
