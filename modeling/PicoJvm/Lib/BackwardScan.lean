import Mathlib.Order.Bounds.Basic
import Mathlib.Tactic.Common

/-!
# Scanning backwards through a window

A scan looks for a place from the last one down, and skips places that cannot be meant. It
sees the places through a window that moves down with it, but not below a lowest place.
-/

namespace PicoJvm.Lib.BackwardScan

/-- How a scan ends. It has overstepped when it looks in front of its window. -/
inductive Outcome
  | found (place : Int)
  | exhausted
  | overstepped
  | unfinished
  deriving DecidableEq, Repr

/-- What is looked for, how far the scan goes down from a place that it is not, and how the
window moves: its start stays at or above `lowest`, and there is `room` in it below the place
that is looked at next. -/
structure Search where
  hit : Int → Bool
  skip : Int → Int
  lowest : Int
  room : Int

namespace Search

variable (search : Search)

/-- Where the window starts after it has moved down to a place. -/
def moved (start place : Int) : Int :=
  start - min (start - search.lowest) (search.room + (start - place))

/-- The scan, for so many rounds, from a place in a window. -/
def scan : Nat → Int → Int → Outcome
  | 0, _, _ => .unfinished
  | rounds + 1, start, place =>
      if place < start then
        .overstepped
      else if search.hit place then
        .found place
      else
        let next := place - search.skip place
        if next < start then
          if start ≤ search.lowest then
            .exhausted
          else
            scan rounds (search.moved start next) next
        else
          scan rounds start next

/-- Nothing that is looked for is skipped. -/
structure SkipsNoHit : Prop where
  positive : ∀ place, 0 < search.skip place
  between : ∀ place, search.hit place = false →
    ∀ skipped, place - search.skip place < skipped → skipped < place →
      search.hit skipped = false

/-- No hit above a place, up to another. -/
def NoneAbove (low high : Int) : Prop :=
  ∀ place, low < place → place ≤ high → search.hit place = false

theorem noneAbove_skip
    {search : Search}
    (skips : search.SkipsNoHit)
    {place : Int}
    (missed : search.hit place = false) :
    search.NoneAbove (place - search.skip place) place := by
  intro skipped above atMost
  rcases Int.lt_or_eq_of_le atMost with below | rfl
  · exact skips.between place missed skipped above below
  · exact missed

theorem NoneAbove.trans
    {search : Search}
    {low middle high : Int}
    (lower : search.NoneAbove low middle)
    (upper : search.NoneAbove middle high) :
    search.NoneAbove low high := by
  intro place above atMost
  by_cases below : place ≤ middle
  · exact lower place above below
  · exact upper place (by omega) atMost

theorem lowest_le_moved (start place : Int) : search.lowest ≤ search.moved start place := by
  unfold moved
  omega

theorem moved_le_start
    (start place : Int)
    (above : search.lowest ≤ start)
    (room : 0 ≤ search.room + (start - place)) :
    search.moved start place ≤ start := by
  unfold moved
  omega

theorem scan_succ (search : Search) (rounds : Nat) (start place : Int) :
    search.scan (rounds + 1) start place =
      if place < start then
        .overstepped
      else if search.hit place then
        .found place
      else if place - search.skip place < start then
        if start ≤ search.lowest then
          .exhausted
        else
          search.scan rounds (search.moved start (place - search.skip place))
            (place - search.skip place)
      else
        search.scan rounds start (place - search.skip place) :=
  rfl

/-- A place that is found lies in the window, and no hit lies above it. -/
theorem scan_found
    {search : Search}
    (skips : search.SkipsNoHit)
    (rounds : Nat)
    {start place last : Int}
    (found : search.scan rounds start place = .found last) :
    search.hit last = true ∧ last ≤ place ∧ min start search.lowest ≤ last ∧
      search.NoneAbove last place := by
  induction rounds generalizing start place with
  | zero =>
      cases found
  | succ rounds induction =>
      rw [scan_succ] at found
      split at found
      · cases found
      · split at found
        · rename_i inside hit
          cases found
          refine ⟨hit, Int.le_refl _, by omega, ?_⟩
          intro above below atMost
          omega
        · rename_i inside missed
          have missed := Bool.eq_false_iff.mpr missed
          have positive := skips.positive place
          have none := noneAbove_skip skips missed
          split at found
          · split at found
            · cases found
            · rename_i above
              obtain ⟨hit, atMost, atLeast, noneBelow⟩ := induction found
              have lowest := search.lowest_le_moved start (place - search.skip place)
              exact ⟨hit, by omega, by omega, noneBelow.trans none⟩
          · obtain ⟨hit, atMost, atLeast, noneBelow⟩ := induction found
            exact ⟨hit, by omega, atLeast, noneBelow.trans none⟩

/-- An exhausted scan has looked at its first place and passed every other one that is not
below the lowest. -/
theorem scan_exhausted
    {search : Search}
    (skips : search.SkipsNoHit)
    (rounds : Nat)
    {start place : Int}
    (exhausted : search.scan rounds start place = .exhausted) :
    search.hit place = false ∧ search.NoneAbove (search.lowest - 1) place := by
  induction rounds generalizing start place with
  | zero =>
      cases exhausted
  | succ rounds induction =>
      rw [scan_succ] at exhausted
      split at exhausted
      · cases exhausted
      · split at exhausted
        · cases exhausted
        · rename_i inside missed
          have missed := Bool.eq_false_iff.mpr missed
          have none := noneAbove_skip skips missed
          refine ⟨missed, ?_⟩
          split at exhausted
          · split at exhausted
            · intro skipped above atMost
              exact none skipped (by omega) atMost
            · exact (induction exhausted).2.trans none
          · exact (induction exhausted).2.trans none

/-- Every round goes down, so there are enough of them. -/
theorem scan_finishes
    {search : Search}
    (skips : search.SkipsNoHit)
    (rounds : Nat)
    {start place : Int}
    (enough : place - min start search.lowest + 2 ≤ rounds)
    (some : 0 < rounds) :
    search.scan rounds start place ≠ .unfinished := by
  induction rounds generalizing start place with
  | zero =>
      omega
  | succ rounds induction =>
      rw [scan_succ]
      split
      · nofun
      · split
        · nofun
        · have positive := skips.positive place
          split
          · split
            · nofun
            · rename_i above
              have lowest := search.lowest_le_moved start (place - search.skip place)
              exact induction (by omega) (by omega)
          · exact induction (by omega) (by omega)

/-- A scan that starts where its window does and does not overstep it finds the greatest hit
among its first place and those from the lowest one on, if there is one. -/
theorem scan_greatest
    {search : Search}
    (skips : search.SkipsNoHit)
    (rounds : Nat)
    (place : Int)
    (enough : place - min place search.lowest + 2 ≤ rounds)
    (within : search.scan rounds place place ≠ .overstepped) :
    (∃ last, search.scan rounds place place = .found last ∧
      IsGreatest {hit | search.hit hit = true ∧ hit ≤ place ∧
        (hit = place ∨ search.lowest ≤ hit)} last) ∨
    (search.scan rounds place place = .exhausted ∧
      ∀ hit ≤ place, hit = place ∨ search.lowest ≤ hit → search.hit hit = false) := by
  cases ended : search.scan rounds place place with
  | found last =>
      obtain ⟨hit, atMost, atLeast, none⟩ := scan_found skips rounds ended
      refine .inl ⟨last, rfl, ⟨hit, atMost, by omega⟩, ?_⟩
      intro other member
      by_contra above
      have missed := none other (Int.not_le.mp above) member.2.1
      rw [member.1] at missed
      cases missed
  | exhausted =>
      obtain ⟨missed, none⟩ := scan_exhausted skips rounds ended
      refine .inr ⟨rfl, ?_⟩
      intro hit atMost candidate
      rcases candidate with rfl | atLeast
      · exact missed
      · exact none hit (by omega) atMost
  | overstepped => exact absurd ended within
  | unfinished => exact absurd ended (scan_finishes skips rounds enough (by omega))

end Search

end PicoJvm.Lib.BackwardScan
