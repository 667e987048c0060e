import Mathlib.Data.List.Basic

/-!
# Trails of a step relation

A trail records the places visited while a step relation leads from one place
to another. The facts below are about deterministic relations and about
relations on positions that only move forward.
-/

namespace PicoJvm.Lib

universe u

section General

variable {place : Type u} {step step' : place → place → Prop}

/-- `Trail step here visited last`: following `step` from `here` leads to
`last`, and `visited` lists the places left on the way, `here` first. -/
inductive Trail (step : place → place → Prop) :
    place → List place → place → Prop
  | nil (here : place) : Trail step here [] here
  | cons {here next last : place} {visited : List place} :
      step here next →
      Trail step next visited last →
      Trail step here (here :: visited) last

/-- At most one place follows each place. -/
def Deterministic (step : place → place → Prop) : Prop :=
  ∀ ⦃here next next' : place⦄, step here next → step here next' → next = next'

theorem Trail.append
    {first middle last : place} {before after : List place}
    (left : Trail step first before middle)
    (right : Trail step middle after last) :
    Trail step first (before ++ after) last := by
  induction left with
  | nil _ =>
      exact right
  | cons head _ inductionHypothesis =>
      exact .cons head (inductionHypothesis right)

theorem Trail.snoc
    {first last next : place} {visited : List place}
    (trail : Trail step first visited last)
    (final : step last next) :
    Trail step first (visited ++ [last]) next :=
  trail.append (.cons final (.nil next))

/-- Every visited place is left by a step. -/
theorem Trail.exists_step_of_mem
    {first last here : place} {visited : List place}
    (trail : Trail step first visited last)
    (member : here ∈ visited) :
    ∃ next, step here next := by
  induction trail with
  | nil _ =>
      cases member
  | cons head _ inductionHypothesis =>
      rcases List.mem_cons.mp member with rfl | later
      · exact ⟨_, head⟩
      · exact inductionHypothesis later

/-- Under a deterministic relation a trail to somewhere else must begin with
the one step that is possible. -/
theorem Trail.tail_of_step
    {first next last : place} {visited : List place}
    (deterministic : Deterministic step)
    (elsewhere : first ≠ last)
    (head : step first next)
    (trail : Trail step first visited last) :
    ∃ rest, visited = first :: rest ∧ Trail step next rest last := by
  cases trail with
  | nil _ =>
      exact absurd rfl elsewhere
  | cons head' rest =>
      cases deterministic head head'
      exact ⟨_, rfl, rest⟩

/-- Whether a trail leads from a place to a goal is decided one step later, unless
the place is itself a goal. -/
theorem exists_trail_to_iff_of_step
    {goal : place → Prop} {first next : place}
    (deterministic : Deterministic step)
    (notHere : ¬ goal first)
    (head : step first next) :
    (∃ visited last, Trail step first visited last ∧ goal last) ↔
      ∃ visited last, Trail step next visited last ∧ goal last := by
  constructor
  · rintro ⟨visited, last, trail, reached⟩
    have elsewhere : first ≠ last := by
      rintro rfl
      exact notHere reached
    obtain ⟨rest, _, tail⟩ :=
      trail.tail_of_step deterministic elsewhere head
    exact ⟨rest, last, tail, reached⟩
  · rintro ⟨visited, last, trail, reached⟩
    exact ⟨first :: visited, last, .cons head trail, reached⟩

/-- From a place with no next step a trail leads nowhere else. -/
theorem Trail.eq_of_stuck
    {first last : place} {visited : List place}
    (stuck : ∀ next, ¬ step first next)
    (trail : Trail step first visited last) :
    visited = [] ∧ last = first := by
  cases trail with
  | nil _ =>
      exact ⟨rfl, rfl⟩
  | cons head _ =>
      exact absurd head (stuck _)

/-- Two trails from one place end at the same place if neither can go on. -/
theorem Trail.last_unique
    {first last last' : place} {visited visited' : List place}
    (deterministic : Deterministic step)
    (left : Trail step first visited last)
    (right : Trail step first visited' last')
    (stuck : ∀ next, ¬ step last next)
    (stuck' : ∀ next, ¬ step last' next) :
    last = last' := by
  induction left generalizing visited' with
  | nil _ =>
      exact (right.eq_of_stuck stuck).2.symm
  | @cons here _ _ _ head _ inductionHypothesis =>
      have elsewhere : here ≠ last' := by
        rintro rfl
        exact stuck' _ head
      obtain ⟨rest, _, tail⟩ := right.tail_of_step deterministic elsewhere head
      exact inductionHypothesis tail stuck

/-- Two trails from one place are the same if both stop at the first place outside a region. -/
theorem Trail.unique
    {first last last' : place} {visited visited' : List place}
    (inside : place → Prop)
    (deterministic : Deterministic step)
    (left : Trail step first visited last)
    (leftInside : ∀ here ∈ visited, inside here)
    (leftEnds : ¬ inside last)
    (right : Trail step first visited' last')
    (rightInside : ∀ here ∈ visited', inside here)
    (rightEnds : ¬ inside last') :
    visited = visited' ∧ last = last' := by
  induction left generalizing visited' with
  | nil here =>
      cases right with
      | nil _ =>
          exact ⟨rfl, rfl⟩
      | cons _ _ =>
          exact absurd (rightInside here List.mem_cons_self) leftEnds
  | @cons here _ _ _ head _ inductionHypothesis =>
      have elsewhere : here ≠ last' := by
        rintro rfl
        exact rightEnds (leftInside here List.mem_cons_self)
      obtain ⟨rest, rfl, tail⟩ := right.tail_of_step deterministic elsewhere head
      obtain ⟨rfl, rfl⟩ := inductionHypothesis
        (fun there member => leftInside there (List.mem_cons_of_mem here member)) leftEnds tail
        (fun there member => rightInside there (List.mem_cons_of_mem here member))
      exact ⟨rfl, rfl⟩

end General

/-! ## Positions that only move forward -/

section Forward

variable {step step' : Nat → Nat → Prop}

/-- Every step leads to a later position. -/
def Forward (step : Nat → Nat → Prop) : Prop :=
  ∀ ⦃here next : Nat⦄, step here next → here < next

theorem Trail.first_le_last
    {first last : Nat} {visited : List Nat}
    (forward : Forward step)
    (trail : Trail step first visited last) :
    first ≤ last := by
  induction trail with
  | nil _ =>
      exact Nat.le_refl _
  | cons head _ inductionHypothesis =>
      exact Nat.le_trans (Nat.le_of_lt (forward head)) inductionHypothesis

theorem Trail.length_le
    {first last : Nat} {visited : List Nat}
    (forward : Forward step)
    (trail : Trail step first visited last) :
    first + visited.length ≤ last := by
  induction trail with
  | nil _ =>
      exact Nat.le_refl _
  | cons head _ inductionHypothesis =>
      have before := forward head
      rw [List.length_cons]
      omega

theorem Trail.mem_bounds
    {first last here : Nat} {visited : List Nat}
    (forward : Forward step)
    (trail : Trail step first visited last)
    (member : here ∈ visited) :
    first ≤ here ∧ here < last := by
  induction trail with
  | nil _ =>
      cases member
  | cons head tail inductionHypothesis =>
      rcases List.mem_cons.mp member with rfl | later
      · exact ⟨Nat.le_refl _,
          Nat.lt_of_lt_of_le (forward head) (tail.first_le_last forward)⟩
      · obtain ⟨lower, upper⟩ := inductionHypothesis later
        exact ⟨Nat.le_trans (Nat.le_of_lt (forward head)) lower, upper⟩

/-- The step taken at a visited position ends before the next visited one. -/
theorem Trail.mem_separated
    {first last here there next : Nat} {visited : List Nat}
    (forward : Forward step)
    (deterministic : Deterministic step)
    (trail : Trail step first visited last)
    (hereMember : here ∈ visited)
    (thereMember : there ∈ visited)
    (before : here < there)
    (move : step here next) :
    next ≤ there := by
  induction trail with
  | nil _ =>
      cases hereMember
  | cons head tail inductionHypothesis =>
      rcases List.mem_cons.mp thereMember with rfl | thereLater
      · have := (Trail.cons head tail).mem_bounds forward hereMember
        omega
      · rcases List.mem_cons.mp hereMember with rfl | hereLater
        · rw [deterministic move head]
          exact (tail.mem_bounds forward thereLater).1
        · exact inductionHypothesis hereLater thereLater

/-- A trail survives a change of relation at positions it never visits. -/
theorem Trail.mono_from
    {first last : Nat} {visited : List Nat}
    (forward : Forward step)
    (agree : ∀ ⦃here next : Nat⦄, first ≤ here → step here next → step' here next)
    (trail : Trail step first visited last) :
    Trail step' first visited last := by
  induction trail with
  | nil _ =>
      exact .nil _
  | cons head _ inductionHypothesis =>
      refine .cons (agree (Nat.le_refl _) head) (inductionHypothesis ?_)
      intro here next later move
      exact agree (Nat.le_trans (Nat.le_of_lt (forward head)) later) move

end Forward

end PicoJvm.Lib
