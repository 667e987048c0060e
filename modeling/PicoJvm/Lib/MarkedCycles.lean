import Mathlib.Logic.Relation
import Mathlib.Order.Basic

/-!
# Cycles with a mark

Edges between places carry a mark or do not. When the unmarked edges go forward except for some
that are known by kind, a cycle without a mark runs over one of that kind.
-/

namespace PicoJvm.Lib.MarkedCycles

universe u

variable {place : Type u}

/-- `Route edge first marks last`: edges lead from `first` to `last`, and `marks` says of each
whether it is marked. -/
inductive Route (edge : place → place → Bool → Prop) : place → List Bool → place → Prop
  | nil (here : place) : Route edge here [] here
  | cons {here next last : place} {mark : Bool} {marks : List Bool} :
      edge here next mark →
      Route edge next marks last →
      Route edge here (mark :: marks) last

/-- Every cycle has a marked edge. -/
def EveryCycleMarked (edge : place → place → Bool → Prop) : Prop :=
  ∀ here marks, marks ≠ [] → Route edge here marks here → true ∈ marks

/-- The unmarked edges. -/
def Unmarked (edge : place → place → Bool → Prop) (here next : place) : Prop :=
  edge here next false

variable {edge : place → place → Bool → Prop}

theorem Route.reflTransGen
    {first last : place} {marks : List Bool}
    (route : Route edge first marks last)
    (noMark : true ∉ marks) :
    Relation.ReflTransGen (Unmarked edge) first last := by
  induction route with
  | nil here =>
      exact .refl
  | @cons here next last mark marks head _ inductionHypothesis =>
      rw [List.mem_cons, not_or] at noMark
      obtain ⟨notMarked, laterUnmarked⟩ := noMark
      cases mark with
      | true =>
          exact absurd rfl notMarked
      | false =>
          exact .head head (inductionHypothesis laterUnmarked)

theorem exists_route_of_reflTransGen
    {first last : place}
    (path : Relation.ReflTransGen (Unmarked edge) first last) :
    ∃ marks, Route edge first marks last ∧ true ∉ marks := by
  induction path using Relation.ReflTransGen.head_induction_on with
  | refl =>
      exact ⟨[], .nil last, List.not_mem_nil⟩
  | head step _ inductionHypothesis =>
      obtain ⟨marks, route, noMark⟩ := inductionHypothesis
      refine ⟨false :: marks, .cons step route, ?_⟩
      simp [noMark]

variable [Preorder place] {back : place → place → Prop}

/-- Unmarked edges lead forward, or over an edge of the known kind. -/
theorem lt_or_back_of_transGen
    (forward : ∀ here next, edge here next false → here < next ∨ back here next)
    {first last : place}
    (path : Relation.TransGen (Unmarked edge) first last) :
    first < last ∨
      ∃ here next, Relation.ReflTransGen (Unmarked edge) first here ∧ back here next ∧
        Relation.ReflTransGen (Unmarked edge) next last := by
  induction path with
  | @single last step =>
      rcases forward first last step with before | isBack
      · exact Or.inl before
      · exact Or.inr ⟨first, last, .refl, isBack, .refl⟩
  | @tail middle last path step inductionHypothesis =>
      rcases forward middle last step with before | isBack
      · rcases inductionHypothesis with earlier | ⟨here, next, reaches, isBack, onward⟩
        · exact Or.inl (earlier.trans before)
        · exact Or.inr ⟨here, next, reaches, isBack, onward.tail step⟩
      · exact Or.inr ⟨middle, last, path.to_reflTransGen, isBack, .refl⟩

/-- Every cycle has a mark exactly when no edge of the known kind is closed to a cycle by unmarked
edges. -/
theorem everyCycleMarked_iff
    (edge : place → place → Bool → Prop)
    {back : place → place → Prop}
    (forward : ∀ here next, edge here next false → here < next ∨ back here next)
    (unmarkedBack : ∀ here next, back here next → edge here next false) :
    EveryCycleMarked edge ↔
      ∀ here next, back here next → ¬ Relation.ReflTransGen (Unmarked edge) next here := by
  constructor
  · intro marked here next isBack path
    obtain ⟨marks, route, noMark⟩ := exists_route_of_reflTransGen path
    have isMarked := marked here (false :: marks) (List.cons_ne_nil _ _)
      (.cons (unmarkedBack here next isBack) route)
    rcases List.mem_cons.mp isMarked with impossible | later
    · cases impossible
    · exact noMark later
  · intro notClosed here marks notEmpty route
    by_contra noMark
    cases route with
    | nil _ =>
        exact notEmpty rfl
    | @cons _ next _ mark marks head rest =>
        rw [List.mem_cons, not_or] at noMark
        obtain ⟨notMarked, laterUnmarked⟩ := noMark
        have unmarked : mark = false := by
          cases mark with
          | true =>
              exact absurd rfl notMarked
          | false =>
              rfl
        subst unmarked
        have path : Relation.TransGen (Unmarked edge) here here :=
          .head' head (rest.reflTransGen laterUnmarked)
        rcases lt_or_back_of_transGen forward path with before | ⟨here, next, first, isBack, last⟩
        · exact lt_irrefl here before
        · exact notClosed here next isBack (last.trans first)

end PicoJvm.Lib.MarkedCycles
