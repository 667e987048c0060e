import Mathlib.Data.List.Basic
import Mathlib.Logic.Relation

/-!
# Marking with a stack

What can be reached from some nodes of a graph is marked with a stack of nodes yet to be looked at.
Only nodes of a finite area are marked, and there may be marks already.
-/

namespace PicoJvm.Lib.Marking

universe u

variable {node : Type u} [DecidableEq node]

/-! ## The loop -/

/-- Marks the nodes of the stack, and what can be reached from them through unmarked nodes. -/
def markFrom (edges : node → List node) (area : List node) :
    (fuel : Nat) → (marked stack : List node) → List node
  | 0, marked, _ => marked
  | _ + 1, marked, [] => marked
  | fuel + 1, marked, next :: stack =>
      if next ∈ marked ∨ next ∉ area then
        markFrom edges area fuel marked stack
      else
        markFrom edges area fuel (next :: marked) (edges next ++ stack)

/-- What is left to do: each unmarked node will put its edges onto the stack once. -/
def work (edges : node → List node) (marked : List node) : List node → Nat
  | [] => 0
  | first :: rest =>
      (if first ∈ marked then 0 else (edges first).length + 1) + work edges marked rest

/-- Marks all that can be reached from the nodes of the stack. -/
def mark (edges : node → List node) (area marked stack : List node) : List node :=
  markFrom edges area (stack.length + work edges marked area) marked stack

/-! ## What is reached -/

/-- There is a path through nodes of the area. -/
inductive Within (edges : node → List node) (area : List node) : node → node → Prop
  | here {start : node} : start ∈ area → Within edges area start start
  | step {start next final : node} :
      start ∈ area → next ∈ edges start → Within edges area next final →
        Within edges area start final

/-- The edges of marked nodes lead to marked nodes, or to nodes of the stack. -/
def Closing (edges : node → List node) (area marked stack : List node) : Prop :=
  ∀ start ∈ marked, ∀ next ∈ edges start, next ∈ area → next ∈ marked ∨ next ∈ stack

section Marked

variable {edges : node → List node} {area marked stack : List node} {start final : node}

omit [DecidableEq node] in
theorem Within.start_mem (path : Within edges area start final) : start ∈ area := by
  cases path with
  | here inArea =>
      exact inArea
  | step inArea _ _ =>
      exact inArea

omit [DecidableEq node] in
theorem Within.mem (path : Within edges area start final) : final ∈ area := by
  induction path with
  | here inArea =>
      exact inArea
  | step _ _ _ inductionHypothesis =>
      exact inductionHypothesis

omit [DecidableEq node] in
/-- A set that is closed within the area contains what can be reached from it. -/
theorem Within.mem_of_closed
    (path : Within edges area start final)
    (closed : Closing edges area marked [])
    (isMarked : start ∈ marked) :
    final ∈ marked := by
  induction path with
  | here _ =>
      exact isMarked
  | step inArea isEdge rest inductionHypothesis =>
      apply inductionHypothesis
      exact (closed _ isMarked _ isEdge rest.start_mem).resolve_right List.not_mem_nil

theorem work_cons_le (edges : node → List node) (next : node) (marked area : List node) :
    work edges (next :: marked) area ≤ work edges marked area := by
  induction area with
  | nil =>
      exact Nat.le_refl 0
  | cons first rest inductionHypothesis =>
      simp only [work]
      by_cases isMarked : first ∈ marked
      · rw [if_pos isMarked, if_pos (List.mem_cons_of_mem _ isMarked)]
        omega
      · rw [if_neg isMarked]
        split <;> omega

/-- To mark a node of the area takes its edges off the work. -/
theorem work_cons
    {next : node}
    (unmarked : next ∉ marked)
    (inArea : next ∈ area) :
    work edges (next :: marked) area + (edges next).length + 1 ≤ work edges marked area := by
  induction area with
  | nil =>
      exact absurd inArea List.not_mem_nil
  | cons first rest inductionHypothesis =>
      simp only [work]
      by_cases same : first = next
      · rw [same, if_pos List.mem_cons_self, if_neg unmarked]
        have fewer := work_cons_le edges next marked rest
        omega
      · have inRest := List.mem_of_ne_of_mem (Ne.symm same) inArea
        have fewer := inductionHypothesis inRest
        by_cases isMarked : first ∈ marked
        · rw [if_pos isMarked, if_pos (List.mem_cons_of_mem _ isMarked)]
          omega
        · rw [if_neg isMarked, if_neg (by simp [same, isMarked])]
          omega

theorem markFrom_sound
    {fuel : Nat}
    (found : final ∈ markFrom edges area fuel marked stack) :
    final ∈ marked ∨ ∃ start ∈ stack, Within edges area start final := by
  induction fuel generalizing marked stack with
  | zero =>
      exact Or.inl found
  | succ fuel inductionHypothesis =>
      cases stack with
      | nil =>
          exact Or.inl found
      | cons next rest =>
          rw [markFrom] at found
          split at found
          · obtain before | ⟨start, listed, path⟩ := inductionHypothesis found
            · exact Or.inl before
            · exact Or.inr ⟨start, List.mem_cons_of_mem _ listed, path⟩
          · next isNew =>
              push Not at isNew
              obtain ⟨_, inArea⟩ := isNew
              obtain before | ⟨start, listed, path⟩ := inductionHypothesis found
              · rcases List.mem_cons.mp before with rfl | isMarked
                · exact Or.inr ⟨final, List.mem_cons_self, Within.here inArea⟩
                · exact Or.inl isMarked
              · rcases List.mem_append.mp listed with isEdge | inRest
                · exact Or.inr ⟨next, List.mem_cons_self, Within.step inArea isEdge path⟩
                · exact Or.inr ⟨start, List.mem_cons_of_mem _ inRest, path⟩

/-- With the fuel there is, the loop ends with an empty stack. -/
theorem markFrom_complete
    {fuel : Nat}
    (enough : stack.length + work edges marked area ≤ fuel)
    (closing : Closing edges area marked stack) :
    (∀ node ∈ marked, node ∈ markFrom edges area fuel marked stack) ∧
      (∀ node ∈ stack, node ∈ area → node ∈ markFrom edges area fuel marked stack) ∧
        Closing edges area (markFrom edges area fuel marked stack) [] := by
  induction fuel generalizing marked stack with
  | zero =>
      have isEmpty : stack = [] := List.eq_nil_of_length_eq_zero (by omega)
      subst isEmpty
      exact ⟨fun _ isMarked => isMarked, fun _ listed => absurd listed List.not_mem_nil, closing⟩
  | succ fuel inductionHypothesis =>
      cases stack with
      | nil =>
          exact ⟨fun _ isMarked => isMarked, fun _ listed => absurd listed List.not_mem_nil, closing⟩
      | cons next rest =>
          rw [markFrom]
          rw [List.length_cons] at enough
          by_cases skipped : next ∈ marked ∨ next ∉ area
          · rw [if_pos skipped]
            have restClosing : Closing edges area marked rest := by
              intro start isMarked other isEdge inArea
              obtain already | listed := closing start isMarked other isEdge inArea
              · exact Or.inl already
              · rcases List.mem_cons.mp listed with rfl | inRest
                · exact Or.inl (skipped.resolve_right (not_not_intro inArea))
                · exact Or.inr inRest
            obtain ⟨kept, reached, closed⟩ := inductionHypothesis (by omega) restClosing
            refine ⟨kept, ?_, closed⟩
            intro node listed inArea
            rcases List.mem_cons.mp listed with rfl | inRest
            · exact kept node (skipped.resolve_right (not_not_intro inArea))
            · exact reached node inRest inArea
          · rw [if_neg skipped]
            push Not at skipped
            obtain ⟨unmarked, inArea⟩ := skipped
            have less :
                work edges (next :: marked) area + (edges next).length + 1 ≤
                  work edges marked area :=
              work_cons unmarked inArea
            have nextClosing : Closing edges area (next :: marked) (edges next ++ rest) := by
              intro start isMarked other isEdge inArea'
              rcases List.mem_cons.mp isMarked with rfl | before
              · exact Or.inr (List.mem_append_left _ isEdge)
              · obtain already | listed := closing start before other isEdge inArea'
                · exact Or.inl (List.mem_cons_of_mem _ already)
                · rcases List.mem_cons.mp listed with rfl | inRest
                  · exact Or.inl List.mem_cons_self
                  · exact Or.inr (List.mem_append_right _ inRest)
            have enough' :
                (edges next ++ rest).length + work edges (next :: marked) area ≤ fuel := by
              rw [List.length_append]
              omega
            obtain ⟨kept, reached, closed⟩ := inductionHypothesis enough' nextClosing
            refine ⟨fun node isMarked => kept node (List.mem_cons_of_mem _ isMarked), ?_, closed⟩
            intro node listed inArea'
            rcases List.mem_cons.mp listed with rfl | inRest
            · exact kept node List.mem_cons_self
            · exact reached node (List.mem_append_right _ inRest) inArea'

/-- What is marked in the end is closed. -/
theorem mark_closed (closing : Closing edges area marked stack) :
    Closing edges area (mark edges area marked stack) [] :=
  (markFrom_complete (Nat.le_refl _) closing).2.2

/-- What is marked in the end was marked before, or can be reached from the stack. -/
theorem mem_mark_iff (closing : Closing edges area marked stack) :
    final ∈ mark edges area marked stack ↔
      final ∈ marked ∨ ∃ start ∈ stack, Within edges area start final := by
  constructor
  · exact markFrom_sound
  · obtain ⟨kept, reached, closed⟩ :=
      markFrom_complete (Nat.le_refl _) closing
    rintro (isMarked | ⟨start, listed, path⟩)
    · exact kept final isMarked
    · exact path.mem_of_closed closed (reached start listed path.start_mem)

end Marked

/-! ## The whole graph -/

/-- There is a path from one of the roots. -/
def Reachable (edges : node → List node) (roots : List node) (final : node) : Prop :=
  ∃ root ∈ roots, Relation.ReflTransGen (fun start next => next ∈ edges start) root final

section Whole

variable {edges : node → List node} {area outside roots : List node} {start final : node}

omit [DecidableEq node] in
theorem Within.reflTransGen (path : Within edges area start final) :
    Relation.ReflTransGen (fun start next => next ∈ edges start) start final := by
  induction path with
  | here _ =>
      exact Relation.ReflTransGen.refl
  | step _ isEdge _ inductionHypothesis =>
      exact Relation.ReflTransGen.head isEdge inductionHypothesis

omit [DecidableEq node] in
/-- What is reached lies in any set that contains the roots and is closed. -/
theorem Reachable.mem_of_closed
    {holds : node → Prop}
    (reachable : Reachable edges roots final)
    (rootsHold : ∀ root ∈ roots, holds root)
    (closed : ∀ start, holds start → ∀ next ∈ edges start, holds next) :
    holds final := by
  obtain ⟨root, isRoot, path⟩ := reachable
  induction path with
  | refl =>
      exact rootsHold root isRoot
  | tail _ isEdge inductionHypothesis =>
      exact closed _ inductionHypothesis _ isEdge

omit [DecidableEq node] in
theorem Reachable.root (isRoot : final ∈ roots) : Reachable edges roots final :=
  ⟨final, isRoot, Relation.ReflTransGen.refl⟩

omit [DecidableEq node] in
theorem Reachable.edge
    {next : node}
    (reachable : Reachable edges roots start)
    (isEdge : next ∈ edges start) :
    Reachable edges roots next := by
  obtain ⟨root, isRoot, path⟩ := reachable
  exact ⟨root, isRoot, path.tail isEdge⟩

/-- The area is marked from the roots and from the edges that lead into it: that finds what can be
reached from the roots and from the nodes outside of the area. -/
theorem mem_mark_iff_reachable
    (covered :
      ∀ start, start ∈ area ∨ start ∈ outside → ∀ next ∈ edges start, next ∈ area ∨ next ∈ outside)
    (rootsCovered : ∀ root ∈ roots, root ∈ area ∨ root ∈ outside)
    (apart : ∀ start ∈ outside, start ∉ area)
    (inArea : final ∈ area) :
    final ∈ mark edges area [] (roots ++ outside.flatMap edges) ↔
      Reachable edges (roots ++ outside) final := by
  have closing : Closing edges area [] (roots ++ outside.flatMap edges) := by
    intro start isMarked
    exact absurd isMarked List.not_mem_nil
  have fromStack :
      ∀ start ∈ roots ++ outside.flatMap edges, start ∈ area →
        start ∈ mark edges area [] (roots ++ outside.flatMap edges) := by
    intro start listed startInArea
    exact (mem_mark_iff closing).mpr (Or.inr ⟨start, listed, Within.here startInArea⟩)
  constructor
  · intro isMarked
    obtain ⟨start, listed, path⟩ :=
      ((mem_mark_iff closing).mp isMarked).resolve_left List.not_mem_nil
    rcases List.mem_append.mp listed with isRoot | leadsInto
    · exact ⟨start, List.mem_append_left _ isRoot, path.reflTransGen⟩
    · obtain ⟨source, isOutside, isEdge⟩ := List.mem_flatMap.mp leadsInto
      exact ⟨source, List.mem_append_right _ isOutside,
        Relation.ReflTransGen.head isEdge path.reflTransGen⟩
  · intro reachable
    have marked :
        (final ∈ area ∨ final ∈ outside) ∧
          (final ∈ area → final ∈ mark edges area [] (roots ++ outside.flatMap edges)) := by
      apply reachable.mem_of_closed
      · intro root isRoot
        rcases List.mem_append.mp isRoot with isRoot | isOutside
        · exact ⟨rootsCovered root isRoot, fromStack root (List.mem_append_left _ isRoot)⟩
        · exact ⟨Or.inr isOutside, fun rootInArea => absurd rootInArea (apart root isOutside)⟩
      · rintro start ⟨isCovered, isMarked⟩ next isEdge
        refine ⟨covered start isCovered next isEdge, ?_⟩
        intro nextInArea
        rcases isCovered with startInArea | isOutside
        · exact (mark_closed closing start (isMarked startInArea) next isEdge
            nextInArea).resolve_right List.not_mem_nil
        · exact fromStack next
            (List.mem_append_right _ (List.mem_flatMap.mpr ⟨start, isOutside, isEdge⟩)) nextInArea
    exact marked.2 inArea

end Whole

end PicoJvm.Lib.Marking
