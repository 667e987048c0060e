import Mathlib.Data.Finset.Card
import Mathlib.Data.Finset.Range
import Mathlib.Logic.Relation
import PicoJvm.Lib.Bitmap
import PicoJvm.Lib.Fallible
import PicoJvm.Lib.Ring

/-!
# Super interfaces of a class

Before an abstract class gets its miranda methods, the parser counts its super interfaces in one
recursion and lists them in another one. Both mark in a bitmap the interfaces they have been
at.
-/

namespace PicoJvm.Loading

open PicoJvm.Lib
open PicoJvm.Lib.Bitmap
open PicoJvm.Lib.Fallible

/-! ## The two recursions -/

/-- The local interfaces of each class, by its id. -/
structure InterfaceGraph where
  localInterfaces : List (List Nat)
  known : ∀ locals ∈ localInterfaces, ∀ id ∈ locals, id < localInterfaces.length

namespace InterfaceGraph

/-- `Universe::number_of_java_classes()`. -/
def classCount (graph : InterfaceGraph) : Nat :=
  graph.localInterfaces.length

/-- `Universe::class_from_id(id).local_interfaces()`. -/
def localsOf (graph : InterfaceGraph) (id : Nat) : List Nat :=
  graph.localInterfaces.getD id []

end InterfaceGraph

/-- How collecting goes wrong: a place outside an array is read or written, or the recursion
goes on. -/
inductive CollectFault
  | outsideArray
  | unfinished
  deriving DecidableEq, Repr

/-- Marks an interface in the bitmap, unless it is marked. -/
def visit (bitmap : Words) (id : Nat) : Except CollectFault (Option Words) :=
  match test bitmap id with
  | none => .error .outsideArray
  | some true => .ok none
  | some false =>
      match mark bitmap id with
      | none => .error .outsideArray
      | some next => .ok (some next)

/-- The loop of `count_interfaces`. -/
def countLoop (recur : Nat → Words → Except CollectFault (Nat × Words)) :
    List Nat → Nat → Words → Except CollectFault (Nat × Words)
  | [], totalSize, bitmap => .ok (totalSize, bitmap)
  | id :: ids, totalSize, bitmap => do
      match ← visit bitmap id with
      | none => countLoop recur ids totalSize bitmap
      | some bitmap => do
          let (more, bitmap) ← recur id bitmap
          countLoop recur ids (totalSize + more) bitmap

/-- `count_interfaces`, as deep as `depth`. -/
def countInterfaces (graph : InterfaceGraph) :
    (depth : Nat) → List Nat → Words → Except CollectFault (Nat × Words)
  | 0, _, _ => .error .unfinished
  | depth + 1, locals, bitmap =>
      countLoop (fun id bitmap => countInterfaces graph depth (graph.localsOf id) bitmap) locals
        locals.length bitmap

/-- The table that is filled, how much of it is, and the bitmap. -/
abbrev Found := List Nat × Nat × Words

/-- The loop of `found_all_interfaces`. -/
def foundLoop (recur : Nat → List Nat → Nat → Words → Except CollectFault Found) :
    List Nat → List Nat → Nat → Words → Except CollectFault Found
  | [], all, already, bitmap => .ok (all, already, bitmap)
  | id :: ids, all, already, bitmap => do
      match ← visit bitmap id with
      | none => foundLoop recur ids all already bitmap
      | some bitmap => do
          let (all, already, bitmap) ← recur id all already bitmap
          foundLoop recur ids all already bitmap

/-- `found_all_interfaces`, as deep as `depth`. -/
def foundAllInterfaces (graph : InterfaceGraph) :
    (depth : Nat) → (locals all : List Nat) → (already : Nat) → Words →
      Except CollectFault Found
  | 0, _, _, _, _ => .error .unfinished
  | depth + 1, locals, all, already, bitmap =>
      let size := locals.length
      if size ≠ 0 then
        if already + size > all.length then
          .error .outsideArray
        else
          foundLoop
            (fun id all already bitmap =>
              foundAllInterfaces graph depth (graph.localsOf id) all already bitmap)
            locals (Ring.overwrite all already locals) (already + size) bitmap
      else
        .ok (all, already, bitmap)

/-- What `parse_class_internal` does with the local interfaces of an abstract class: the count,
and what was found in an array of that size. -/
def allSuperInterfaces (graph : InterfaceGraph) (depth : Nat) (locals : List Nat) :
    Except CollectFault (Nat × Found) := do
  let bitmapSize := graph.classCount / 32 + 1
  let (count, _) ← countInterfaces graph depth locals (List.replicate bitmapSize 0)
  let found ←
    foundAllInterfaces graph depth locals (List.replicate count 0) 0
      (List.replicate bitmapSize 0)
  .ok (count, found)

/-! ## What is collected -/

namespace InterfaceGraph

variable (graph : InterfaceGraph)

/-- An interface is a local interface of another one. -/
def Extends (id super : Nat) : Prop :=
  super ∈ graph.localsOf id

/-- An interface is one of a list, or a super interface of one. -/
def SuperOf (locals : List Nat) (super : Nat) : Prop :=
  ∃ id ∈ locals, Relation.ReflTransGen graph.Extends id super

/-- The bitmap holds a set of classes. -/
structure Marks (bitmap : Words) (seen : Finset Nat) : Prop where
  size : bitmap.length = graph.classCount / 32 + 1
  holds : ∀ id, Holds bitmap id ↔ id ∈ seen
  known : seen ⊆ Finset.range graph.classCount

/-- The recursion of a list of interfaces: it collects so many, and has then seen so many. -/
structure Collects (locals : List Nat) (seen : Finset Nat) (out : List Nat)
    (next : Finset Nat) : Prop where
  grows : seen ⊆ next
  marked : ∀ id ∈ locals, id ∈ next
  seenOut : ∀ id ∈ out, id ∈ next
  closed : ∀ id ∈ next, id ∉ seen → ∀ super ∈ graph.localsOf id, super ∈ out
  sound : ∀ super ∈ out, graph.SuperOf locals super

variable {graph}

theorem localsOf_known
    {id super : Nat}
    (isLocal : super ∈ graph.localsOf id) :
    super < graph.classCount := by
  rw [localsOf, List.getD_eq_getElem?_getD] at isLocal
  cases found : graph.localInterfaces[id]? with
  | none =>
      rw [found] at isLocal
      cases isLocal
  | some locals =>
      rw [found] at isLocal
      exact graph.known locals (List.mem_of_getElem? found) super isLocal

theorem Marks.start :
    graph.Marks (List.replicate (graph.classCount / 32 + 1) 0) ∅ where
  size := List.length_replicate
  holds id := iff_of_false (not_holds_zero _ id) (Finset.notMem_empty id)
  known := Finset.empty_subset _

theorem Marks.visit
    {bitmap : Words} {seen : Finset Nat} {id : Nat}
    (marks : graph.Marks bitmap seen)
    (isKnown : id < graph.classCount) :
    (id ∈ seen ∧ visit bitmap id = .ok none) ∨
      (id ∉ seen ∧ ∃ next, Loading.visit bitmap id = .ok (some next) ∧
        graph.Marks next (insert id seen)) := by
  have inside : id / 32 < bitmap.length := by
    have := Nat.div_le_div_right (c := 32) isKnown.le
    rw [marks.size]
    omega
  have holds := marks.holds id
  by_cases isSeen : id ∈ seen
  · left
    have tested : test bitmap id = some true := by
      rw [test_eq_some_iff inside]
      simp [holds, isSeen]
    rw [Loading.visit, tested]
    exact ⟨isSeen, rfl⟩
  · right
    have tested : test bitmap id = some false := by
      rw [test_eq_some_iff inside]
      simp [holds, isSeen]
    obtain ⟨next, marked, length, others⟩ := mark_of_lt inside
    refine ⟨isSeen, next, ?_, ?_, ?_, ?_⟩
    · rw [Loading.visit, tested]
      dsimp only
      rw [marked]
    · rw [length, marks.size]
    · intro other
      rw [others, marks.holds, Finset.mem_insert]
    · intro other member
      rcases Finset.mem_insert.mp member with rfl | isOld
      · exact Finset.mem_range.mpr isKnown
      · exact marks.known isOld

/-! ## One interface after the other -/

theorem Collects.nil (seen : Finset Nat) : graph.Collects [] seen [] seen where
  grows := Finset.Subset.refl _
  marked := by simp
  seenOut := by simp
  closed id isSeen isNew := absurd isSeen isNew
  sound := by simp

theorem Collects.cons_seen
    {id : Nat} {ids out : List Nat} {seen next : Finset Nat}
    (collects : graph.Collects ids seen out next)
    (isSeen : id ∈ seen) :
    graph.Collects (id :: ids) seen out next where
  grows := collects.grows
  marked := by
    intro other member
    rcases List.mem_cons.mp member with rfl | isLater
    · exact collects.grows isSeen
    · exact collects.marked other isLater
  seenOut := collects.seenOut
  closed := collects.closed
  sound := by
    intro super isOut
    obtain ⟨start, isStart, reaches⟩ := collects.sound super isOut
    exact ⟨start, List.mem_cons_of_mem _ isStart, reaches⟩

theorem Collects.cons_new
    {id : Nat} {ids out out' : List Nat} {seen next next' : Finset Nat}
    (below : graph.Collects (graph.localsOf id) (insert id seen) out next)
    (listed : ∀ super ∈ graph.localsOf id, super ∈ out)
    (collects : graph.Collects ids next out' next') :
    graph.Collects (id :: ids) seen (out ++ out') next' where
  grows := (Finset.subset_insert id seen).trans (below.grows.trans collects.grows)
  marked := by
    intro other member
    rcases List.mem_cons.mp member with rfl | isLater
    · exact collects.grows (below.grows (Finset.mem_insert_self _ _))
    · exact collects.marked other isLater
  seenOut := by
    intro other member
    rcases List.mem_append.mp member with isOut | isOut
    · exact collects.grows (below.seenOut other isOut)
    · exact collects.seenOut other isOut
  closed := by
    intro other isNext isNew super isLocal
    apply List.mem_append.mpr
    by_cases isBelow : other ∈ next
    · left
      by_cases isId : other = id
      · subst isId
        exact listed super isLocal
      · apply below.closed other isBelow _ super isLocal
        rw [Finset.mem_insert]
        rintro (same | isOld)
        · exact isId same
        · exact isNew isOld
    · right
      exact collects.closed other isNext isBelow super isLocal
  sound := by
    intro super member
    rcases List.mem_append.mp member with isOut | isOut
    · obtain ⟨start, isLocal, reaches⟩ := below.sound super isOut
      exact ⟨id, List.mem_cons_self, .head isLocal reaches⟩
    · obtain ⟨start, isStart, reaches⟩ := collects.sound super isOut
      exact ⟨start, List.mem_cons_of_mem _ isStart, reaches⟩

/-! ## Both recursions -/

/-- How counting and listing run from a bitmap on: they see the same interfaces. -/
structure Runs (graph : InterfaceGraph) (ids : List Nat) (seen : Finset Nat) (out : List Nat)
    (next : Finset Nat) (bitmap' : Words)
    (count : Nat → Except CollectFault (Nat × Words))
    (find : List Nat → Nat → Except CollectFault Found) : Prop where
  collects : graph.Collects ids seen out next
  marks : graph.Marks bitmap' next
  counts : ∀ total, count total = .ok (total + out.length, bitmap')
  finds : ∀ all already, already + out.length ≤ all.length →
    find all already = .ok (Ring.overwrite all already out, already + out.length, bitmap')

/-- What the recursions below an interface do. -/
def RunsBelow (graph : InterfaceGraph) (depth : Nat)
    (recurCount : Nat → Words → Except CollectFault (Nat × Words))
    (recurFind : Nat → List Nat → Nat → Words → Except CollectFault Found) : Prop :=
  ∀ id bitmap seen, graph.Marks bitmap seen → graph.classCount - seen.card < depth →
    ∃ out next bitmap', graph.Collects (graph.localsOf id) seen out next ∧
      (∀ super ∈ graph.localsOf id, super ∈ out) ∧ graph.Marks bitmap' next ∧
      recurCount id bitmap = .ok (out.length, bitmap') ∧
      ∀ all already, already + out.length ≤ all.length →
        recurFind id all already bitmap =
          .ok (Ring.overwrite all already out, already + out.length, bitmap')

theorem Marks.card_le
    {bitmap : Words} {seen : Finset Nat}
    (marks : graph.Marks bitmap seen) :
    seen.card ≤ graph.classCount := by
  have bounded := Finset.card_le_card marks.known
  rwa [Finset.card_range] at bounded

theorem loops_run
    {depth : Nat}
    {recurCount : Nat → Words → Except CollectFault (Nat × Words)}
    {recurFind : Nat → List Nat → Nat → Words → Except CollectFault Found}
    (below : RunsBelow graph depth recurCount recurFind)
    {ids : List Nat}
    (known : ∀ id ∈ ids, id < graph.classCount)
    {bitmap : Words} {seen : Finset Nat}
    (marks : graph.Marks bitmap seen)
    (deep : graph.classCount - seen.card ≤ depth) :
    ∃ out next bitmap', Runs graph ids seen out next bitmap'
      (fun total => countLoop recurCount ids total bitmap)
      (fun all already => foundLoop recurFind ids all already bitmap) := by
  induction ids generalizing bitmap seen with
  | nil =>
      refine ⟨[], seen, bitmap, .nil seen, marks, fun total => rfl, fun all already room => ?_⟩
      rw [foundLoop, Ring.overwrite]
      simp
  | cons id ids inductionHypothesis =>
      have rest := fun other member => known other (List.mem_cons_of_mem _ member)
      rcases marks.visit (known id List.mem_cons_self) with
        ⟨isSeen, visited⟩ | ⟨isNew, bitmap₁, visited, marks₁⟩
      · obtain ⟨out, next, bitmap', runs⟩ := inductionHypothesis rest marks deep
        refine ⟨out, next, bitmap', runs.collects.cons_seen isSeen, runs.marks, ?_, ?_⟩
        · intro total
          rw [countLoop, visited, ok_bind]
          exact runs.counts total
        · intro all already room
          rw [foundLoop, visited, ok_bind]
          exact runs.finds all already room
      · have card := Finset.card_insert_of_notMem isNew
        have card_le := marks₁.card_le
        obtain ⟨out₁, next₁, bitmap₂, collects₁, listed₁, marks₂, counted, found⟩ :=
          below id bitmap₁ (insert id seen) marks₁ (by omega)
        have grown := Finset.card_le_card collects₁.grows
        obtain ⟨out, next, bitmap', runs⟩ := inductionHypothesis rest marks₂ (by omega)
        refine ⟨out₁ ++ out, next, bitmap', collects₁.cons_new listed₁ runs.collects,
          runs.marks, ?_, ?_⟩
        · intro total
          rw [countLoop, visited, ok_bind]
          dsimp only
          rw [counted, ok_bind, List.length_append, ← Nat.add_assoc]
          exact runs.counts _
        · intro all already room
          have roomAll := room
          rw [List.length_append] at room
          have length := Ring.overwrite_length (show already + out₁.length ≤ all.length by omega)
          rw [foundLoop, visited, ok_bind]
          dsimp only
          rw [found all already (by omega), ok_bind]
          dsimp only
          rw [← Ring.overwrite_overwrite roomAll, List.length_append, ← Nat.add_assoc]
          apply runs.finds
          omega

theorem Collects.listed
    {locals out : List Nat} {seen next : Finset Nat}
    (collects : graph.Collects locals seen out next) :
    graph.Collects locals seen (locals ++ out) next where
  grows := collects.grows
  marked := collects.marked
  seenOut := by
    intro id member
    rcases List.mem_append.mp member with isLocal | isOut
    · exact collects.marked id isLocal
    · exact collects.seenOut id isOut
  closed := by
    intro id isNext isNew super isLocal
    exact List.mem_append_right _ (collects.closed id isNext isNew super isLocal)
  sound := by
    intro super member
    rcases List.mem_append.mp member with isLocal | isOut
    · exact ⟨super, isLocal, .refl⟩
    · exact collects.sound super isOut

/-- Each recursion marks another interface, so it is no deeper than there are classes that are
not marked. -/
theorem interfaces_run
    {depth : Nat} {locals : List Nat}
    (known : ∀ id ∈ locals, id < graph.classCount)
    {bitmap : Words} {seen : Finset Nat}
    (marks : graph.Marks bitmap seen)
    (deep : graph.classCount - seen.card < depth) :
    ∃ out next bitmap', graph.Collects locals seen out next ∧
      (∀ super ∈ locals, super ∈ out) ∧ graph.Marks bitmap' next ∧
      countInterfaces graph depth locals bitmap = .ok (out.length, bitmap') ∧
      ∀ all already, already + out.length ≤ all.length →
        foundAllInterfaces graph depth locals all already bitmap =
          .ok (Ring.overwrite all already out, already + out.length, bitmap') := by
  induction depth generalizing locals bitmap seen with
  | zero =>
      exact absurd deep (Nat.not_lt_zero _)
  | succ depth inductionHypothesis =>
      by_cases nothing : locals = []
      · subst nothing
        refine ⟨[], seen, bitmap, .nil seen, by simp, marks, rfl, ?_⟩
        intro all already _
        rw [foundAllInterfaces, Ring.overwrite]
        simp
      · have below : RunsBelow graph depth
            (fun id bitmap => countInterfaces graph depth (graph.localsOf id) bitmap)
            (fun id all already bitmap =>
              foundAllInterfaces graph depth (graph.localsOf id) all already bitmap) :=
          fun id bitmap seen marks deep =>
            inductionHypothesis (fun super isLocal => localsOf_known isLocal) marks deep
        obtain ⟨out, next, bitmap', runs⟩ := loops_run below known marks (by omega)
        refine ⟨locals ++ out, next, bitmap', runs.collects.listed,
          fun super isLocal => List.mem_append_left _ isLocal, runs.marks, ?_, ?_⟩
        · rw [countInterfaces, runs.counts, List.length_append]
        · intro all already room
          have roomAll := room
          rw [List.length_append] at room
          have size : locals.length ≠ 0 := fun zero => nothing (List.length_eq_zero_iff.mp zero)
          have length := Ring.overwrite_length
            (show already + locals.length ≤ all.length by omega)
          rw [foundAllInterfaces, if_pos size, if_neg (by omega), runs.finds _ _ (by omega),
            Ring.overwrite_overwrite roomAll, List.length_append, ← Nat.add_assoc]

theorem Collects.complete
    {locals out : List Nat} {next : Finset Nat}
    (collects : graph.Collects locals ∅ out next)
    (listed : ∀ super ∈ locals, super ∈ out)
    (super : Nat) :
    super ∈ out ↔ graph.SuperOf locals super := by
  constructor
  · exact collects.sound super
  · rintro ⟨start, isLocal, reaches⟩
    induction reaches with
    | refl =>
        exact listed start isLocal
    | tail _ isSuper inductionHypothesis =>
        exact collects.closed _ (collects.seenOut _ inductionHypothesis)
          (Finset.notMem_empty _) _ isSuper

/-- Counting and listing end, and never leave an array: as many interfaces are found as were
counted, and they are the super interfaces. -/
theorem allSuperInterfaces_complete
    (graph : InterfaceGraph) (locals : List Nat)
    (known : ∀ id ∈ locals, id < graph.classCount)
    {depth : Nat}
    (deep : graph.classCount < depth) :
    ∃ count all bitmap, allSuperInterfaces graph depth locals = .ok (count, all, count, bitmap) ∧
      all.length = count ∧ ∀ super, super ∈ all ↔ graph.SuperOf locals super := by
  obtain ⟨out, next, bitmap, collects, listed, _, counted, found⟩ :=
    interfaces_run known Marks.start (by simpa using deep)
  have room : 0 + out.length ≤ (List.replicate out.length 0).length := by simp
  have whole : Ring.overwrite (List.replicate out.length 0) 0 out = out := by
    simp [Ring.overwrite]
  refine ⟨out.length, out, bitmap, ?_, rfl, collects.complete listed⟩
  rw [allSuperInterfaces, counted, ok_bind]
  dsimp only
  rw [found _ 0 room, whole, ok_bind, Nat.zero_add]

/-- Interfaces 1 and 2 both extend 3, and 3 and 4 extend each other. -/
def diamondWithCycle : InterfaceGraph where
  localInterfaces := [[], [3], [3], [4], [3]]
  known := by decide

theorem diamondWithCycle_complete :
    ∃ count all bitmap,
      allSuperInterfaces diamondWithCycle 6 [1, 2] = .ok (count, all, count, bitmap) ∧
        all.length = count ∧ ∀ super, super ∈ all ↔ diamondWithCycle.SuperOf [1, 2] super :=
  allSuperInterfaces_complete diamondWithCycle [1, 2] (by decide) (by decide)

end InterfaceGraph

end PicoJvm.Loading
