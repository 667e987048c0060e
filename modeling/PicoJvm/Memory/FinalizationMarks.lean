import Mathlib.Data.List.Nodup
import PicoJvm.Memory.Finalization

/-!
# What a collection marks

The invariant of the heap and of the list of finalizers, and what is marked where it holds: which
objects become pending, and which ones survive.
-/

namespace PicoJvm.Finalization

open PicoJvm.Lib.Marking

/-! ## Objects by their numbers -/

section Numbers

variable {state : State} {obj : Obj} {object bottom : Nat}

theorem find_of_mem
    (nodup : (state.objects.map Obj.object).Nodup)
    (listed : obj ∈ state.objects) :
    state.find obj.object = some obj := by
  unfold State.find
  induction objects : state.objects generalizing state with
  | nil =>
      rw [objects] at listed
      exact absurd listed List.not_mem_nil
  | cons first rest inductionHypothesis =>
      rw [objects] at listed nodup
      rw [List.map_cons, List.nodup_cons] at nodup
      rcases List.mem_cons.mp listed with rfl | inRest
      · simp
      · have different : first.object ≠ obj.object := by
          intro same
          exact nodup.1 (List.mem_map.mpr ⟨obj, inRest, same.symm⟩)
        rw [List.find?_cons_of_neg (by simpa using different)]
        exact @inductionHypothesis { state with objects := rest } nodup.2 inRest rfl

theorem edges_of_mem
    (nodup : (state.objects.map Obj.object).Nodup)
    (listed : obj ∈ state.objects) :
    state.edges obj.object = obj.fields := by
  rw [State.edges, find_of_mem nodup listed]
  rfl

theorem address_of_mem
    (nodup : (state.objects.map Obj.object).Nodup)
    (listed : obj ∈ state.objects) :
    state.address obj.object = obj.address := by
  rw [State.address, find_of_mem nodup listed]
  rfl

/-- What has edges is an object. -/
theorem mem_of_edge
    {field : Nat}
    (isEdge : field ∈ state.edges object) :
    ∃ obj ∈ state.objects, obj.object = object ∧ field ∈ obj.fields := by
  rw [State.edges] at isEdge
  cases found : state.find object with
  | none =>
      rw [found] at isEdge
      exact absurd isEdge List.not_mem_nil
  | some obj =>
      rw [found] at isEdge
      exact ⟨obj, List.mem_of_find?_eq_some found, by simpa using List.find?_some found, isEdge⟩

theorem mem_area :
    object ∈ state.area bottom ↔
      ∃ obj ∈ state.objects, obj.object = object ∧ bottom ≤ obj.address := by
  simp only [State.area, List.mem_map, List.mem_filter, decide_eq_true_eq]
  constructor
  · rintro ⟨obj, ⟨listed, inArea⟩, same⟩
    exact ⟨obj, listed, same, inArea⟩
  · rintro ⟨obj, listed, same, inArea⟩
    exact ⟨obj, ⟨listed, inArea⟩, same⟩

theorem mem_outside :
    object ∈ state.outside bottom ↔
      ∃ obj ∈ state.objects, obj.object = object ∧ obj.address < bottom := by
  simp only [State.outside, List.mem_map, List.mem_filter, Bool.not_eq_true', decide_eq_false_iff_not,
    Nat.not_le]
  constructor
  · rintro ⟨obj, ⟨listed, isOutside⟩, same⟩
    exact ⟨obj, listed, same, isOutside⟩
  · rintro ⟨obj, listed, same, isOutside⟩
    exact ⟨obj, ⟨listed, isOutside⟩, same⟩

theorem mem_area_or_outside (listed : obj ∈ state.objects) (bottom : Nat) :
    obj.object ∈ state.area bottom ∨ obj.object ∈ state.outside bottom := by
  by_cases inArea : bottom ≤ obj.address
  · exact Or.inl (mem_area.2 ⟨obj, listed, rfl, inArea⟩)
  · exact Or.inr (mem_outside.2 ⟨obj, listed, rfl, Nat.lt_of_not_le inArea⟩)

/-- Objects with one number are one. -/
theorem eq_of_object_eq
    {other : Obj}
    (nodup : (state.objects.map Obj.object).Nodup)
    (listed : obj ∈ state.objects)
    (listed' : other ∈ state.objects)
    (same : obj.object = other.object) :
    obj = other := by
  have found := find_of_mem nodup listed
  rw [same, find_of_mem nodup listed'] at found
  exact (Option.some.inj found).symm

theorem not_mem_area_of_outside
    (nodup : (state.objects.map Obj.object).Nodup)
    (isOutside : object ∈ state.outside bottom) :
    object ∉ state.area bottom := by
  intro inArea
  obtain ⟨obj, listed, isObject, below⟩ := mem_outside.1 isOutside
  obtain ⟨other, listed', isObject', above⟩ := mem_area.1 inArea
  cases eq_of_object_eq nodup listed listed' (isObject.trans isObject'.symm)
  omega

end Numbers

/-! ## The invariant -/

/-- What holds after any number of steps. -/
structure Invariant (state : State) : Prop where
  sorted :
    state.objects.Pairwise fun first second => first.address + first.size ≤ second.address
  sized : ∀ obj ∈ state.objects, 0 < obj.size
  nodup : (state.objects.map Obj.object).Nodup
  older : ∀ obj ∈ state.objects, obj.object < state.born
  fields : ∀ obj ∈ state.objects, ∀ field ∈ obj.fields, state.Has field
  consFields : ∀ obj ∈ state.objects, obj.isCons = true → obj.fields = []
  roots : ∀ root ∈ state.roots, state.Has root
  weak : ∀ object, WeakEntry.refers object ∈ state.weakReferences → state.Has object
  cells :
    ∀ cons ∈ state.finalizerReachable,
      ∃ obj ∈ state.objects, obj.object = cons.cell ∧ obj.isCons = true
  referentsHave : ∀ cons ∈ state.finalizerReachable, state.Has cons.referent
  listed :
    (referents state.finalizerReachable).reverse.Sublist
      (state.objects.map Obj.object)
  accounted :
    state.registered.Perm
      (referents state.finalizerReachable ++ state.finalized)
  registeredNodup : state.registered.Nodup
  registeredOlder : ∀ object ∈ state.registered, object < state.born

section Closed

variable {state : State} {object field bottom : Nat}

theorem Invariant.has_of_edge
    (invariant : Invariant state)
    (isEdge : field ∈ state.edges object) :
    state.Has field := by
  obtain ⟨obj, listed, _, isField⟩ := mem_of_edge isEdge
  exact invariant.fields obj listed field isField

/-- A cell has no edges. -/
theorem Invariant.edges_cons
    (invariant : Invariant state)
    {obj : Obj}
    (listed : obj ∈ state.objects)
    (isCons : obj.isCons = true) :
    state.edges obj.object = [] := by
  rw [edges_of_mem invariant.nodup listed]
  exact invariant.consFields obj listed isCons

theorem State.Has.covered (has : state.Has object) (bottom : Nat) :
    object ∈ state.area bottom ∨ object ∈ state.outside bottom := by
  obtain ⟨obj, listed, rfl, _⟩ := has
  exact mem_area_or_outside listed bottom

/-- What is reached from objects of the program are such objects. -/
theorem Invariant.has_of_reachable
    (invariant : Invariant state)
    {roots : List Nat}
    (rootsHave : ∀ root ∈ roots, state.Has root)
    (reachable : Reachable state.edges roots object) :
    state.Has object :=
  reachable.mem_of_closed rootsHave fun _ _ _ isEdge => invariant.has_of_edge isEdge

end Closed

/-! ## The lists -/

section Lists

variable {state : State} {object bottom : Nat}

/-- The loop ends at the first referent in front of the collection area: the others are older. -/
theorem discoverFinalizerReachableObjects_eq
    {address : Nat → Nat}
    {list : List FinalizerCons}
    (ordered : (referents list).Pairwise fun first second => address second < address first)
    (marked : List Nat)
    (pending : List FinalizerCons) :
    discoverFinalizerReachableObjects bottom address marked list pending =
      (list.filter fun cons =>
          decide (address cons.referent < bottom ∨ cons.referent ∈ marked),
        (list.filter fun cons =>
          decide (bottom ≤ address cons.referent ∧ cons.referent ∉ marked)).reverse ++ pending) := by
  induction list generalizing pending with
  | nil =>
      rfl
  | cons first rest inductionHypothesis =>
      rw [referents, List.map_cons, List.pairwise_cons] at ordered
      rw [discoverFinalizerReachableObjects]
      by_cases inArea : bottom ≤ address first.referent
      · by_cases isMarked : first.referent ∈ marked
        · rw [if_pos inArea, if_pos isMarked, inductionHypothesis ordered.2 pending]
          simp [isMarked]
        · rw [if_pos inArea, if_neg isMarked, inductionHypothesis ordered.2 (first :: pending)]
          have notBelow : ¬ address first.referent < bottom := Nat.not_lt_of_le inArea
          simp [isMarked, inArea, notBelow]
      · rw [if_neg inArea]
        have below : ∀ cons ∈ first :: rest, address cons.referent < bottom := by
          intro cons listed
          rcases List.mem_cons.mp listed with rfl | inRest
          · exact Nat.lt_of_not_le inArea
          · have older := ordered.1 cons.referent (List.mem_map.mpr ⟨cons, inRest, rfl⟩)
            omega
        have allKept :
            (first :: rest).filter (fun cons =>
              decide (address cons.referent < bottom ∨ cons.referent ∈ marked)) = first :: rest := by
          rw [List.filter_eq_self]
          intro cons listed
          exact decide_eq_true (Or.inl (below cons listed))
        have noneTaken :
            (first :: rest).filter (fun cons =>
              decide (bottom ≤ address cons.referent ∧ cons.referent ∉ marked)) = [] := by
          rw [List.filter_eq_nil_iff]
          intro cons listed
          have isBelow := below cons listed
          simp only [decide_eq_true_eq, not_and]
          omega
        rw [allKept, noneTaken]
        rfl

/-- The numbers of the objects stand in the order of the addresses. -/
theorem Invariant.objects_ordered (invariant : Invariant state) :
    (state.objects.map Obj.object).Pairwise fun first second =>
      state.address first < state.address second := by
  rw [List.pairwise_map]
  apply invariant.sorted.imp_of_mem
  intro first second isFirst isSecond before
  have sized := invariant.sized first isFirst
  rw [address_of_mem invariant.nodup isFirst, address_of_mem invariant.nodup isSecond]
  omega

/-- The list is ordered by decreasing addresses of the referents. -/
theorem Invariant.ordered (invariant : Invariant state) :
    (referents state.finalizerReachable).Pairwise fun first second =>
      state.address second < state.address first := by
  have increasing := invariant.objects_ordered.sublist invariant.listed
  rwa [List.pairwise_reverse] at increasing

theorem Invariant.mem_rooted_iff
    (invariant : Invariant state)
    (inArea : object ∈ state.area bottom) :
    object ∈ rooted bottom state ↔
      Reachable state.edges (state.roots ++ state.outside bottom) object := by
  apply mem_mark_iff_reachable
  · intro start _ next isEdge
    exact (invariant.has_of_edge isEdge).covered bottom
  · intro root isRoot
    exact (invariant.roots root isRoot).covered bottom
  · intro start isOutside
    exact not_mem_area_of_outside invariant.nodup isOutside
  · exact inArea

theorem Invariant.le_address_iff
    (invariant : Invariant state)
    (has : state.Has object) :
    bottom ≤ state.address object ↔ object ∈ state.area bottom := by
  obtain ⟨obj, listed, rfl, _⟩ := has
  rw [address_of_mem invariant.nodup listed]
  constructor
  · intro above
    exact mem_area.2 ⟨obj, listed, rfl, above⟩
  · intro inArea
    obtain ⟨other, listed', same, above⟩ := mem_area.1 inArea
    cases eq_of_object_eq invariant.nodup listed listed' same.symm
    exact above

/-- The objects that stay on the list. -/
theorem Invariant.discovered_fst
    (invariant : Invariant state)
    (bottom : Nat) :
    (discovered bottom state).1 =
      state.finalizerReachable.filter fun cons =>
        decide (state.address cons.referent < bottom ∨ cons.referent ∈ rooted bottom state) := by
  rw [discovered, discoverFinalizerReachableObjects_eq invariant.ordered]

/-- The objects that become pending. -/
theorem Invariant.discovered_snd
    (invariant : Invariant state)
    (bottom : Nat) :
    (discovered bottom state).2 =
      (state.finalizerReachable.filter fun cons =>
        decide (bottom ≤ state.address cons.referent ∧
          cons.referent ∉ rooted bottom state)).reverse := by
  rw [discovered, discoverFinalizerReachableObjects_eq invariant.ordered]
  exact List.append_nil _

theorem mem_referents {list : List FinalizerCons} :
    object ∈ referents list ↔ ∃ cons ∈ list, cons.referent = object :=
  List.mem_map

/-- What becomes pending. -/
theorem Invariant.mem_pending_iff
    (invariant : Invariant state) :
    object ∈ referents (discovered bottom state).2 ↔
      object ∈ referents state.finalizerReachable ∧ object ∈ state.area bottom ∧
        ¬ Reachable state.edges (state.roots ++ state.outside bottom) object := by
  rw [invariant.discovered_snd, mem_referents, mem_referents]
  simp only [List.mem_reverse, List.mem_filter, decide_eq_true_eq]
  constructor
  · rintro ⟨cons, ⟨listed, above, unmarked⟩, rfl⟩
    have inArea := (invariant.le_address_iff (invariant.referentsHave cons listed)).mp above
    exact ⟨⟨cons, listed, rfl⟩, inArea, fun reached =>
      unmarked ((invariant.mem_rooted_iff inArea).mpr reached)⟩
  · rintro ⟨⟨cons, listed, rfl⟩, inArea, unreached⟩
    have above := (invariant.le_address_iff (invariant.referentsHave cons listed)).mpr inArea
    exact ⟨cons, ⟨listed, above, fun isMarked =>
      unreached ((invariant.mem_rooted_iff inArea).mp isMarked)⟩, rfl⟩

end Lists

/-! ## What is marked -/

section Marked

variable {state : State} {object bottom : Nat}

theorem mem_finalizerOops {list : List FinalizerCons} :
    object ∈ finalizerOops list ↔
      ∃ cons ∈ list, object = cons.cell ∨ object = cons.referent := by
  simp [finalizerOops]

theorem mem_area_of_mem_rooted (isMarked : object ∈ rooted bottom state) :
    object ∈ state.area bottom := by
  obtain isMarked | ⟨start, _, path⟩ := markFrom_sound isMarked
  · exact absurd isMarked List.not_mem_nil
  · exact path.mem

theorem closing_append
    {edges : Nat → List Nat}
    {area marked : List Nat}
    (closed : Closing edges area marked [])
    (stack : List Nat) :
    Closing edges area marked stack := by
  intro start isMarked next isEdge inArea
  exact Or.inl ((closed start isMarked next isEdge inArea).resolve_right List.not_mem_nil)

theorem rooted_closed (bottom : Nat) (state : State) :
    Closing state.edges (state.area bottom) (rooted bottom state) [] := by
  apply mark_closed
  intro start isMarked
  exact absurd isMarked List.not_mem_nil

theorem kept_closed (bottom : Nat) (state : State) :
    Closing state.edges (state.area bottom) (kept bottom state) [] :=
  mark_closed (closing_append (mark_closed (closing_append (rooted_closed bottom state) _)) _)

/-- What is kept is marked from the roots, or from one of the lists. -/
theorem mem_kept_iff :
    object ∈ kept bottom state ↔
      object ∈ rooted bottom state ∨
        ∃ start ∈ finalizerOops (discovered bottom state).1 ++
            finalizerOops (discovered bottom state).2,
          Within state.edges (state.area bottom) start object := by
  have closed := closing_append (rooted_closed bottom state)
  rw [kept, mem_mark_iff (closing_append (mark_closed (closed _)) _), mem_mark_iff (closed _)]
  simp only [List.mem_append, or_and_right, exists_or, or_assoc]

theorem mem_area_of_mem_kept (isKept : object ∈ kept bottom state) :
    object ∈ state.area bottom := by
  rcases mem_kept_iff.1 isKept with isMarked | ⟨start, _, path⟩
  · exact mem_area_of_mem_rooted isMarked
  · exact path.mem

/-- The pending objects are kept. -/
theorem Invariant.mem_kept_of_pending
    (invariant : Invariant state)
    (isPending : object ∈ referents (discovered bottom state).2) :
    object ∈ kept bottom state := by
  have inArea := (invariant.mem_pending_iff.mp isPending).2.1
  obtain ⟨cons, listed, rfl⟩ := mem_referents.1 isPending
  apply mem_kept_iff.2
  refine Or.inr ⟨cons.referent, List.mem_append_right _ ?_, Within.here inArea⟩
  exact mem_finalizerOops.2 ⟨cons, listed, Or.inr rfl⟩

/-- Pending objects are marked again after they have been unmarked. -/
theorem mem_marked_iff :
    object ∈ (markObjects bottom state).marked ↔ object ∈ kept bottom state := by
  have isUnmarked :
      ∀ {object}, object ∈ unmarkPendingFinalizers (discovered bottom state).2 (kept bottom state) ↔
        object ∈ kept bottom state ∧ object ∉ referents (discovered bottom state).2 := by
    intro object
    simp [unmarkPendingFinalizers]
  have onStack :
      ∀ {object}, object ∈ referents (discovered bottom state).2 →
        object ∈ finalizerOops (discovered bottom state).2 := by
    intro object isPending
    obtain ⟨cons, listed, rfl⟩ := mem_referents.1 isPending
    exact mem_finalizerOops.2 ⟨cons, listed, Or.inr rfl⟩
  have closing :
      Closing state.edges (state.area bottom)
        (unmarkPendingFinalizers (discovered bottom state).2 (kept bottom state))
        (finalizerOops (discovered bottom state).2) := by
    intro start isMarked next isEdge inArea
    have nextKept :=
      (kept_closed bottom state start (isUnmarked.mp isMarked).1 next isEdge inArea).resolve_right
        List.not_mem_nil
    by_cases isPending : next ∈ referents (discovered bottom state).2
    · exact Or.inr (onStack isPending)
    · exact Or.inl (isUnmarked.mpr ⟨nextKept, isPending⟩)
  rw [markObjects, mem_mark_iff closing]
  constructor
  · rintro (isMarked | ⟨start, listed, path⟩)
    · exact (isUnmarked.mp isMarked).1
    · exact mem_kept_iff.2 (Or.inr ⟨start, List.mem_append_right _ listed, path⟩)
  · intro isKept
    by_cases isPending : object ∈ referents (discovered bottom state).2
    · exact Or.inr ⟨object, onStack isPending, Within.here (mem_area_of_mem_kept isKept)⟩
    · exact Or.inl (isUnmarked.mpr ⟨isKept, isPending⟩)

/-- What survives a collection: it is not collected, or kept. -/
def Survives (bottom : Nat) (state : State) (object : Nat) : Prop :=
  object ∈ state.outside bottom ∨ object ∈ kept bottom state

instance (bottom : Nat) (state : State) (object : Nat) : Decidable (Survives bottom state object) :=
  inferInstanceAs (Decidable (_ ∨ _))

/-- What is reached from what survives survives. -/
theorem Invariant.survives_of_edge
    (invariant : Invariant state)
    {next : Nat}
    (survives : Survives bottom state object)
    (isEdge : next ∈ state.edges object) :
    Survives bottom state next := by
  rcases (invariant.has_of_edge isEdge).covered bottom with inArea | isOutside
  · right
    rcases survives with isOutside | isKept
    · apply mem_kept_iff.2
      left
      apply (invariant.mem_rooted_iff inArea).mpr
      exact (Reachable.root (List.mem_append_right _ isOutside)).edge isEdge
    · exact (kept_closed bottom state object isKept next isEdge inArea).resolve_right
        List.not_mem_nil
  · exact Or.inl isOutside

theorem Invariant.survives_of_root
    (invariant : Invariant state)
    (isRoot : object ∈ state.roots) :
    Survives bottom state object := by
  rcases (invariant.roots object isRoot).covered bottom with inArea | isOutside
  · right
    apply mem_kept_iff.2
    left
    exact (invariant.mem_rooted_iff inArea).mpr (Reachable.root (List.mem_append_left _ isRoot))
  · exact Or.inl isOutside

/-- What is on the lists survives, cells included. -/
theorem survives_of_listed
    {cons : FinalizerCons}
    (listed : cons ∈ (discovered bottom state).1 ∨ cons ∈ (discovered bottom state).2)
    (isOop : object = cons.cell ∨ object = cons.referent)
    (covered : object ∈ state.area bottom ∨ object ∈ state.outside bottom) :
    Survives bottom state object := by
  rcases covered with inArea | isOutside
  · right
    apply mem_kept_iff.2
    refine Or.inr ⟨object, List.mem_append.mpr ?_, Within.here inArea⟩
    exact listed.imp (fun listed => mem_finalizerOops.2 ⟨cons, listed, isOop⟩)
      (fun listed => mem_finalizerOops.2 ⟨cons, listed, isOop⟩)
  · exact Or.inl isOutside

/-- The program's objects that are kept are reached from the roots, from what is not collected, or
from what becomes pending. -/
theorem Invariant.mem_kept_iff_reachable
    (invariant : Invariant state)
    (has : state.Has object)
    (inArea : object ∈ state.area bottom) :
    object ∈ kept bottom state ↔
      Reachable state.edges
        (state.roots ++ state.outside bottom ++ referents (discovered bottom state).2) object := by
  constructor
  · intro isKept
    have widen :
        ∀ {object}, object ∈ rooted bottom state →
          Reachable state.edges
            (state.roots ++ state.outside bottom ++ referents (discovered bottom state).2)
              object := by
      intro object isMarked
      obtain ⟨root, isRoot, path⟩ :=
        (invariant.mem_rooted_iff (mem_area_of_mem_rooted isMarked)).mp isMarked
      exact ⟨root, List.mem_append_left _ isRoot, path⟩
    have notCell :
        ∀ cons ∈ state.finalizerReachable,
          ¬ Within state.edges (state.area bottom) cons.cell object := by
      intro cons listed path
      obtain ⟨obj, isObj, isCell, isCons⟩ := invariant.cells cons listed
      obtain ⟨other, isOther, isObject, notCons⟩ := has
      rw [← isCell] at path
      cases path with
      | here _ =>
          cases eq_of_object_eq invariant.nodup isObj isOther isObject.symm
          rw [isCons] at notCons
          cases notCons
      | step _ isEdge _ =>
          rw [invariant.edges_cons isObj isCons] at isEdge
          exact absurd isEdge List.not_mem_nil
    rcases mem_kept_iff.1 isKept with isMarked | ⟨start, listed, path⟩
    · exact widen isMarked
    · rcases List.mem_append.mp listed with onFirst | onSecond
      · obtain ⟨cons, inList, isOop⟩ := mem_finalizerOops.1 onFirst
        rw [invariant.discovered_fst, List.mem_filter, decide_eq_true_eq] at inList
        rcases isOop with rfl | rfl
        · exact absurd path (notCell cons inList.1)
        · have above :=
            (invariant.le_address_iff (invariant.referentsHave cons inList.1)).mpr path.start_mem
          obtain ⟨root, isRoot, toStart⟩ := widen (inList.2.resolve_left (by omega))
          exact ⟨root, isRoot, toStart.trans path.reflTransGen⟩
      · obtain ⟨cons, inList, isOop⟩ := mem_finalizerOops.1 onSecond
        rcases isOop with rfl | rfl
        · have listed := inList
          rw [invariant.discovered_snd, List.mem_reverse, List.mem_filter] at listed
          exact absurd path (notCell cons listed.1)
        · exact ⟨cons.referent,
            List.mem_append_right _ (mem_referents.2 ⟨cons, inList, rfl⟩), path.reflTransGen⟩
  · intro reachable
    have survives : Survives bottom state object := by
      apply reachable.mem_of_closed
      · intro root isRoot
        rcases List.mem_append.mp isRoot with isRoot | isPending
        · rcases List.mem_append.mp isRoot with isRoot | isOutside
          · exact invariant.survives_of_root isRoot
          · exact Or.inl isOutside
        · exact Or.inr (invariant.mem_kept_of_pending isPending)
      · intro start survives next isEdge
        exact invariant.survives_of_edge survives isEdge
    exact survives.resolve_left fun isOutside =>
      not_mem_area_of_outside invariant.nodup isOutside inArea

end Marked

end PicoJvm.Finalization
