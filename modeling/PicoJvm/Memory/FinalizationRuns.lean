import PicoJvm.Memory.FinalizationMarks

/-!
# Finalizers over whole runs

Every step keeps the heap closed, the list of finalizers in the order of the addresses, and each
registered object either on the list or finalized once.
-/

namespace PicoJvm.Finalization

open PicoJvm.Lib.Marking

/-! ## Compaction -/

section Compaction

variable {objects : List Obj} {obj : Obj} {start : Nat}

theorem map_object_slide (start : Nat) (objects : List Obj) :
    (slide start objects).map Obj.object = objects.map Obj.object := by
  induction objects generalizing start with
  | nil =>
      rfl
  | cons first rest inductionHypothesis =>
      rw [slide, List.map_cons, List.map_cons, inductionHypothesis]

/-- Sliding only changes addresses. -/
theorem mem_slide
    (listed : obj ∈ slide start objects) :
    ∃ before ∈ objects, obj = { before with address := obj.address } ∧ start ≤ obj.address := by
  induction objects generalizing start with
  | nil =>
      exact absurd listed List.not_mem_nil
  | cons first rest inductionHypothesis =>
      rcases List.mem_cons.mp listed with rfl | inRest
      · exact ⟨first, List.mem_cons_self, rfl, Nat.le_refl _⟩
      · obtain ⟨before, isBefore, same, above⟩ := inductionHypothesis inRest
        exact ⟨before, List.mem_cons_of_mem _ isBefore, same, by omega⟩

theorem slide_of_mem
    (listed : obj ∈ objects)
    (start : Nat) :
    ∃ address, { obj with address := address } ∈ slide start objects := by
  induction objects generalizing start with
  | nil =>
      exact absurd listed List.not_mem_nil
  | cons first rest inductionHypothesis =>
      rcases List.mem_cons.mp listed with rfl | inRest
      · exact ⟨start, List.mem_cons_self⟩
      · obtain ⟨address, found⟩ := inductionHypothesis inRest (start + first.size)
        exact ⟨address, List.mem_cons_of_mem _ found⟩

theorem slide_sorted (start : Nat) (objects : List Obj) :
    (slide start objects).Pairwise fun first second =>
      first.address + first.size ≤ second.address := by
  induction objects generalizing start with
  | nil =>
      exact List.Pairwise.nil
  | cons first rest inductionHypothesis =>
      rw [slide, List.pairwise_cons]
      refine ⟨?_, inductionHypothesis (start + first.size)⟩
      intro obj listed
      obtain ⟨_, _, _, above⟩ := mem_slide listed
      exact above

/-- The objects in front of the collection area come first. -/
theorem filter_append_filter
    (bottom : Nat)
    (sorted : objects.Pairwise fun first second => first.address + first.size ≤ second.address)
    (chosen : Obj → Bool) :
    (objects.filter fun obj => !decide (bottom ≤ obj.address)) ++
        objects.filter (fun obj => decide (bottom ≤ obj.address) && chosen obj) =
      objects.filter fun obj => !decide (bottom ≤ obj.address) || chosen obj := by
  induction objects with
  | nil =>
      rfl
  | cons first rest inductionHypothesis =>
      rw [List.pairwise_cons] at sorted
      by_cases inArea : bottom ≤ first.address
      · have above : ∀ obj ∈ rest, bottom ≤ obj.address := by
          intro obj listed
          have behind := sorted.1 obj listed
          omega
        have noneBelow : rest.filter (fun obj => !decide (bottom ≤ obj.address)) = [] := by
          rw [List.filter_eq_nil_iff]
          intro obj listed
          simp [above obj listed]
        have onward := inductionHypothesis sorted.2
        rw [noneBelow, List.nil_append] at onward
        simp only [List.filter_cons, inArea, decide_true, Bool.not_true, Bool.false_eq_true,
          if_false, Bool.true_and, Bool.false_or, noneBelow, List.nil_append, onward]
      · simp only [List.filter_cons, inArea, decide_false, Bool.not_false, if_true, Bool.false_and,
          Bool.true_or, Bool.false_eq_true, if_false, List.cons_append]
        rw [inductionHypothesis sorted.2]

end Compaction

/-! ## The state after a collection -/

section Collected

variable {state : State} {collection : Collection} {object : Nat} {obj : Obj}

/-- The objects that survive are still there, at their new addresses. -/
theorem Invariant.mem_collected
    (invariant : Invariant state)
    (listed : obj ∈ state.objects)
    (survives : Survives collection.bottom state obj.object) :
    ∃ address, { obj with address := address } ∈ (internalCollect collection state).objects := by
  by_cases inArea : collection.bottom ≤ obj.address
  · have isKept : obj.object ∈ kept collection.bottom state :=
      survives.resolve_left fun isOutside =>
        not_mem_area_of_outside invariant.nodup isOutside
          (mem_area.mpr ⟨obj, listed, rfl, inArea⟩)
    have chosen :
        collection.bottom ≤ obj.address ∧
          obj.object ∈ (markObjects collection.bottom state).marked :=
      ⟨inArea, mem_marked_iff.mpr isKept⟩
    have isChosen :
        obj ∈ state.objects.filter fun obj =>
          decide (collection.bottom ≤ obj.address ∧
            obj.object ∈ (markObjects collection.bottom state).marked) :=
      List.mem_filter.mpr ⟨listed, decide_eq_true chosen⟩
    obtain ⟨address, found⟩ := slide_of_mem isChosen collection.start
    exact ⟨address, List.mem_append_right _ found⟩
  · refine ⟨obj.address, List.mem_append_left _ ?_⟩
    exact List.mem_filter.mpr ⟨listed, by simpa using inArea⟩

/-- What is there has survived. -/
theorem mem_of_collected
    (listed : obj ∈ (internalCollect collection state).objects) :
    ∃ before ∈ state.objects,
      obj = { before with address := obj.address } ∧
        Survives collection.bottom state before.object := by
  rcases List.mem_append.mp listed with isOutside | slid
  · obtain ⟨listed, below⟩ := List.mem_filter.mp isOutside
    refine ⟨obj, listed, rfl, Or.inl (mem_outside.mpr ⟨obj, listed, rfl, ?_⟩)⟩
    simpa using below
  · obtain ⟨before, isBefore, same, _⟩ := mem_slide slid
    obtain ⟨listed, inArea⟩ := List.mem_filter.mp isBefore
    exact ⟨before, listed, same, Or.inr (mem_marked_iff.mp (of_decide_eq_true inArea).2)⟩

/-- The numbers of the objects that are there. -/
theorem Invariant.map_object_collected
    (invariant : Invariant state)
    (collection : Collection) :
    (internalCollect collection state).objects.map Obj.object =
      (state.objects.map Obj.object).filter fun object =>
        decide (Survives collection.bottom state object) := by
  have together := filter_append_filter collection.bottom invariant.sorted
    fun obj => decide (obj.object ∈ (markObjects collection.bottom state).marked)
  simp only [internalCollect, compactObjects, List.map_append, map_object_slide, Bool.decide_and]
  rw [← List.map_append, together, List.filter_map]
  congr 1
  apply List.filter_congr
  intro obj listed
  have isOutside :
      obj.object ∈ state.outside collection.bottom ↔ ¬ collection.bottom ≤ obj.address := by
    constructor
    · intro isOutside inArea
      exact not_mem_area_of_outside invariant.nodup isOutside
        (mem_area.mpr ⟨obj, listed, rfl, inArea⟩)
    · intro below
      exact mem_outside.mpr ⟨obj, listed, rfl, Nat.lt_of_not_le below⟩
  rw [Bool.eq_iff_iff]
  simp [Survives, mem_marked_iff, isOutside]

theorem Invariant.has_collected
    (invariant : Invariant state)
    (has : state.Has object)
    (survives : Survives collection.bottom state object) :
    (internalCollect collection state).Has object := by
  obtain ⟨obj, listed, rfl, notCons⟩ := has
  obtain ⟨address, found⟩ := invariant.mem_collected listed survives
  exact ⟨_, found, rfl, notCons⟩

theorem Invariant.edges_collected
    (invariant : Invariant state)
    (nodup : ((internalCollect collection state).objects.map Obj.object).Nodup)
    (has : state.Has object)
    (survives : Survives collection.bottom state object) :
    (internalCollect collection state).edges object = state.edges object := by
  obtain ⟨obj, listed, rfl, _⟩ := has
  obtain ⟨address, found⟩ := invariant.mem_collected listed survives
  have sameFields := edges_of_mem nodup found
  rw [edges_of_mem invariant.nodup listed]
  exact sameFields

theorem finalize_eq (list : List FinalizerCons) (finalized : List Nat) :
    finalize list finalized = finalized ++ referents list := by
  induction list generalizing finalized with
  | nil =>
      simp [finalize, referents]
  | cons first rest inductionHypothesis =>
      rw [finalize, inductionHypothesis]
      simp [referents]

/-- The list is divided between what stays on it and what becomes pending. -/
theorem Invariant.discovered_perm
    (invariant : Invariant state)
    (bottom : Nat) :
    (referents (discovered bottom state).1 ++ referents (discovered bottom state).2).Perm
      (referents state.finalizerReachable) := by
  have others :
      (state.finalizerReachable.filter fun cons =>
        decide (bottom ≤ state.address cons.referent ∧ cons.referent ∉ rooted bottom state)) =
      state.finalizerReachable.filter fun cons =>
        !decide (state.address cons.referent < bottom ∨
          cons.referent ∈ rooted bottom state) := by
    apply List.filter_congr
    intro cons _
    rw [Bool.eq_iff_iff]
    simp
  rw [invariant.discovered_fst, invariant.discovered_snd, others, referents, referents, referents,
    ← List.map_append]
  apply List.Perm.map
  exact ((List.reverse_perm _).append_left _).trans (List.filter_append_perm _ _)

theorem mem_of_mem_discovered_fst
    (invariant : Invariant state)
    {bottom : Nat}
    {cons : FinalizerCons}
    (listed : cons ∈ (discovered bottom state).1) :
    cons ∈ state.finalizerReachable := by
  rw [invariant.discovered_fst] at listed
  exact (List.mem_filter.mp listed).1

/-- A weak reference that is left refers to what survives. -/
theorem Invariant.survives_of_weak
    (invariant : Invariant state)
    (refers : WeakEntry.refers object ∈ (internalCollect collection state).weakReferences) :
    state.Has object ∧ Survives collection.bottom state object := by
  obtain ⟨entry, isEntry, becomes⟩ := List.mem_map.mp refers
  cases entry with
  | unused =>
      cases becomes
  | dead =>
      cases becomes
  | refers before =>
      rw [clearNonMarked] at becomes
      split at becomes
      · cases becomes
      · next stays =>
          cases becomes
          have has := invariant.weak object isEntry
          refine ⟨has, ?_⟩
          rcases has.covered collection.bottom with inArea | isOutside
          · right
            have marked := not_and_not_right.mp stays inArea
            exact (List.mem_filter.mp marked).1
          · exact Or.inl isOutside

/-- A collection keeps the invariant. -/
theorem Invariant.collected
    (invariant : Invariant state)
    (isValid : collection.IsValid state) :
    Invariant (internalCollect collection state) := by
  have nodup : ((internalCollect collection state).objects.map Obj.object).Nodup := by
    rw [invariant.map_object_collected]
    exact invariant.nodup.filter _
  constructor
  · refine List.pairwise_append.mpr ⟨invariant.sorted.filter _, slide_sorted _ _, ?_⟩
    intro obj isOutside other slid
    obtain ⟨listed, below⟩ := List.mem_filter.mp isOutside
    obtain ⟨_, _, _, above⟩ := mem_slide slid
    have fits := isValid obj listed (by simpa using below)
    omega
  · intro obj listed
    obtain ⟨before, isBefore, same, _⟩ := mem_of_collected listed
    rw [same]
    exact invariant.sized before isBefore
  · exact nodup
  · intro obj listed
    obtain ⟨before, isBefore, same, _⟩ := mem_of_collected listed
    rw [same]
    exact invariant.older before isBefore
  · intro obj listed field isField
    obtain ⟨before, isBefore, same, survives⟩ := mem_of_collected listed
    rw [same] at isField
    apply invariant.has_collected (invariant.fields before isBefore field isField)
    apply invariant.survives_of_edge survives
    rw [edges_of_mem invariant.nodup isBefore]
    exact isField
  · intro obj listed isCons
    obtain ⟨before, isBefore, same, _⟩ := mem_of_collected listed
    rw [same] at isCons ⊢
    exact invariant.consFields before isBefore isCons
  · intro root isRoot
    exact invariant.has_collected (invariant.roots root isRoot) (invariant.survives_of_root isRoot)
  · intro object refers
    obtain ⟨has, survives⟩ := invariant.survives_of_weak refers
    exact invariant.has_collected has survives
  · intro cons listed
    obtain ⟨obj, isObj, isCell, isCons⟩ :=
      invariant.cells cons (mem_of_mem_discovered_fst invariant listed)
    have survives : Survives collection.bottom state obj.object :=
      survives_of_listed (Or.inl listed) (Or.inl isCell) (mem_area_or_outside isObj _)
    obtain ⟨address, found⟩ := invariant.mem_collected isObj survives
    exact ⟨_, found, isCell, isCons⟩
  · intro cons listed
    have has := invariant.referentsHave cons (mem_of_mem_discovered_fst invariant listed)
    exact invariant.has_collected has
      (survives_of_listed (Or.inl listed) (Or.inr rfl) (has.covered _))
  · rw [invariant.map_object_collected]
    have shorter :
        (referents (discovered collection.bottom state).1).reverse.Sublist
          (state.objects.map Obj.object) := by
      refine List.Sublist.trans ?_ invariant.listed
      rw [invariant.discovered_fst]
      exact (List.filter_sublist.map _).reverse
    have allSurvive :
        (referents (discovered collection.bottom state).1).reverse.filter (fun object =>
          decide (Survives collection.bottom state object)) =
            (referents (discovered collection.bottom state).1).reverse := by
      rw [List.filter_eq_self]
      intro object listed
      obtain ⟨cons, inList, rfl⟩ := mem_referents.mp (List.mem_reverse.mp listed)
      have has := invariant.referentsHave cons (mem_of_mem_discovered_fst invariant inList)
      exact decide_eq_true
        (survives_of_listed (Or.inl inList) (Or.inr rfl) (has.covered collection.bottom))
    have surviving := shorter.filter fun object =>
      decide (Survives collection.bottom state object)
    rwa [allSurvive] at surviving
  · refine invariant.accounted.trans ?_
    have divided := (invariant.discovered_perm collection.bottom).append_right state.finalized
    refine divided.symm.trans ?_
    simp only [internalCollect, markObjects, finalize_eq, List.append_assoc]
    exact List.perm_append_comm.append_left _
  · exact invariant.registeredNodup
  · exact invariant.registeredOlder

end Collected

/-! ## The other steps -/

section Steps

variable {state : State} {object : Nat} {obj : Obj}

/-- An object without fields is appended. -/
theorem Invariant.append
    (invariant : Invariant state)
    (isNew : obj.object = state.born)
    (noFields : obj.fields = [])
    (hasRoom : state.HasRoom obj.address obj.size) :
    Invariant { state with objects := state.objects ++ [obj], born := state.born + 1 } := by
  have hasStill :
      ∀ object, state.Has object →
        { state with objects := state.objects ++ [obj], born := state.born + 1 : State }.Has
          object := by
    rintro object ⟨other, listed, same, notCons⟩
    exact ⟨other, List.mem_append_left _ listed, same, notCons⟩
  constructor
  · refine List.pairwise_append.mpr ⟨invariant.sorted, List.pairwise_singleton _ _, ?_⟩
    intro other listed new isObj
    rw [List.mem_singleton.mp isObj]
    exact hasRoom.2 other listed
  · intro other listed
    rcases List.mem_append.mp listed with isOld | isObj
    · exact invariant.sized other isOld
    · rw [List.mem_singleton.mp isObj]
      exact hasRoom.1
  · rw [List.map_append]
    refine List.nodup_append.mpr ⟨invariant.nodup, List.nodup_singleton _, ?_⟩
    intro number isNumber new isObj same
    obtain ⟨other, listed, rfl⟩ := List.mem_map.mp isNumber
    have older := invariant.older other listed
    rw [same, List.mem_singleton.mp isObj, isNew] at older
    exact absurd older (Nat.lt_irrefl _)
  · intro other listed
    rcases List.mem_append.mp listed with isOld | isObj
    · exact Nat.lt_succ_of_lt (invariant.older other isOld)
    · rw [List.mem_singleton.mp isObj, isNew]
      exact Nat.lt_succ_self _
  · intro other listed field isField
    rcases List.mem_append.mp listed with isOld | isObj
    · exact hasStill field (invariant.fields other isOld field isField)
    · rw [List.mem_singleton.mp isObj, noFields] at isField
      exact absurd isField List.not_mem_nil
  · intro other listed isCons
    rcases List.mem_append.mp listed with isOld | isObj
    · exact invariant.consFields other isOld isCons
    · rw [List.mem_singleton.mp isObj]
      exact noFields
  · intro root isRoot
    exact hasStill root (invariant.roots root isRoot)
  · intro other refers
    exact hasStill other (invariant.weak other refers)
  · intro cons listed
    obtain ⟨other, isOther, isCell⟩ := invariant.cells cons listed
    exact ⟨other, List.mem_append_left _ isOther, isCell⟩
  · intro cons listed
    exact hasStill cons.referent (invariant.referentsHave cons listed)
  · rw [List.map_append]
    exact List.sublist_append_of_sublist_left invariant.listed
  · exact invariant.accounted
  · exact invariant.registeredNodup
  · intro other isRegistered
    exact Nat.lt_succ_of_lt (invariant.registeredOlder other isRegistered)

theorem Invariant.root
    (invariant : Invariant state)
    (has : state.Has object) :
    Invariant { state with roots := object :: state.roots } :=
  { invariant with
    roots := by
      intro root isRoot
      rcases List.mem_cons.mp isRoot with rfl | isOld
      · exact has
      · exact invariant.roots root isOld }

theorem Invariant.allocate
    (invariant : Invariant state)
    {address size : Nat}
    (hasRoom : state.HasRoom address size) :
    Invariant (allocate address size state) :=
  (invariant.append rfl rfl hasRoom).root
    ⟨_, List.mem_append_right _ (List.mem_singleton_self _), rfl, rfl⟩

/-- The youngest object is put at the front of the list. -/
theorem Invariant.link
    (invariant : Invariant state)
    {cons : FinalizerCons}
    (hasCell : ∃ obj ∈ state.objects, obj.object = cons.cell ∧ obj.isCons = true)
    (has : state.Has cons.referent)
    (unregistered : cons.referent ∉ state.registered)
    (youngest :
      ((referents state.finalizerReachable).reverse ++ [cons.referent]).Sublist
        (state.objects.map Obj.object)) :
    Invariant
      { state with
        finalizerReachable := cons :: state.finalizerReachable
        registered := cons.referent :: state.registered } :=
  { invariant with
    cells := by
      intro other listed
      rcases List.mem_cons.mp listed with rfl | isOld
      · exact hasCell
      · exact invariant.cells other isOld
    referentsHave := by
      intro other listed
      rcases List.mem_cons.mp listed with rfl | isOld
      · exact has
      · exact invariant.referentsHave other isOld
    listed := by
      rw [referents, List.map_cons, List.reverse_cons]
      exact youngest
    accounted := invariant.accounted.cons _
    registeredNodup := List.nodup_cons.mpr ⟨unregistered, invariant.registeredNodup⟩
    registeredOlder := by
      intro object isRegistered
      rcases List.mem_cons.mp isRegistered with rfl | isOld
      · obtain ⟨obj, listed, same, _⟩ := has
        rw [← same]
        exact invariant.older obj listed
      · exact invariant.registeredOlder object isOld }

theorem sublist_of_append_singleton
    {list before : List Nat}
    (sublist : list.Sublist (before ++ [object]))
    (notListed : object ∉ list) :
    list.Sublist before := by
  obtain ⟨first, second, rfl, inBefore, inLast⟩ := List.sublist_append_iff.mp sublist
  rcases List.sublist_singleton.mp inLast with rfl | rfl
  · rwa [List.append_nil]
  · exact absurd (List.mem_append_right _ (List.mem_singleton_self _)) notListed

/-- After `new_instance` has made the object, that is the youngest one, and not registered. -/
structure IsYoungest (state : State) (object : Nat) : Prop where
  has : state.Has object
  last : ∃ before, state.objects.map Obj.object = before ++ [object]
  unregistered : object ∉ state.registered

theorem Invariant.isYoungest_newInstance
    (invariant : Invariant state)
    {address size : Nat}
    (hasRoom : state.HasRoom address size)
    (collection : Option Collection) :
    IsYoungest (newInstance address size collection state) state.born := by
  have has : (Finalization.allocate address size state).Has state.born :=
    ⟨_, List.mem_append_right _ (List.mem_singleton_self _), rfl, rfl⟩
  have last :
      (Finalization.allocate address size state).objects.map Obj.object =
        state.objects.map Obj.object ++ [state.born] := by
    simp [Finalization.allocate]
  have unregistered : state.born ∉ state.registered := by
    intro isRegistered
    exact absurd (invariant.registeredOlder _ isRegistered) (Nat.lt_irrefl _)
  cases collection with
  | none =>
      exact ⟨has, ⟨_, last⟩, unregistered⟩
  | some collection =>
      have allocated := invariant.allocate hasRoom
      have survives :
          Survives collection.bottom (Finalization.allocate address size state) state.born :=
        allocated.survives_of_root List.mem_cons_self
      refine ⟨allocated.has_collected has survives,
        ⟨(state.objects.map Obj.object).filter fun object =>
          decide (Survives collection.bottom (Finalization.allocate address size state) object), ?_⟩,
        unregistered⟩
      rw [newInstance, allocated.map_object_collected, last, List.filter_append]
      simp [survives]

theorem Invariant.newInstance
    (invariant : Invariant state)
    {address size : Nat}
    {collection : Option Collection}
    (hasRoom : state.HasRoom address size)
    (isValid : IsValidFor collection (Finalization.allocate address size state)) :
    Invariant (newInstance address size collection state) := by
  cases collection with
  | none =>
      exact invariant.allocate hasRoom
  | some collection =>
      exact (invariant.allocate hasRoom).collected (isValid collection rfl)

theorem Invariant.register
    (invariant : Invariant state)
    {address size : Nat}
    (hasRoom : state.HasRoom address size)
    (isYoungest : IsYoungest state object) :
    Invariant (registerFinalizerReachableObject object address size state) := by
  obtain ⟨before, last⟩ := isYoungest.last
  have notListed : object ∉ referents state.finalizerReachable := by
    intro listed
    exact isYoungest.unregistered
      (invariant.accounted.mem_iff.mpr (List.mem_append_left _ listed))
  have older : (referents state.finalizerReachable).reverse.Sublist before := by
    apply sublist_of_append_singleton
    · rw [← last]
      exact invariant.listed
    · simpa using notListed
  obtain ⟨obj, isObj, isObject, notCons⟩ := isYoungest.has
  apply Invariant.link (invariant.append rfl rfl hasRoom)
  · exact ⟨_, List.mem_append_right _ (List.mem_singleton_self _), rfl, rfl⟩
  · exact ⟨obj, List.mem_append_left _ isObj, isObject, notCons⟩
  · exact isYoungest.unregistered
  · simp only [List.map_append]
    rw [last]
    exact List.sublist_append_of_sublist_left (older.append_right _)

theorem has_mutate
    {roots : List Nat}
    {fields : Nat → List Nat}
    {weakReferences : List WeakEntry}
    (has : state.Has object) :
    (mutate roots fields weakReferences state).Has object := by
  obtain ⟨obj, listed, same, notCons⟩ := has
  refine ⟨_, List.mem_map.mpr ⟨obj, listed, rfl⟩, ?_⟩
  simp [notCons, same]

theorem Invariant.mutated
    (invariant : Invariant state)
    {roots : List Nat}
    {fields : Nat → List Nat}
    {weakReferences : List WeakEntry}
    (rootsHave : ∀ root ∈ roots, state.Has root)
    (fieldsHave : ∀ object, ∀ field ∈ fields object, state.Has field)
    (weakHave : ∀ object, WeakEntry.refers object ∈ weakReferences → state.Has object) :
    Invariant (mutate roots fields weakReferences state) := by
  have fromOld :
      ∀ {obj}, obj ∈ (mutate roots fields weakReferences state).objects →
        ∃ before ∈ state.objects, obj.object = before.object ∧ obj.address = before.address ∧
          obj.size = before.size ∧ obj.isCons = before.isCons ∧
            obj.fields = if before.isCons then before.fields else fields before.object := by
    intro obj listed
    obtain ⟨before, isBefore, rfl⟩ := List.mem_map.mp listed
    refine ⟨before, isBefore, ?_⟩
    cases isCons : before.isCons <;> simp [isCons]
  have sameNumbers :
      (mutate roots fields weakReferences state).objects.map Obj.object =
        state.objects.map Obj.object := by
    rw [mutate, List.map_map]
    apply List.map_congr_left
    intro obj _
    cases isCons : obj.isCons <;> simp [isCons]
  constructor
  · rw [mutate, List.pairwise_map]
    apply invariant.sorted.imp
    intro first second before
    cases isCons : first.isCons <;> cases isCons' : second.isCons <;> simpa [isCons, isCons']
  · intro obj listed
    obtain ⟨before, isBefore, _, _, sameSize, _⟩ := fromOld listed
    rw [sameSize]
    exact invariant.sized before isBefore
  · rw [sameNumbers]
    exact invariant.nodup
  · intro obj listed
    obtain ⟨before, isBefore, same, _⟩ := fromOld listed
    rw [same]
    exact invariant.older before isBefore
  · intro obj listed field isField
    obtain ⟨before, isBefore, _, _, _, _, sameFields⟩ := fromOld listed
    rw [sameFields] at isField
    apply has_mutate
    split at isField
    · exact invariant.fields before isBefore field isField
    · exact fieldsHave before.object field isField
  · intro obj listed isCons
    obtain ⟨before, isBefore, _, _, _, sameCons, sameFields⟩ := fromOld listed
    rw [sameCons] at isCons
    rw [sameFields, if_pos isCons]
    exact invariant.consFields before isBefore isCons
  · intro root isRoot
    exact has_mutate (rootsHave root isRoot)
  · intro object refers
    exact has_mutate (weakHave object refers)
  · intro cons listed
    obtain ⟨obj, isObj, isCell, isCons⟩ := invariant.cells cons listed
    refine ⟨_, List.mem_map.mpr ⟨obj, isObj, rfl⟩, ?_⟩
    simp [isCons, isCell]
  · intro cons listed
    exact has_mutate (invariant.referentsHave cons listed)
  · rw [sameNumbers]
    exact invariant.listed
  · exact invariant.accounted
  · exact invariant.registeredNodup
  · exact invariant.registeredOlder

/-- The invariant holds throughout a run. -/
theorem Runs.invariant (runs : Runs state) : Invariant state := by
  induction runs with
  | initial =>
      constructor
      case sorted => exact List.Pairwise.nil
      case nodup => exact List.nodup_nil
      case registeredNodup => exact List.nodup_nil
      case listed => exact List.Sublist.refl _
      case accounted => exact List.Perm.refl _
      all_goals
        intro _ listed
        exact absurd listed List.not_mem_nil
  | step before step inductionHypothesis =>
      cases step with
      | allocate address size hasRoom =>
          exact inductionHypothesis.allocate hasRoom
      | newInstance address size cellAddress cellSize collection hasRoom isValid hasCellRoom =>
          exact (inductionHypothesis.newInstance hasRoom isValid).register hasCellRoom
            (inductionHypothesis.isYoungest_newInstance hasRoom collection)
      | mutate roots fields weakReferences rootsHave fieldsHave weakHave =>
          exact inductionHypothesis.mutated rootsHave fieldsHave weakHave
      | collect collection isValid =>
          exact inductionHypothesis.collected isValid

end Steps

/-! ## The result -/

section Result

variable {state : State}

theorem Invariant.clearsUnkept
    (invariant : Invariant state)
    (collection : Collection) :
    ClearsUnkept state collection (referents (discovered collection.bottom state).2) := by
  intro index object isEntry
  have has := invariant.weak object (List.mem_of_getElem? isEntry)
  have cleared :
      (internalCollect collection state).weakReferences[index]? =
        some (clearNonMarked (state.area collection.bottom)
          (unmarkPendingFinalizers (discovered collection.bottom state).2
            (kept collection.bottom state)) (.refers object)) := by
    simp only [internalCollect, markObjects, List.getElem?_map, isEntry, Option.map_some]
  rw [cleared, clearNonMarked]
  have isUnmarked :
      object ∉ unmarkPendingFinalizers (discovered collection.bottom state).2
          (kept collection.bottom state) ↔
        object ∈ referents (discovered collection.bottom state).2 ∨
          object ∉ kept collection.bottom state := by
    simp [unmarkPendingFinalizers]
    tauto
  by_cases inArea : object ∈ state.area collection.bottom
  · rw [← invariant.mem_kept_iff_reachable has inArea, ← isUnmarked]
    by_cases marked :
        object ∈ unmarkPendingFinalizers (discovered collection.bottom state).2
          (kept collection.bottom state)
    · simp [marked]
    · simp [marked, inArea]
  · simp [inArea]

theorem Invariant.collectionHolds
    (invariant : Invariant state)
    {collection : Collection}
    (isValid : collection.IsValid state) :
    CollectionHolds state collection (referents (discovered collection.bottom state).2) where
  runs := finalize_eq _ _
  once := by
    have divided := invariant.discovered_perm collection.bottom
    have nodup := (invariant.accounted.nodup_iff.mp invariant.registeredNodup).of_append_left
    exact (divided.nodup_iff.mpr nodup).of_append_right
  unreached _ := invariant.mem_pending_iff
  valid object reachable := by
    have pendingHave :
        ∀ root ∈ referents (discovered collection.bottom state).2, state.Has root := by
      intro root isPending
      obtain ⟨cons, listed, rfl⟩ := mem_referents.mp (invariant.mem_pending_iff.mp isPending).1
      exact invariant.referentsHave cons listed
    have has := invariant.has_of_reachable pendingHave reachable
    have survives : Survives collection.bottom state object := by
      apply reachable.mem_of_closed
      · intro root isPending
        exact Or.inr (invariant.mem_kept_of_pending isPending)
      · intro start survives next isEdge
        exact invariant.survives_of_edge survives isEdge
    exact ⟨invariant.has_collected has survives,
      invariant.edges_collected (invariant.collected isValid).nodup has survives⟩

end Result

/-- Finalization in every state that is reached. -/
theorem finalization_holds (state : State) (runs : Runs state) : FinalizationHolds state := by
  have invariant := runs.invariant
  constructor
  · intro object isRegistered
    have nodup := invariant.accounted.nodup_iff.mp invariant.registeredNodup
    by_cases listed : object ∈ referents state.finalizerReachable
    · rw [if_pos listed, List.count_eq_zero]
      exact (List.nodup_append'.mp nodup).2.2 listed
    · rw [if_neg listed]
      apply List.count_eq_one_of_mem nodup.of_append_right
      exact (List.mem_append.mp (invariant.accounted.mem_iff.mp isRegistered)).resolve_left listed
  · intro object isFinalized
    exact invariant.accounted.mem_iff.mpr (List.mem_append_right _ isFinalized)
  · intro object reachable
    apply invariant.has_of_reachable _ reachable
    intro root listed
    obtain ⟨cons, isCons, rfl⟩ := mem_referents.mp listed
    exact invariant.referentsHave cons isCons
  · exact invariant.ordered
  · intro collection isValid
    exact ⟨_, invariant.collectionHolds isValid, invariant.clearsUnkept collection⟩

/-- An object with a finalizer that refers to another one, to which there is a weak reference. The
program has dropped both. -/
def dropped : State :=
  mutate [] (fun object => if object = 0 then [2] else []) [.refers 2]
    (allocate 16 4
      (registerFinalizerReachableObject 0 12 4 (newInstance 8 4 none State.initial)))

/-- A collection of the whole heap. -/
def fullCollection : Collection where
  bottom := 0
  start := 0

theorem dropped_runs : Runs dropped := by
  have registered :
      Runs (registerFinalizerReachableObject 0 12 4 (newInstance 8 4 none State.initial)) := by
    refine .step .initial (.newInstance State.initial 8 4 12 4 none ?_ ?_ ?_)
    · exact ⟨by decide, fun obj listed => absurd listed List.not_mem_nil⟩
    · intro made isMade
      cases isMade
    · exact ⟨by decide, by decide⟩
  have allocated :
      Runs
        (allocate 16 4
          (registerFinalizerReachableObject 0 12 4 (newInstance 8 4 none State.initial))) :=
    .step registered (.allocate _ 16 4 ⟨by decide, by decide⟩)
  refine .step allocated (.mutate _ _ _ _ ?_ ?_ ?_)
  · intro root isRoot
    exact absurd isRoot List.not_mem_nil
  · intro object field isField
    split at isField
    · rw [List.mem_singleton.mp isField]
      exact ⟨_, List.mem_append_right _ (List.mem_singleton_self _), rfl, rfl⟩
    · exact absurd isField List.not_mem_nil
  · intro object refers
    cases List.mem_singleton.mp refers
    exact ⟨_, List.mem_append_right _ (List.mem_singleton_self _), rfl, rfl⟩

theorem finalization_holds_dropped : FinalizationHolds dropped :=
  finalization_holds dropped dropped_runs

/-- What only an object with a finalizer reaches keeps its weak references, although the roots do not
reach it. -/
theorem dropped_not_cleared :
    Runs dropped ∧ fullCollection.IsValid dropped ∧ ¬ ClearsUnreached dropped fullCollection := by
  refine ⟨dropped_runs, ?_, ?_⟩
  · intro obj _ below
    exact absurd below (Nat.not_lt_zero _)
  · intro clears
    have isEntry : dropped.weakReferences[0]? = some (WeakEntry.refers 2) := rfl
    have unreached : ¬ Reachable dropped.edges dropped.roots 2 := by
      rintro ⟨root, isRoot, _⟩
      exact absurd isRoot List.not_mem_nil
    have after :
        (internalCollect fullCollection dropped).weakReferences = [WeakEntry.refers 2] := by
      decide
    have cleared := (clears 0 2 isEntry).mpr unreached
    rw [after] at cleared
    cases cleared

end PicoJvm.Finalization
