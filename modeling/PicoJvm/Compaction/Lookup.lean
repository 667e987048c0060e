import PicoJvm.Compaction.LinkedClasses

/-!
# Lookup in compacted classes

A method that was taken out of its table is still found, in the vtable. The nearest class that
declares a method decides in both lookups: `lookup_method` moves from one method to another only
along superclasses.
-/

namespace PicoJvm.Compaction

/-- The name and the signature of a method in its class file. -/
def Method.Declares (method : Method) (name signature : String) : Prop :=
  method.originalName = name ∧ method.signature = signature

/-- The name and signature of a renamed method, or of an ordinary method of a renamed class. -/
def Excluded (builtin : Method → Bool) (interfaces : Nat → Interface) (klasses : List Klass)
    (name signature : String) : Prop :=
  ∃ klass ∈ klasses, ∃ method ∈ klass.methods, method.signature = signature ∧
    (method.isRenamed = true ∧ (method.originalName = name ∨ unknown = name) ∨
      klass.isRenamed = true ∧
        isSpecialMethod builtin (holderOf interfaces klass method).1 method = false ∧
        method.originalName = name)

/-! ## Superclasses -/

theorem supersOf_eq (klasses : List Klass) (holder : Nat) :
    supersOf klasses holder =
      if holder ∈ klasses.map Klass.classId then
        (klasses.map Klass.classId).dropWhile fun id => decide (id ≠ holder)
      else
        holder :: (klasses.map Klass.classId).getLast?.toList := by
  unfold supersOf
  rw [List.dropWhile_map, List.getLast?_map]
  rfl

theorem sound_suffix
    {isInterface : Nat → Prop}
    (front : List Klass)
    {klass : Klass}
    {supers : List Klass}
    (sound : Sound isInterface (front ++ klass :: supers)) :
    Linked isInterface klass supers ∧ ∀ other ∈ front, other.classId ≠ klass.classId := by
  induction front with
  | nil => exact ⟨sound.1, fun _ member => absurd member List.not_mem_nil⟩
  | cons first front induction =>
      obtain ⟨linked, sound⟩ := sound
      obtain ⟨here, different⟩ := induction sound
      refine ⟨here, ?_⟩
      intro other member
      rcases List.mem_cons.mp member with rfl | later
      · exact (linked.fresh klass (List.mem_append_right _ List.mem_cons_self)).symm
      · exact different other later

theorem sound_linked
    {isInterface : Nat → Prop}
    {klasses : List Klass}
    (sound : Sound isInterface klasses)
    {klass : Klass}
    (member : klass ∈ klasses) :
    ∃ supers, Linked isInterface klass supers := by
  obtain ⟨front, supers, rfl⟩ := List.append_of_mem member
  exact ⟨supers, (sound_suffix front sound).1⟩

theorem supersOf_class
    {isInterface : Nat → Prop}
    {front : List Klass}
    {klass : Klass}
    {supers : List Klass}
    (sound : Sound isInterface (front ++ klass :: supers)) :
    supersOf (front ++ klass :: supers) klass.classId = (klass :: supers).map Klass.classId := by
  have different := (sound_suffix front sound).2
  rw [supersOf_eq, if_pos (List.mem_map_of_mem (List.mem_append_right _ List.mem_cons_self)),
    List.map_append, List.dropWhile_append_of_pos]
  · simp
  · intro id member
    obtain ⟨other, inside, rfl⟩ := List.mem_map.mp member
    exact decide_eq_true (different other inside)

theorem supersOf_interface
    {isInterface : Nat → Prop}
    {klasses : List Klass}
    (sound : Sound isInterface klasses)
    {id : Nat}
    (interface : isInterface id) :
    supersOf klasses id = id :: (klasses.map Klass.classId).getLast?.toList := by
  rw [supersOf_eq, if_neg]
  intro member
  obtain ⟨klass, inside, rfl⟩ := List.mem_map.mp member
  obtain ⟨supers, linked⟩ := sound_linked sound inside
  exact linked.isClass interface

/-- The entries of a vtable are methods of the class and of its superclasses. -/
theorem declared_of_mem_vtable
    {isInterface : Nat → Prop}
    {klasses : List Klass}
    (sound : Sound isInterface klasses)
    {method : Method}
    (member : method ∈ superVtable klasses) :
    ∃ klass ∈ klasses, method ∈ klass.methods := by
  induction klasses with
  | nil => cases member
  | cons klass supers induction =>
      rcases sound.1.entries method member with declared | inherited
      · exact ⟨klass, List.mem_cons_self, declared⟩
      · obtain ⟨super, inside, declared⟩ := induction sound.2 inherited
        exact ⟨super, List.mem_cons_of_mem _ inside, declared⟩

/-- An entry is in the vtables of the subclasses that do not declare its name and signature. -/
theorem mem_vtable_of_not_declared
    {isInterface : Nat → Prop}
    {front : List Klass}
    {klass : Klass}
    {supers : List Klass}
    (sound : Sound isInterface (front ++ klass :: supers))
    {method : Method}
    (member : method ∈ klass.vtable)
    (nearest : ∀ other ∈ front, ∀ declared ∈ other.methods, ¬ SameKey declared method) :
    method ∈ superVtable (front ++ klass :: supers) := by
  induction front with
  | nil => exact member
  | cons first front induction =>
      have inherited := induction sound.2 fun other inside =>
        nearest other (List.mem_cons_of_mem _ inside)
      obtain ⟨other, there, same, kept⟩ := sound.1.inherited method inherited
      rcases kept with rfl | declared
      · exact there
      · exact absurd same (nearest first List.mem_cons_self other declared)

/-! ## Searching the tables -/

section Tables

variable {name signature : String}

theorem searchTables_cons (klass : Klass) (supers : List Klass) :
    searchTables name signature (klass :: supers) =
      match findMethod name signature klass.methods with
      | some method => some (method, klass.classId)
      | none => searchTables name signature supers :=
  rfl

theorem searchTables_skip
    {front : List Klass}
    (absent : ∀ klass ∈ front, ∀ method ∈ klass.methods,
      method.matches name signature = false)
    (rest : List Klass) :
    searchTables name signature (front ++ rest) = searchTables name signature rest := by
  induction front with
  | nil => rfl
  | cons klass front induction =>
      have here : findMethod name signature klass.methods = none := by
        unfold findMethod
        rw [List.find?_eq_none]
        intro method inside
        rw [absent klass List.mem_cons_self method inside]
        exact Bool.false_ne_true
      rw [List.cons_append, searchTables_cons, here]
      exact induction fun other member => absent other (List.mem_cons_of_mem _ member)

theorem searchTables_absent
    {klasses : List Klass}
    (absent : ∀ klass ∈ klasses, ∀ method ∈ klass.methods,
      method.matches name signature = false) :
    searchTables name signature klasses = none := by
  rw [← List.append_nil klasses, searchTables_skip absent]
  rfl

theorem searchTables_nearest
    {front : List Klass}
    {klass : Klass}
    {supers : List Klass}
    (absent : ∀ other ∈ front, ∀ method ∈ other.methods,
      method.matches name signature = false)
    {method : Method}
    (inside : method ∈ klass.methods)
    (matches' : method.matches name signature = true)
    (only : ∀ other ∈ klass.methods, other.matches name signature = true → other = method) :
    searchTables name signature (front ++ klass :: supers) = some (method, klass.classId) := by
  have here : findMethod name signature klass.methods = some method := by
    unfold findMethod
    cases found : klass.methods.find? (·.matches name signature) with
    | none => exact absurd matches' (List.find?_eq_none.mp found method inside)
    | some other =>
        rw [only other (List.mem_of_find?_eq_some found)
          (List.find?_some (p := fun entry : Method => entry.matches name signature) found)]
  rw [searchTables_skip absent, searchTables_cons, here]

variable {builtin : Method → Bool} {interfaces : Nat → Interface}

theorem mem_compactMethodTable
    {klass : Klass}
    {method : Method} :
    method ∈ (compactMethodTable builtin interfaces klass).methods ↔
      method ∈ klass.methods ∧
        isMethodRemovableFromTable builtin interfaces klass method = false := by
  unfold compactMethodTable
  rw [List.mem_filter, Bool.not_eq_true']

/-- What was found in the compacted tables, and that the nearer classes have lost all that
matches. -/
theorem searchTables_compact
    {klasses : List Klass}
    {found : Option (Method × Nat)}
    (search : searchTables name signature (compactMethodTables builtin interfaces klasses) =
      found) :
    (found = none ∧ ∀ klass ∈ klasses, ∀ method ∈ klass.methods,
      method.matches name signature = true →
        isMethodRemovableFromTable builtin interfaces klass method = true) ∨
    ∃ before klass after method, klasses = before ++ klass :: after ∧
      found = some (method, klass.classId) ∧ method ∈ klass.methods ∧
      method.matches name signature = true ∧
      ∀ other ∈ before, ∀ method ∈ other.methods, method.matches name signature = true →
        isMethodRemovableFromTable builtin interfaces other method = true := by
  induction klasses with
  | nil => exact .inl ⟨search.symm, fun _ member => absurd member List.not_mem_nil⟩
  | cons klass supers induction =>
      change searchTables name signature (compactMethodTable builtin interfaces klass ::
        compactMethodTables builtin interfaces supers) = found at search
      rw [searchTables_cons] at search
      cases here : findMethod name signature (compactMethodTable builtin interfaces klass).methods with
      | some method =>
          rw [here] at search
          unfold findMethod at here
          have inside := (mem_compactMethodTable.1 (List.mem_of_find?_eq_some here)).1
          have matches' := List.find?_some (p := fun entry : Method => entry.matches name signature) here
          exact .inr ⟨[], klass, supers, method, rfl, search.symm, inside, matches',
            fun _ member => absurd member List.not_mem_nil⟩
      | none =>
          rw [here] at search
          unfold findMethod at here
          have removed : ∀ method ∈ klass.methods, method.matches name signature = true →
              isMethodRemovableFromTable builtin interfaces klass method = true := by
            intro method inside matches'
            by_contra kept
            exact List.find?_eq_none.mp here method
              (mem_compactMethodTable.2 ⟨inside, Bool.eq_false_iff.mpr kept⟩) matches'
          rcases induction search with ⟨none', all⟩ | ⟨before, nearest, after, method, rfl, rest⟩
          · exact .inl ⟨none', List.forall_mem_cons.mpr ⟨removed, all⟩⟩
          · obtain ⟨found', inside, matches', all⟩ := rest
            exact .inr ⟨klass :: before, nearest, after, method, rfl, found', inside, matches',
              List.forall_mem_cons.mpr ⟨removed, all⟩⟩

end Tables

/-! ## Searching the vtable -/

section Vtable

variable {name signature : String} {klasses : List Klass}

theorem searchVtable_cons (entry : Method) (rest : List Method) (found : Option (Method × Nat)) :
    searchVtable klasses name signature (entry :: rest) found =
      if found.map Prod.fst ≠ some entry ∧ entry.matches name signature then
        match found with
        | none => searchVtable klasses name signature rest (some (entry, entry.holder))
        | some (_, holder) =>
            if holder ∈ supersOf klasses entry.holder then
              searchVtable klasses name signature rest (some (entry, entry.holder))
            else
              searchVtable klasses name signature rest found
      else
        searchVtable klasses name signature rest found :=
  rfl

theorem searchVtable_absent
    {vtable : List Method}
    (absent : ∀ entry ∈ vtable, entry.matches name signature = false)
    (found : Option (Method × Nat)) :
    searchVtable klasses name signature vtable found = found := by
  induction vtable with
  | nil => rfl
  | cons entry rest induction =>
      rw [searchVtable_cons, if_neg]
      · exact induction fun other member => absent other (List.mem_cons_of_mem _ member)
      · rintro ⟨-, matches'⟩
        rw [absent entry List.mem_cons_self] at matches'
        exact Bool.false_ne_true matches'

theorem searchVtable_stays
    {vtable : List Method}
    {method : Method}
    {holder : Nat}
    (above : ∀ entry ∈ vtable, entry.matches name signature = true → entry ≠ method →
      holder ∉ supersOf klasses entry.holder) :
    searchVtable klasses name signature vtable (some (method, holder)) =
      some (method, holder) := by
  induction vtable with
  | nil => rfl
  | cons entry rest induction =>
      have later := induction fun other member => above other (List.mem_cons_of_mem _ member)
      rw [searchVtable_cons]
      split
      · rename_i candidate
        obtain ⟨different, matches'⟩ := candidate
        dsimp only
        rw [if_neg (above entry List.mem_cons_self matches' fun same => different (same ▸ rfl))]
        exact later
      · exact later

/-- What was found so far has a proper superclass as its holder, one that only entries with such
holders are searched from. -/
theorem searchVtable_reaches
    {vtable : List Method}
    {method : Method}
    {Above : Nat → Prop}
    (first : ∀ entry ∈ vtable, entry.matches name signature = true → entry ≠ method →
      ∀ holder, Above holder → holder ∈ supersOf klasses entry.holder → Above entry.holder)
    (reached : ∀ holder, Above holder → holder ∈ supersOf klasses method.holder)
    (above : ∀ entry ∈ vtable, entry.matches name signature = true → entry ≠ method →
      method.holder ∉ supersOf klasses entry.holder)
    (matches' : method.matches name signature = true)
    (member : method ∈ vtable)
    {found : Option (Method × Nat)}
    (start : (found = none ∧ ∀ entry ∈ vtable, entry.matches name signature = true →
        entry ≠ method → Above entry.holder) ∨
      ∃ other holder, found = some (other, holder) ∧ other ≠ method ∧ Above holder) :
    searchVtable klasses name signature vtable found = some (method, method.holder) := by
  induction vtable generalizing found with
  | nil => cases member
  | cons entry rest induction =>
      have stays : searchVtable klasses name signature rest (some (method, method.holder)) =
          some (method, method.holder) :=
        searchVtable_stays fun other member => above other (List.mem_cons_of_mem _ member)
      have later := induction (fun other member => first other (List.mem_cons_of_mem _ member))
        (fun other member => above other (List.mem_cons_of_mem _ member))
      by_cases here : entry = method
      · subst here
        rw [searchVtable_cons]
        rcases start with ⟨rfl, -⟩ | ⟨other, holder, rfl, different, isAbove⟩
        · rw [if_pos ⟨by simp, matches'⟩]
          exact stays
        · rw [if_pos ⟨by simpa using different, matches'⟩]
          dsimp only
          rw [if_pos (reached holder isAbove)]
          exact stays
      · have there : method ∈ rest :=
          (List.mem_cons.mp member).resolve_left fun same => here same.symm
        rw [searchVtable_cons]
        split
        · rename_i candidate
          rcases start with ⟨rfl, all⟩ | ⟨other, holder, rfl, different, isAbove⟩
          · exact later there (.inr ⟨entry, entry.holder, rfl, here,
              all entry List.mem_cons_self candidate.2 here⟩)
          · dsimp only
            split
            · rename_i below
              exact later there (.inr ⟨entry, entry.holder, rfl, here,
                first entry List.mem_cons_self candidate.2 here holder isAbove below⟩)
            · exact later there (.inr ⟨other, holder, rfl, different, isAbove⟩)
        · refine later there (start.imp_left ?_)
          exact fun ⟨none', all⟩ =>
            ⟨none', fun other member => all other (List.mem_cons_of_mem _ member)⟩

end Vtable

/-! ## Lookup -/

section Lookup

variable {isInterface : Nat → Prop} {builtin : Method → Bool} {interfaces : Nat → Interface}
  {klasses : List Klass} {name signature : String}

theorem matches_iff_declares
    (included : ¬ Excluded builtin interfaces klasses name signature)
    {klass : Klass}
    (member : klass ∈ klasses)
    {method : Method}
    (inside : method ∈ klass.methods) :
    method.matches name signature = true ↔ method.Declares name signature := by
  rw [matches_iff]
  unfold Method.Declares
  by_cases renamed : method.isRenamed = true
  · have lost : method.name = unknown := by
      unfold Method.name
      rw [if_pos renamed]
    rw [lost]
    constructor
    · rintro ⟨sameName, sameSignature⟩
      exact absurd ⟨klass, member, method, inside, sameSignature, .inl ⟨renamed, .inr sameName⟩⟩
        included
    · rintro ⟨sameName, sameSignature⟩
      exact absurd ⟨klass, member, method, inside, sameSignature, .inl ⟨renamed, .inl sameName⟩⟩
        included
  · rw [name_of_not_renamed (Bool.eq_false_iff.mpr renamed)]

theorem not_renamed_of_matches
    (included : ¬ Excluded builtin interfaces klasses name signature)
    {klass : Klass}
    (member : klass ∈ klasses)
    {method : Method}
    (inside : method ∈ klass.methods)
    (matches' : method.matches name signature = true) :
    method.isRenamed = false := by
  obtain ⟨sameName, sameSignature⟩ := matches_iff.mp matches'
  rw [Bool.eq_false_iff]
  intro renamed
  unfold Method.name at sameName
  rw [if_pos renamed] at sameName
  exact included ⟨klass, member, method, inside, sameSignature, .inl ⟨renamed, .inr sameName⟩⟩

theorem same_of_matches
    (sound : Sound isInterface klasses)
    (included : ¬ Excluded builtin interfaces klasses name signature)
    {klass : Klass}
    (member : klass ∈ klasses)
    {method other : Method}
    (inside : method ∈ klass.methods)
    (inside' : other ∈ klass.methods)
    (matches' : method.matches name signature = true)
    (alsoMatches : other.matches name signature = true) :
    other = method := by
  obtain ⟨supers, linked⟩ := sound_linked sound member
  obtain ⟨name₁, signature₁⟩ := (matches_iff_declares included member inside).mp matches'
  obtain ⟨name₂, signature₂⟩ := (matches_iff_declares included member inside').mp alsoMatches
  exact linked.keys other inside' method inside
    ⟨name₂.trans name₁.symm, signature₂.trans signature₁.symm⟩

/-- Only a method that the class itself declares, and that is in its vtable, is taken out. -/
theorem mem_vtable_of_removable
    (sound : Sound isInterface klasses)
    (vtables : ∀ id, ∀ method ∈ (interfaces id).vtable, method.holder = method.table)
    (included : ¬ Excluded builtin interfaces klasses name signature)
    {klass : Klass}
    (member : klass ∈ klasses)
    {method : Method}
    (inside : method ∈ klass.methods)
    (matches' : method.matches name signature = true)
    (removable : isMethodRemovableFromTable builtin interfaces klass method = true) :
    method.holder = klass.classId ∧ method ∈ klass.vtable := by
  obtain ⟨supers, linked⟩ := sound_linked sound member
  have notRenamed := not_renamed_of_matches included member inside matches'
  have named := name_of_not_renamed notRenamed
  unfold isMethodRemovableFromTable at removable
  split at removable
  · exact absurd removable Bool.false_ne_true
  split at removable
  · rename_i lost
    exact absurd (lost.trans named).symm (linked.named method inside)
  split at removable
  · rename_i virtual
    unfold hasVtableIndex holderOf at virtual
    by_cases own : method.holder = klass.classId
    · rw [if_pos own] at virtual
      exact ⟨own, of_decide_eq_true virtual⟩
    · rw [if_neg own] at virtual
      have holder := vtables _ method (of_decide_eq_true virtual)
      exact absurd (holder.trans (linked.tables method inside)) own
  · rw [Bool.and_eq_true, Bool.not_eq_true', decide_eq_true_iff] at removable
    obtain ⟨lost, ordinary⟩ := removable
    obtain ⟨sameName, sameSignature⟩ := matches_iff.mp matches'
    refine absurd ⟨klass, member, method, inside, sameSignature, .inr ⟨?_, ordinary, ?_⟩⟩ included
    · by_contra kept
      unfold Klass.name at lost
      rw [if_neg kept] at lost
      exact linked.classNamed lost.symm
    · exact named.symm.trans sameName

/-- No class declares a name and signature, or there is a nearest one that does. -/
theorem nearest_declaration (klasses : List Klass) (name signature : String) :
    (∀ klass ∈ klasses, ∀ method ∈ klass.methods, method.matches name signature = false) ∨
    ∃ front klass supers method, klasses = front ++ klass :: supers ∧ method ∈ klass.methods ∧
      method.matches name signature = true ∧
      ∀ other ∈ front, ∀ method ∈ other.methods, method.matches name signature = false := by
  induction klasses with
  | nil => exact .inl fun _ member => absurd member List.not_mem_nil
  | cons klass supers induction =>
      by_cases here : ∃ method ∈ klass.methods, method.matches name signature = true
      · obtain ⟨method, inside, matches'⟩ := here
        exact .inr ⟨[], klass, supers, method, rfl, inside, matches',
          fun _ member => absurd member List.not_mem_nil⟩
      · have absent : ∀ method ∈ klass.methods, method.matches name signature = false :=
          fun method inside => Bool.eq_false_iff.mpr fun matches' => here ⟨method, inside, matches'⟩
        rcases induction with all | ⟨front, nearest, rest, method, rfl, inside, matches', all⟩
        · exact .inl (List.forall_mem_cons.mpr ⟨absent, all⟩)
        · exact .inr ⟨klass :: front, nearest, rest, method, rfl, inside, matches',
            List.forall_mem_cons.mpr ⟨absent, all⟩⟩

theorem lookupMethod_of_table
    {method : Method}
    {holder : Nat}
    (found : searchTables name signature klasses = some (method, holder))
    (stays : searchVtable klasses name signature (superVtable klasses) (some (method, holder)) =
      some (method, holder)) :
    lookupMethod klasses name signature = some method := by
  cases klasses with
  | nil => cases found
  | cons klass supers =>
      unfold lookupMethod
      rw [found]
      dsimp only
      split
      · rfl
      · exact congrArg (Option.map Prod.fst) stays

theorem lookupMethod_of_vtable
    {found : Option (Method × Nat)}
    (search : searchTables name signature klasses = found)
    (elsewhere : ∀ method holder, found = some (method, holder) →
      ∀ klass, klasses.head? = some klass → holder ≠ klass.classId) :
    lookupMethod klasses name signature =
      (searchVtable klasses name signature (superVtable klasses) found).map Prod.fst := by
  cases klasses with
  | nil =>
      rw [← search]
      rfl
  | cons klass supers =>
      unfold lookupMethod
      rw [search]
      cases found with
      | none => rfl
      | some pair =>
          dsimp only
          rw [if_neg (elsewhere pair.1 pair.2 rfl klass rfl)]
          rfl

/-! ## Compaction keeps what a lookup sees -/

theorem supersOf_compact (holder : Nat) :
    supersOf (compactMethodTables builtin interfaces klasses) holder = supersOf klasses holder := by
  have ids : (compactMethodTables builtin interfaces klasses).map Klass.classId =
      klasses.map Klass.classId := by
    unfold compactMethodTables
    rw [List.map_map]
    rfl
  rw [supersOf_eq, supersOf_eq, ids]

theorem superVtable_compact :
    superVtable (compactMethodTables builtin interfaces klasses) = superVtable klasses := by
  cases klasses with
  | nil => rfl
  | cons klass supers => rfl

theorem searchVtable_compact (vtable : List Method) (found : Option (Method × Nat)) :
    searchVtable (compactMethodTables builtin interfaces klasses) name signature vtable found =
      searchVtable klasses name signature vtable found := by
  induction vtable generalizing found with
  | nil => rfl
  | cons entry rest induction =>
      rw [searchVtable_cons, searchVtable_cons, supersOf_compact]
      simp only [induction]

end Lookup

/-! ## The nearest declaration decides -/

section Nearest

variable {isInterface : Nat → Prop} {builtin : Method → Bool} {interfaces : Nat → Interface}
  {front : List Klass} {klass : Klass} {supers : List Klass} {name signature : String}
  {method : Method}

theorem root_of_proper
    (proper : supers ≠ []) :
    ((front ++ klass :: supers).map Klass.classId).getLast? =
      (supers.map Klass.classId).getLast? := by
  obtain ⟨super, rest, rfl⟩ := List.exists_cons_of_ne_nil proper
  simp [List.getLast?_cons]

theorem root_class
    (sound : Sound isInterface (front ++ klass :: supers))
    (root : ((front ++ klass :: supers).map Klass.classId).getLast? = some klass.classId) :
    supers = [] := by
  by_contra proper
  rw [root_of_proper proper] at root
  obtain ⟨super, member, same⟩ := List.mem_map.mp (List.mem_of_getLast? root)
  exact (sound_suffix front sound).1.fresh super member same

/-- A method of a superclass does not lead back to the class. -/
theorem not_mem_supersOf_super
    (sound : Sound isInterface (front ++ klass :: supers))
    {super : Klass}
    (member : super ∈ supers)
    {entry : Method}
    (declared : entry ∈ super.methods) :
    klass.classId ∉ supersOf (front ++ klass :: supers) entry.holder := by
  have linked := (sound_suffix front sound).1
  have fresh : ∀ other ∈ supers, klass.classId ≠ other.classId :=
    fun other inside => (linked.fresh other inside).symm
  obtain ⟨middle, rest, rfl⟩ := List.append_of_mem member
  have split : front ++ klass :: (middle ++ super :: rest) =
      (front ++ klass :: middle) ++ super :: rest := by simp
  have superLinked := (sound_suffix (front ++ klass :: middle) (split ▸ sound)).1
  rcases superLinked.holders entry declared with own | ⟨interface, -⟩
  · rw [split, own, supersOf_class (split ▸ sound)]
    intro inside
    obtain ⟨other, there, same⟩ := List.mem_map.mp inside
    exact fresh other (List.mem_append_right _ there) same.symm
  · rw [supersOf_interface sound interface]
    intro inside
    rcases List.mem_cons.mp inside with same | root
    · exact linked.isClass (same ▸ interface)
    · rw [Option.mem_toList] at root
      exact List.ne_nil_of_mem member (root_class sound root)

theorem head_classId_ne
    (sound : Sound isInterface (front ++ klass :: supers))
    {super : Klass}
    (member : super ∈ supers)
    {first : Klass}
    (isFirst : (front ++ klass :: supers).head? = some first) :
    super.classId ≠ first.classId := by
  cases front with
  | nil =>
      cases isFirst
      exact sound.1.fresh super member
  | cons other front =>
      cases isFirst
      exact sound.1.fresh super (List.mem_append_right _ (List.mem_cons_of_mem _ member))

/-- A method is in the table of one class only. -/
theorem fresh_table
    (sound : Sound isInterface (front ++ klass :: supers))
    {super : Klass}
    (member : super ∈ supers)
    (inside : method ∈ klass.methods) :
    method ∉ super.methods := by
  intro declared
  have linked := (sound_suffix front sound).1
  obtain ⟨_, superLinked⟩ := sound_linked sound
    (List.mem_append_right front (List.mem_cons_of_mem klass member))
  exact linked.fresh super member
    ((superLinked.tables method declared).symm.trans (linked.tables method inside))

theorem entry_eq_or_super
    (sound : Sound isInterface (front ++ klass :: supers))
    (included : ¬ Excluded builtin interfaces (front ++ klass :: supers) name signature)
    (absent : ∀ other ∈ front, ∀ method ∈ other.methods,
      method.matches name signature = false)
    (inside : method ∈ klass.methods)
    (matches' : method.matches name signature = true)
    {entry : Method}
    (there : entry ∈ superVtable (front ++ klass :: supers))
    (entryMatches : entry.matches name signature = true)
    (different : entry ≠ method) :
    ∃ super ∈ supers, entry ∈ super.methods := by
  obtain ⟨other, member, declared⟩ := declared_of_mem_vtable sound there
  rcases List.mem_append.mp member with nearer | member
  · rw [absent other nearer entry declared] at entryMatches
    exact absurd entryMatches Bool.false_ne_true
  · rcases List.mem_cons.mp member with rfl | above
    · exact absurd (same_of_matches sound included (List.mem_append_right _ List.mem_cons_self)
        inside declared matches' entryMatches) different
    · exact ⟨other, above, declared⟩

/-- While the nearest declaration is in its table, the search of the vtable changes nothing. -/
theorem searchVtable_nearest
    (sound : Sound isInterface (front ++ klass :: supers))
    (included : ¬ Excluded builtin interfaces (front ++ klass :: supers) name signature)
    (absent : ∀ other ∈ front, ∀ method ∈ other.methods,
      method.matches name signature = false)
    (inside : method ∈ klass.methods)
    (matches' : method.matches name signature = true) :
    searchVtable (front ++ klass :: supers) name signature
        (superVtable (front ++ klass :: supers)) (some (method, klass.classId)) =
      some (method, klass.classId) := by
  apply searchVtable_stays
  intro entry there entryMatches different
  obtain ⟨super, member, declared⟩ :=
    entry_eq_or_super sound included absent inside matches' there entryMatches different
  exact not_mem_supersOf_super sound member declared

/-- A superclass declares a miranda method. -/
def HasMiranda (supers : List Klass) (name signature : String) : Prop :=
  ∃ super ∈ supers, ∃ entry ∈ super.methods,
    entry.matches name signature = true ∧ entry.holder ≠ super.classId

/-- A proper superclass. A miranda method leads to `java.lang.Object`, which is then left out. -/
def Above (front : List Klass) (klass : Klass) (supers : List Klass) (name signature : String)
    (holder : Nat) : Prop :=
  holder ∈ supers.map Klass.classId ∧
    (HasMiranda supers name signature →
      ((front ++ klass :: supers).map Klass.classId).getLast? ≠ some holder)

theorem above_of_super
    (sound : Sound isInterface (front ++ klass :: supers))
    {super : Klass}
    (member : super ∈ supers)
    {entry : Method}
    (declared : entry ∈ super.methods)
    (entryMatches : entry.matches name signature = true)
    {holder : Nat}
    (above : Above front klass supers name signature holder)
    (below : holder ∈ supersOf (front ++ klass :: supers) entry.holder) :
    Above front klass supers name signature entry.holder := by
  obtain ⟨middle, rest, same⟩ := List.append_of_mem member
  have split : front ++ klass :: supers = (front ++ klass :: middle) ++ super :: rest := by
    simp [same]
  have superSound := split ▸ sound
  have linked := (sound_suffix (front ++ klass :: middle) superSound).1
  by_cases own : entry.holder = super.classId
  · rw [own]
    refine ⟨List.mem_map_of_mem member, ?_⟩
    intro miranda root
    rw [split] at root
    have last := root_class superSound root
    rw [own, split, supersOf_class superSound, last] at below
    rw [List.mem_singleton.mp below] at above
    exact above.2 miranda (split ▸ root)
  · have miranda : HasMiranda supers name signature := ⟨super, member, entry, declared, entryMatches, own⟩
    have interface := ((linked.holders entry declared).resolve_left own).1
    rw [supersOf_interface sound interface] at below
    rcases List.mem_cons.mp below with here | root
    · obtain ⟨other, there, sameId⟩ := List.mem_map.mp above.1
      obtain ⟨_, otherLinked⟩ := sound_linked sound
        (List.mem_append_right front (List.mem_cons_of_mem klass there))
      refine absurd ?_ otherLinked.isClass
      rw [sameId, here]
      exact interface
    · rw [Option.mem_toList] at root
      exact absurd root (above.2 miranda)

/-- Once the nearest declaration is out of its table, the vtable has it. -/
theorem searchVtable_removed
    (sound : Sound isInterface (front ++ klass :: supers))
    (vtables : ∀ id, ∀ method ∈ (interfaces id).vtable, method.holder = method.table)
    (included : ¬ Excluded builtin interfaces (front ++ klass :: supers) name signature)
    (absent : ∀ other ∈ front, ∀ method ∈ other.methods,
      method.matches name signature = false)
    (inside : method ∈ klass.methods)
    (matches' : method.matches name signature = true)
    (removable : isMethodRemovableFromTable builtin interfaces klass method = true)
    {found : Option (Method × Nat)}
    (search : searchTables name signature (compactMethodTables builtin interfaces supers) =
      found) :
    searchVtable (front ++ klass :: supers) name signature
        (superVtable (front ++ klass :: supers)) found = some (method, method.holder) := by
  have here : klass ∈ front ++ klass :: supers := List.mem_append_right _ List.mem_cons_self
  obtain ⟨own, virtual⟩ :=
    mem_vtable_of_removable sound vtables included here inside matches' removable
  have ownSuper : ∀ super ∈ supers, ∀ entry ∈ super.methods,
      entry.matches name signature = true →
      isMethodRemovableFromTable builtin interfaces super entry = true →
      entry.holder = super.classId := by
    intro super superMember entry declared entryMatches removed
    have member := List.mem_append_right front (List.mem_cons_of_mem klass superMember)
    exact (mem_vtable_of_removable sound vtables included member declared entryMatches removed).1
  have first : ∀ entry ∈ superVtable (front ++ klass :: supers),
      entry.matches name signature = true → entry ≠ method → ∀ holder, Above front klass supers name signature holder →
      holder ∈ supersOf (front ++ klass :: supers) entry.holder →
      Above front klass supers name signature entry.holder := by
    intro entry there entryMatches different holder above below
    obtain ⟨super, member, declared⟩ :=
      entry_eq_or_super sound included absent inside matches' there entryMatches different
    exact above_of_super sound member declared entryMatches above below
  have reached : ∀ holder, Above front klass supers name signature holder →
      holder ∈ supersOf (front ++ klass :: supers) method.holder := by
    intro holder above
    rw [own, supersOf_class sound]
    exact List.mem_cons_of_mem _ above.1
  have notBelow : ∀ entry ∈ superVtable (front ++ klass :: supers),
      entry.matches name signature = true → entry ≠ method →
      method.holder ∉ supersOf (front ++ klass :: supers) entry.holder := by
    intro entry there entryMatches different
    obtain ⟨super, member, declared⟩ :=
      entry_eq_or_super sound included absent inside matches' there entryMatches different
    rw [own]
    exact not_mem_supersOf_super sound member declared
  have member : method ∈ superVtable (front ++ klass :: supers) := by
    refine mem_vtable_of_not_declared sound virtual ?_
    rintro other nearer declared there ⟨sameName, sameSignature⟩
    have otherMember := List.mem_append_left (klass :: supers) nearer
    obtain ⟨methodName, methodSignature⟩ :=
      (matches_iff_declares included here inside).mp matches'
    have declaredMatches := (matches_iff_declares included otherMember there).mpr
      ⟨sameName.trans methodName, sameSignature.trans methodSignature⟩
    rw [absent other nearer declared there] at declaredMatches
    exact Bool.false_ne_true declaredMatches
  refine searchVtable_reaches first reached notBelow matches' member ?_
  rcases searchTables_compact search with
    ⟨none', all⟩ | ⟨before, nearest, after, kept, same, found', keptInside, keptMatches, all⟩
  · refine .inl ⟨none', ?_⟩
    intro entry there entryMatches different
    obtain ⟨super, member, declared⟩ :=
      entry_eq_or_super sound included absent inside matches' there entryMatches different
    rw [ownSuper super member entry declared entryMatches (all super member entry declared entryMatches)]
    refine ⟨List.mem_map_of_mem member, ?_⟩
    rintro ⟨other, otherMember, miranda, mirandaInside, mirandaMatches, foreign⟩
    exact absurd (ownSuper other otherMember miranda mirandaInside mirandaMatches
      (all other otherMember miranda mirandaInside mirandaMatches)) foreign
  · have nearestMember : nearest ∈ supers := same ▸ List.mem_append_right _ List.mem_cons_self
    refine .inr ⟨kept, nearest.classId, found', ?_, List.mem_map_of_mem nearestMember, ?_⟩
    · rintro rfl
      exact fresh_table sound nearestMember inside keptInside
    · rintro ⟨other, otherMember, miranda, mirandaInside, mirandaMatches, foreign⟩ root
      have split : front ++ klass :: supers = (front ++ klass :: before) ++ nearest :: after := by
        simp [same]
      have last := root_class (split ▸ sound) (split ▸ root)
      subst last
      rw [same] at otherMember
      rcases List.mem_append.mp otherMember with nearer | isNearest
      · have otherSuper : other ∈ supers := same ▸ otherMember
        exact foreign (ownSuper other otherSuper miranda mirandaInside mirandaMatches
          (all other nearer miranda mirandaInside mirandaMatches))
      · rw [List.mem_singleton.mp isNearest] at mirandaInside foreign
        have linked := (sound_suffix (front ++ klass :: before) (split ▸ sound)).1
        exact ((linked.holders miranda mirandaInside).resolve_left foreign).2 rfl

end Nearest

/-! ## Compaction does not change a lookup -/

section Compacted

variable {isInterface : Nat → Prop} {builtin : Method → Bool} {interfaces : Nat → Interface}
  {klasses : List Klass} {name signature : String}

theorem absent_compact
    (absent : ∀ klass ∈ klasses, ∀ method ∈ klass.methods,
      method.matches name signature = false) :
    ∀ klass ∈ compactMethodTables builtin interfaces klasses, ∀ method ∈ klass.methods,
      method.matches name signature = false := by
  intro klass member method inside
  obtain ⟨before, there, rfl⟩ := List.mem_map.mp member
  exact absent before there method (mem_compactMethodTable.1 inside).1

theorem lookupMethod_absent
    (vtable : ∀ entry ∈ superVtable klasses, entry.matches name signature = false)
    (absent : ∀ klass ∈ klasses, ∀ method ∈ klass.methods,
      method.matches name signature = false) :
    lookupMethod klasses name signature = none := by
  rw [lookupMethod_of_vtable (searchTables_absent absent)
    (fun _ _ same => absurd same.symm (Option.some_ne_none _)), searchVtable_absent vtable]
  rfl

theorem lookupMethod_compact
    (sound : Sound isInterface klasses)
    (vtables : ∀ id, ∀ method ∈ (interfaces id).vtable, method.holder = method.table)
    (included : ¬ Excluded builtin interfaces klasses name signature) :
    lookupMethod (compactMethodTables builtin interfaces klasses) name signature =
      lookupMethod klasses name signature := by
  rcases nearest_declaration klasses name signature with
    absent | ⟨front, klass, supers, method, rfl, inside, matches', absent⟩
  · have vtable : ∀ entry ∈ superVtable klasses, entry.matches name signature = false := by
      intro entry there
      obtain ⟨klass, member, declared⟩ := declared_of_mem_vtable sound there
      exact absent klass member entry declared
    have compacted : ∀ entry ∈ superVtable (compactMethodTables builtin interfaces klasses),
        entry.matches name signature = false := by
      rw [superVtable_compact]
      exact vtable
    rw [lookupMethod_absent vtable absent, lookupMethod_absent compacted (absent_compact absent)]
  · have here : klass ∈ front ++ klass :: supers := List.mem_append_right _ List.mem_cons_self
    have only : ∀ other ∈ klass.methods, other.matches name signature = true → other = method :=
      fun other member => same_of_matches sound included here inside member matches'
    have before : lookupMethod (front ++ klass :: supers) name signature = some method :=
      lookupMethod_of_table (searchTables_nearest absent inside matches' only)
        (searchVtable_nearest sound included absent inside matches')
    have split : compactMethodTables builtin interfaces (front ++ klass :: supers) =
        compactMethodTables builtin interfaces front ++ compactMethodTable builtin interfaces klass ::
          compactMethodTables builtin interfaces supers := List.map_append
    rw [before]
    cases removable : isMethodRemovableFromTable builtin interfaces klass method with
    | false =>
        have found : searchTables name signature
            (compactMethodTables builtin interfaces (front ++ klass :: supers)) =
              some (method, klass.classId) := by
          rw [split]
          exact searchTables_nearest (absent_compact absent)
            (mem_compactMethodTable.2 ⟨inside, removable⟩) matches'
            fun other member => only other (mem_compactMethodTable.1 member).1
        refine lookupMethod_of_table found ?_
        rw [searchVtable_compact, superVtable_compact]
        exact searchVtable_nearest sound included absent inside matches'
    | true =>
        have removed : ∀ other ∈ compactMethodTables builtin interfaces (front ++ [klass]),
            ∀ method ∈ other.methods, method.matches name signature = false := by
          intro other member entry declared
          obtain ⟨original, originalMember, rfl⟩ := List.mem_map.mp member
          obtain ⟨originalInside, kept⟩ := mem_compactMethodTable.1 declared
          rcases List.mem_append.mp originalMember with nearer | isKlass
          · exact absent original nearer entry originalInside
          · rw [List.mem_singleton.mp isKlass] at originalInside kept
            by_contra entryMatches
            rw [only entry originalInside (by simpa using entryMatches), removable] at kept
            exact Bool.false_ne_true kept.symm
        have skipped : searchTables name signature
            (compactMethodTables builtin interfaces (front ++ klass :: supers)) =
              searchTables name signature (compactMethodTables builtin interfaces supers) := by
          have same : compactMethodTables builtin interfaces (front ++ klass :: supers) =
              compactMethodTables builtin interfaces (front ++ [klass]) ++
                compactMethodTables builtin interfaces supers := by
            simp [compactMethodTables]
          rw [same, searchTables_skip removed]
        rw [lookupMethod_of_vtable skipped, searchVtable_compact, superVtable_compact,
          searchVtable_removed sound vtables included absent inside matches' removable rfl]
        · rfl
        · intro found holder search first isFirst
          obtain ⟨original, originalFirst, rfl⟩ :
              ∃ original, (front ++ klass :: supers).head? = some original ∧
                compactMethodTable builtin interfaces original = first := by
            rwa [compactMethodTables, List.head?_map, Option.map_eq_some_iff] at isFirst
          rcases searchTables_compact search with
            ⟨none', -⟩ | ⟨before, nearest, after, _, same, found', -⟩
          · exact absurd none'.symm (Option.some_ne_none _).symm
          · have nearestMember : nearest ∈ supers := same ▸ List.mem_append_right _ List.mem_cons_self
            rw [(Prod.mk.inj (Option.some.inj found')).2]
            have different : nearest.classId ≠ original.classId :=
              head_classId_ne sound nearestMember originalFirst
            exact different

end Compacted

/-- Lookups in loaded classes of which some are renamed, and some methods. -/
theorem lookupMethod_compactMethodTables
    {loaded : LoadedInterfaces}
    {klasses : List Klass}
    (loadedClasses : Loaded loaded klasses)
    (builtin methods : Method → Bool)
    (classes : Nat → Bool)
    (name signature : String)
    (included : ¬ Excluded builtin
      (fun id => (loaded.interface id).rename methods classes id)
      (klasses.map (Klass.rename methods classes)) name signature) :
    lookupMethod
        (compactMethodTables builtin (fun id => (loaded.interface id).rename methods classes id)
          (klasses.map (Klass.rename methods classes))) name signature =
      lookupMethod (klasses.map (Klass.rename methods classes)) name signature := by
  refine lookupMethod_compact (sound_rename methods classes (loaded_sound loadedClasses).1) ?_ included
  intro id method member
  obtain ⟨before, inside, rfl⟩ := List.mem_map.mp member
  have kept : before.holder = before.table := loaded.vtables inside
  exact kept

section Shapes

/-- A public method of a class. -/
def exampleMethod (holder : Nat) (name : String) : Method :=
  { originalName := name
    signature := "()V"
    isRenamed := false
    access := .isPublic
    isStatic := false
    isFinal := false
    isNative := false
    holder
    table := holder }

/-- The interface `2` declares `run`. -/
def exampleInterfaces : LoadedInterfaces where
  interface id :=
    { originalName := "Runnable"
      isRenamed := false
      package := ""
      methods := [exampleMethod id "run"]
      vtable := [] }
  isInterface id := id = 2
  holders := by
    intro id method member
    rw [List.mem_singleton.mp member]
    exact ⟨rfl, rfl⟩
  notRenamed := by
    intro id method member
    rw [List.mem_singleton.mp member]
    rfl
  named := by
    intro id method member
    rw [List.mem_singleton.mp member]
    exact (by decide : "run" ≠ unknown)
  distinct _ := List.pairwise_singleton _ _
  vtables := by
    intro id method member
    cases member

def exampleObject : ClassFile :=
  { classId := 0
    name := "java/lang/Object"
    package := "java/lang"
    isFinal := false
    isAbstract := false
    methods := [exampleMethod 0 "hashCode"]
    superInterfaces := [] }

/-- An abstract class that overrides `hashCode` and gets a miranda method. -/
def exampleTask : ClassFile :=
  { classId := 1
    name := "Task"
    package := ""
    isFinal := false
    isAbstract := true
    methods := [exampleMethod 1 "hashCode"]
    superInterfaces := [2] }

def exampleClasses : List Klass :=
  let object := loadClass exampleInterfaces.interface exampleObject []
  [loadClass exampleInterfaces.interface exampleTask [object], object]

theorem exampleClasses_loaded : Loaded exampleInterfaces exampleClasses := by
  refine .load (.load .none ?_) ?_
  · constructor <;> simp [exampleInterfaces, exampleObject, exampleMethod, unknown]
  · constructor <;>
      simp [exampleInterfaces, exampleObject, exampleTask, exampleMethod, loadClass, unknown]

theorem lookupMethod_hashCode :
    lookupMethod
        (compactMethodTables (fun _ => false)
          (fun id => (exampleInterfaces.interface id).rename (fun _ => false) (fun _ => false) id)
          (exampleClasses.map (Klass.rename (fun _ => false) (fun _ => false))))
        "hashCode" "()V" = some (exampleMethod 1 "hashCode") := by
  refine (lookupMethod_compactMethodTables exampleClasses_loaded (fun _ => false)
    (fun _ => false) (fun _ => false) "hashCode" "()V" ?_).trans (by decide)
  unfold Excluded
  decide

end Shapes

end PicoJvm.Compaction
