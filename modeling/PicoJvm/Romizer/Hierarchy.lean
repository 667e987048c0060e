import PicoJvm.Romizer.ClassTable

/-!
# Up and down the hierarchy

Chains of superclasses and what a lookup finds in them; and what adding application
classes leaves as it was.
-/

namespace PicoJvm.Romizer

open PicoJvm.Dispatch (Method findMethod)
open Relation (ReflTransGen TransGen)

namespace ClassTable

variable {table : ClassTable}

/-! ## Chains -/

theorem height_lt_of_isSuper
    {id super : Nat}
    (isSuper : IsSuper table.classes id super) :
    table.height super < table.height id := by
  obtain ⟨klass, isKlass, superEq⟩ := isSuper
  exact (table.superLegal isKlass superEq).1

theorem height_lt_of_transGen
    {id super : Nat}
    (isSuper : TransGen (IsSuper table.classes) id super) :
    table.height super < table.height id := by
  induction isSuper with
  | single step =>
      exact height_lt_of_isSuper step
  | tail _ step inductionHypothesis =>
      have := height_lt_of_isSuper step
      omega

theorem chainFrom_succ (classes : List (Option Klass)) (fuel id : Nat) :
    chainFrom classes (fuel + 1) id =
      match classAt classes id with
      | none => []
      | some klass =>
          id ::
            match klass.super with
            | none => []
            | some super => chainFrom classes fuel super :=
  rfl

theorem chainFrom_eq
    {fuel id : Nat}
    (enough : table.height id < fuel) :
    chainFrom table.classes fuel id = table.chain id := by
  induction fuel using Nat.strongRecOn generalizing id with
  | _ fuel inductionHypothesis =>
      cases fuel with
      | zero =>
          exact absurd enough (Nat.not_lt_zero _)
      | succ fuel =>
          rw [chain, chainFrom_succ, chainFrom_succ]
          cases isKlass : classAt table.classes id with
          | none =>
              rfl
          | some klass =>
              dsimp only
              cases superEq : klass.super with
              | none =>
                  rfl
              | some super =>
                  have lower := (table.superLegal isKlass superEq).1
                  have enoughHere : table.height super < fuel := by omega
                  dsimp only
                  rw [inductionHypothesis fuel (Nat.lt_succ_self fuel) enoughHere]
                  by_cases atTop : table.height id = fuel
                  · rw [atTop, inductionHypothesis fuel (Nat.lt_succ_self fuel) enoughHere]
                  · rw [inductionHypothesis (table.height id) (by omega) lower]

theorem chain_of_super
    {id super : Nat} {klass : Klass}
    (isKlass : table.klassAt id = some klass)
    (superEq : klass.super = some super) :
    table.chain id = id :: table.chain super := by
  have lower := (table.superLegal isKlass superEq).1
  rw [chain, chainFrom_succ, show classAt table.classes id = some klass from isKlass]
  dsimp only
  rw [superEq]
  dsimp only
  rw [chainFrom_eq lower]

theorem chain_of_no_super
    {id : Nat} {klass : Klass}
    (isKlass : table.klassAt id = some klass)
    (noSuper : klass.super = none) :
    table.chain id = [id] := by
  rw [chain, chainFrom_succ, show classAt table.classes id = some klass from isKlass]
  dsimp only
  rw [noSuper]

theorem chain_of_none
    {id : Nat}
    (noKlass : table.klassAt id = none) :
    table.chain id = [] := by
  rw [chain, chainFrom_succ, show classAt table.classes id = none from noKlass]

/-- The chain of a class ends with that of each superclass. What comes before lies below
it. -/
theorem chain_append
    {id super : Nat}
    (above : ReflTransGen (IsSuper table.classes) id super) :
    ∃ front, table.chain id = front ++ table.chain super ∧
      ∀ lower ∈ front, TransGen (IsSuper table.classes) lower super := by
  induction above using ReflTransGen.head_induction_on with
  | refl =>
      refine ⟨[], rfl, ?_⟩
      intro lower member
      cases member
  | @head lower next step later inductionHypothesis =>
      obtain ⟨front, chainEq, below⟩ := inductionHypothesis
      obtain ⟨klass, isKlass, superEq⟩ := step
      refine ⟨lower :: front, ?_, ?_⟩
      · rw [chain_of_super isKlass superEq, chainEq]
        rfl
      · intro other member
        rcases List.mem_cons.mp member with rfl | inFront
        · exact TransGen.head' ⟨klass, isKlass, superEq⟩ later
        · exact below other inFront

theorem reaches_of_mem_chain
    {id other : Nat}
    (member : other ∈ table.chain id) :
    ReflTransGen (IsSuper table.classes) id other := by
  generalize heightEq : table.height id = height at member
  induction height using Nat.strongRecOn generalizing id with
  | _ height inductionHypothesis =>
      cases isKlass : table.klassAt id with
      | none =>
          rw [chain_of_none isKlass] at member
          cases member
      | some klass =>
          cases superEq : klass.super with
          | none =>
              rw [chain_of_no_super isKlass superEq] at member
              rw [List.mem_singleton.mp member]
          | some super =>
              rw [chain_of_super isKlass superEq] at member
              rcases List.mem_cons.mp member with rfl | later
              · exact .refl
              · have lower := (table.superLegal isKlass superEq).1
                exact .head ⟨klass, isKlass, superEq⟩
                  (inductionHypothesis (table.height super) (by omega) later rfl)

theorem chain_nodup (table : ClassTable) (id : Nat) :
    (table.chain id).Nodup := by
  generalize heightEq : table.height id = height
  induction height using Nat.strongRecOn generalizing id with
  | _ height inductionHypothesis =>
      cases isKlass : table.klassAt id with
      | none =>
          rw [chain_of_none isKlass]
          exact List.nodup_nil
      | some klass =>
          cases superEq : klass.super with
          | none =>
              rw [chain_of_no_super isKlass superEq]
              simp
          | some super =>
              have lower := (table.superLegal isKlass superEq).1
              rw [chain_of_super isKlass superEq, List.nodup_cons]
              refine ⟨?_, inductionHypothesis (table.height super) (by omega) super rfl⟩
              intro member
              have cycle := TransGen.head' ⟨klass, isKlass, superEq⟩
                (reaches_of_mem_chain member)
              exact absurd (height_lt_of_transGen cycle) (Nat.lt_irrefl _)

/-! ## Lookup -/

section Lookup

variable {name signature : String} {method : Method}

theorem findLocalMethod_nonStatic
    {id : Nat}
    (found : table.findLocalMethod id name signature false = some method)
    (isVirtual : method.isStatic = false) :
    table.findLocalMethod id name signature true = some method := by
  unfold findLocalMethod at found ⊢
  obtain ⟨klass, isKlass, found⟩ := Option.bind_eq_some_iff.mp found
  rw [isKlass]
  exact findMethod_nonStatic found isVirtual

theorem findLocalMethod_none
    {id : Nat}
    (absent : table.findLocalMethod id name signature false = none) :
    table.findLocalMethod id name signature true = none := by
  unfold findLocalMethod at absent ⊢
  cases isKlass : table.klassAt id with
  | none =>
      rfl
  | some klass =>
      rw [isKlass, Option.bind_some] at absent
      rw [Option.bind_some, findMethod_eq_none_iff]
      intro method member fits
      exact absurd (.inl rfl) (findMethod_eq_none_iff.mp absent method member fits)

theorem searchChain_cons
    (name signature : String) (nonStaticOnly : Bool) (id : Nat) (rest : List Nat) :
    table.searchChain name signature nonStaticOnly (id :: rest) =
      match table.findLocalMethod id name signature nonStaticOnly with
      | some method => some method
      | none => table.searchChain name signature nonStaticOnly rest :=
  rfl

theorem searchChain_nonStatic
    {chain : List Nat}
    (found : table.searchChain name signature false chain = some method)
    (isVirtual : method.isStatic = false) :
    table.searchChain name signature true chain = some method := by
  induction chain with
  | nil =>
      cases found
  | cons id rest inductionHypothesis =>
      rw [searchChain_cons] at found ⊢
      cases isLocal : table.findLocalMethod id name signature false with
      | none =>
          rw [isLocal] at found
          rw [findLocalMethod_none isLocal]
          exact inductionHypothesis found
      | some first =>
          rw [isLocal] at found
          cases found
          rw [findLocalMethod_nonStatic isLocal isVirtual]

theorem lookupMethod_nonStatic
    {id : Nat}
    (found : table.lookupMethod id name signature false = some method)
    (isVirtual : method.isStatic = false) :
    table.lookupMethod id name signature true = some method :=
  searchChain_nonStatic found isVirtual

theorem findLocalMethod_facts
    {id : Nat} {nonStaticOnly : Bool}
    (found : table.findLocalMethod id name signature nonStaticOnly = some method) :
    ∃ klass, table.klassAt id = some klass ∧ some method ∈ klass.methods ∧
      method.matches name signature ∧ method.holder = id ∧
      (nonStaticOnly = false ∨ method.isStatic = false) := by
  obtain ⟨klass, isKlass, found⟩ := Option.bind_eq_some_iff.mp found
  obtain ⟨member, fits, kind⟩ := findMethod_mem found
  exact ⟨klass, isKlass, member, fits, table.holders isKlass member, kind⟩

theorem searchChain_facts
    {chain : List Nat} {nonStaticOnly : Bool}
    (found : table.searchChain name signature nonStaticOnly chain = some method) :
    ∃ id ∈ chain, ∃ klass, table.klassAt id = some klass ∧ some method ∈ klass.methods ∧
      method.matches name signature ∧ method.holder = id ∧
      (nonStaticOnly = false ∨ method.isStatic = false) := by
  induction chain with
  | nil =>
      cases found
  | cons id rest inductionHypothesis =>
      rw [searchChain_cons] at found
      cases isLocal : table.findLocalMethod id name signature nonStaticOnly with
      | none =>
          rw [isLocal] at found
          obtain ⟨other, member, facts⟩ := inductionHypothesis found
          exact ⟨other, List.mem_cons_of_mem _ member, facts⟩
      | some first =>
          rw [isLocal] at found
          cases found
          exact ⟨id, List.mem_cons_self, findLocalMethod_facts isLocal⟩

theorem searchChain_append_of_absent
    {front rest : List Nat} {nonStaticOnly : Bool}
    (absent : ∀ id ∈ front, table.findLocalMethod id name signature nonStaticOnly = none) :
    table.searchChain name signature nonStaticOnly (front ++ rest) =
      table.searchChain name signature nonStaticOnly rest := by
  induction front with
  | nil =>
      rfl
  | cons id front inductionHypothesis =>
      rw [List.cons_append, searchChain_cons, absent id List.mem_cons_self]
      exact inductionHypothesis fun other member =>
        absent other (List.mem_cons_of_mem _ member)

theorem matches_iff :
    method.matches name signature = true ↔ method.name = name ∧ method.signature = signature := by
  rw [Method.matches, decide_eq_true_iff]

/-- Along a chain in which a class holds the method, the slot of the method and the
lookup agree on every public method the lookup finds. -/
theorem slotMethod_eq
    {front rest : List Nat} {target : Method}
    (found : table.searchChain name signature false rest = some method)
    (isVirtual : method.isStatic = false)
    (notBefore : method.holder ∉ front)
    (nodup : rest.Nodup)
    (looked : table.searchChain name signature true (front ++ rest) = some target)
    (isPublic : target.access = .isPublic) :
    table.slotMethod method (front ++ rest) = some target := by
  have nameEq : method.name = name ∧ method.signature = signature := by
    obtain ⟨_, _, _, _, _, fits, _⟩ := searchChain_facts found
    exact matches_iff.1 fits
  induction front with
  | nil =>
      rw [List.nil_append] at looked ⊢
      rw [searchChain_nonStatic found isVirtual, Option.some.injEq] at looked
      subst looked
      induction rest with
      | nil =>
          cases found
      | cons id rest inductionHypothesis =>
          rw [searchChain_cons] at found
          cases isLocal : table.findLocalMethod id name signature false with
          | none =>
              rw [isLocal] at found
              obtain ⟨holder, inRest, _, _, _, _, holderEq, _⟩ := searchChain_facts found
              obtain ⟨notInRest, nodup⟩ := List.nodup_cons.mp nodup
              have notHolder : id ≠ method.holder := by
                intro idEq
                rw [idEq, holderEq] at notInRest
                exact notInRest inRest
              rw [slotMethod, if_neg notHolder, nameEq.1, nameEq.2,
                findLocalMethod_none isLocal]
              exact inductionHypothesis found nodup
          | some first =>
              rw [isLocal] at found
              cases found
              obtain ⟨_, _, _, _, holderEq, _⟩ := findLocalMethod_facts isLocal
              rw [slotMethod, if_pos holderEq.symm]
  | cons id front inductionHypothesis =>
      have notHolder : id ≠ method.holder := by
        rintro rfl
        exact notBefore List.mem_cons_self
      rw [List.cons_append, searchChain_cons] at looked
      rw [List.cons_append, slotMethod, if_neg notHolder, nameEq.1, nameEq.2]
      cases isLocal : table.findLocalMethod id name signature true with
      | none =>
          rw [isLocal] at looked
          exact inductionHypothesis
            (fun member => notBefore (List.mem_cons_of_mem _ member)) looked
      | some other =>
          rw [isLocal] at looked
          cases looked
          exact if_pos (.inl isPublic)

end Lookup

/-! ## Adding classes -/

/-- A path that enters a region crosses its border somewhere. -/
theorem exists_crossing {vertex : Type*} {step : vertex → vertex → Prop}
    {start finish : vertex}
    (inside : vertex → Prop)
    (path : ReflTransGen step start finish)
    (startOutside : ¬ inside start)
    (finishInside : inside finish) :
    ∃ before after, ReflTransGen step start before ∧ ¬ inside before ∧ step before after ∧
      inside after ∧ ReflTransGen step after finish := by
  induction path using ReflTransGen.head_induction_on with
  | refl =>
      exact absurd finishInside startOutside
  | @head first next firstStep later inductionHypothesis =>
      by_cases nextInside : inside next
      · exact ⟨first, next, .refl, startOutside, firstStep, nextInside, later⟩
      · obtain ⟨before, after, toBefore, rest⟩ := inductionHypothesis nextInside
        exact ⟨before, after, .head firstStep toBefore, rest⟩

section Extension

variable {extended : ClassTable}

theorem klassAt_lt
    {id : Nat} {klass : Klass}
    (isKlass : table.klassAt id = some klass) :
    id < table.classes.length := by
  by_contra outside
  rw [klassAt, classAt, List.getElem?_eq_none (by omega)] at isKlass
  cases isKlass

/-- What extends an interface, or is one, is an interface. -/
theorem isInterface_of_declares
    {id interface : Nat} {klass : Klass}
    (isKlass : table.klassAt id = some klass)
    (isInterface : klass.isInterface = true)
    (reaches : ReflTransGen (Declares table.classes) id interface) :
    ∃ interfaceKlass, table.klassAt interface = some interfaceKlass ∧
      interfaceKlass.isInterface = true := by
  rcases ReflTransGen.cases_tail reaches with rfl | ⟨lower, _, declarer, isDeclarer, member⟩
  · exact ⟨klass, isKlass, isInterface⟩
  · exact (table.interfacesLegal isDeclarer member).2

theorem klassAt_extended
    {id : Nat}
    (extends' : table.ExtendedBy extended)
    (inside : id < table.classes.length) :
    extended.klassAt id = table.klassAt id := by
  obtain ⟨applications, classesEq⟩ := extends'.added
  rw [klassAt, classAt, classesEq, List.getElem?_append_left inside]
  rfl

theorem isSuper_lt
    {id super : Nat}
    (isSuper : IsSuper table.classes id super) :
    id < table.classes.length ∧ super < table.classes.length := by
  obtain ⟨klass, isKlass, superEq⟩ := isSuper
  obtain ⟨_, superKlass, isSuperKlass, _⟩ := table.superLegal isKlass superEq
  exact ⟨klassAt_lt isKlass, klassAt_lt isSuperKlass⟩

theorem declares_lt
    {id interface : Nat}
    (declares : Declares table.classes id interface) :
    id < table.classes.length ∧ interface < table.classes.length := by
  obtain ⟨klass, isKlass, member⟩ := declares
  obtain ⟨_, interfaceKlass, isInterfaceKlass, _⟩ := table.interfacesLegal isKlass member
  exact ⟨klassAt_lt isKlass, klassAt_lt isInterfaceKlass⟩

theorem isSuper_extended
    {id super : Nat}
    (extends' : table.ExtendedBy extended)
    (inside : id < table.classes.length) :
    IsSuper extended.classes id super ↔ IsSuper table.classes id super := by
  have same := klassAt_extended extends' inside
  unfold IsSuper
  rw [show classAt extended.classes id = classAt table.classes id from same]

theorem declares_extended
    {id interface : Nat}
    (extends' : table.ExtendedBy extended)
    (inside : id < table.classes.length) :
    Declares extended.classes id interface ↔ Declares table.classes id interface := by
  have same := klassAt_extended extends' inside
  unfold Declares
  rw [show classAt extended.classes id = classAt table.classes id from same]

/-- From a ROM class the hierarchy above is the one that was romized. -/
theorem supers_extended
    {id super : Nat}
    (extends' : table.ExtendedBy extended)
    (inside : id < table.classes.length)
    (above : ReflTransGen (IsSuper extended.classes) id super) :
    ReflTransGen (IsSuper table.classes) id super ∧ super < table.classes.length := by
  induction above with
  | refl =>
      exact ⟨.refl, inside⟩
  | tail _ step inductionHypothesis =>
      obtain ⟨above, insideToo⟩ := inductionHypothesis
      have step := (isSuper_extended extends' insideToo).mp step
      exact ⟨above.tail step, (isSuper_lt step).2⟩

theorem superinterfaces_extended
    {id interface : Nat}
    (extends' : table.ExtendedBy extended)
    (inside : id < table.classes.length)
    (above : ReflTransGen (Declares extended.classes) id interface) :
    ReflTransGen (Declares table.classes) id interface ∧
      interface < table.classes.length := by
  induction above with
  | refl =>
      exact ⟨.refl, inside⟩
  | tail _ step inductionHypothesis =>
      obtain ⟨above, insideToo⟩ := inductionHypothesis
      have step := (declares_extended extends' insideToo).mp step
      exact ⟨above.tail step, (declares_lt step).2⟩

theorem superinterfaces_in_extended
    {id interface : Nat}
    (extends' : table.ExtendedBy extended)
    (above : ReflTransGen (Declares table.classes) id interface) :
    ReflTransGen (Declares extended.classes) id interface := by
  induction above with
  | refl =>
      exact .refl
  | tail _ step inductionHypothesis =>
      exact inductionHypothesis.tail
        ((declares_extended extends' (declares_lt step).1).mpr step)

/-- The chain of a ROM class stays as it is. -/
theorem chain_extended
    {id : Nat}
    (extends' : table.ExtendedBy extended)
    (inside : id < table.classes.length) :
    extended.chain id = table.chain id := by
  generalize heightEq : table.height id = height
  induction height using Nat.strongRecOn generalizing id with
  | _ height inductionHypothesis =>
      have same := klassAt_extended extends' inside
      cases isKlass : table.klassAt id with
      | none =>
          rw [isKlass] at same
          rw [chain_of_none same, chain_of_none isKlass]
      | some klass =>
          rw [isKlass] at same
          cases superEq : klass.super with
          | none =>
              rw [chain_of_no_super same superEq, chain_of_no_super isKlass superEq]
          | some super =>
              obtain ⟨lower, superKlass, isSuperKlass, _⟩ := table.superLegal isKlass superEq
              rw [chain_of_super same superEq, chain_of_super isKlass superEq,
                inductionHypothesis (table.height super) (by omega)
                  (klassAt_lt isSuperKlass) rfl]

theorem searchChain_extended
    {chain : List Nat}
    (name signature : String) (nonStaticOnly : Bool)
    (extends' : table.ExtendedBy extended)
    (inside : ∀ id ∈ chain, id < table.classes.length) :
    extended.searchChain name signature nonStaticOnly chain =
      table.searchChain name signature nonStaticOnly chain := by
  induction chain with
  | nil =>
      rfl
  | cons id rest inductionHypothesis =>
      rw [searchChain, searchChain, findLocalMethod, findLocalMethod,
        klassAt_extended extends' (inside id List.mem_cons_self),
        inductionHypothesis fun other member => inside other (List.mem_cons_of_mem _ member)]

theorem lookupMethod_extended
    {id : Nat}
    (name signature : String) (nonStaticOnly : Bool)
    (extends' : table.ExtendedBy extended)
    (inside : id < table.classes.length) :
    extended.lookupMethod id name signature nonStaticOnly =
      table.lookupMethod id name signature nonStaticOnly := by
  rw [lookupMethod, lookupMethod, chain_extended extends' inside]
  apply searchChain_extended _ _ _ extends'
  intro other member
  rcases reaches_of_mem_chain member with _ | ⟨_, step⟩
  · exact inside
  · exact (isSuper_lt step).2

end Extension

end ClassTable

end PicoJvm.Romizer
