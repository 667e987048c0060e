import Mathlib.Data.List.ReduceOption
import PicoJvm.Dispatch.Klass
import PicoJvm.Loading.SuperInterfaces

/-!
# Miranda methods

An abstract class gets an entry in its method array for an interface method that neither it
nor a superclass answers, so that `invokevirtual` finds one. The entries are counted in one pass
over the super interfaces and made in a second one.
-/

namespace PicoJvm.Loading

open PicoJvm.Dispatch
open PicoJvm.Lib.Bitmap
open PicoJvm.Lib.Fallible

/-- Two methods have the same name and signature. -/
def SameSignature (method other : Method) : Prop :=
  method.name = other.name ∧ method.signature = other.signature

instance (method other : Method) : Decidable (SameSignature method other) :=
  inferInstanceAs (Decidable (_ ∧ _))

/-- The method arrays of the interfaces, by class id. The parser takes no two methods with the
same name and signature, and a class initialiser for the only static method. -/
structure InterfaceMethods where
  arrays : List (List (Option Method))
  distinct : ∀ methods ∈ arrays,
    methods.reduceOption.Pairwise fun method other => ¬ SameSignature method other
  static_iff : ∀ methods ∈ arrays, ∀ method ∈ methods.reduceOption,
    (method.isStatic = true ↔ method.name = "<clinit>")

/-- `Universe::class_from_id(id).methods()`. -/
def InterfaceMethods.methods (interfaces : InterfaceMethods) (id : Nat) :
    List (Option Method) :=
  interfaces.arrays.getD id []

/-- An entry of a method array that is not null. -/
inductive MethodEntry
  | declared (method : Method)
  /-- What `new_lazy_error_method` makes of an interface method. -/
  | lazyError (interfaceMethod : Method)
  deriving DecidableEq, Repr

/-- How adding the methods goes wrong. -/
inductive MirandaFault
  | objectImplementsInterfaces
  | outsideArray
  deriving DecidableEq, Repr

/-- A loop over a method array that stops at a method with a name and a signature. -/
def holdsMatching (name signature : String) (also : Method → Bool)
    (methods : List (Option Method)) : Bool :=
  methods.any fun entry =>
    match entry with
    | none => false
    | some method => method.matches name signature && also method

/-! ## Which methods are left out -/

section Passes

variable (interfaces : InterfaceMethods) (supers : List Klass) (methods : List (Option Method))

/-- Test (a): the class declares the method. -/
def declaresLocally (name signature : String) : Bool :=
  holdsMatching name signature (fun _ => true) methods

/-- Test (b.1): a public method of the vtable of the superclass. -/
def publicInVtable (name signature : String) : Bool :=
  supers.head?.any fun super =>
    holdsMatching name signature (fun method => decide (method.access = .isPublic)) super.vtable

/-- Test (b.2): a final method of a superclass. -/
def finalInSuper (name signature : String) : Bool :=
  supers.any fun super =>
    holdsMatching name signature (fun method => method.isFinal) super.methods

/-- Test (c): a method of an interface that comes earlier. -/
def declaredEarlier (earlier : List Nat) (name signature : String) : Bool :=
  earlier.any fun id => holdsMatching name signature (fun _ => true) (interfaces.methods id)

/-- Whether `add_miranda_methods` goes to `not_miranda` with an interface method. -/
def notMiranda (earlier : List Nat) (name signature : String) : Bool :=
  declaresLocally methods name signature || publicInVtable supers name signature ||
    finalInSuper supers name signature || declaredEarlier interfaces earlier name signature

/-! ## The two passes -/

variable {state : Type} (visit : state → Method → Except MirandaFault state)

/-- The loop over the methods of one interface. -/
def passMethods (earlier : List Nat) :
    List (Option Method) → state → Except MirandaFault state
  | [], reached => .ok reached
  | none :: rest, reached => passMethods earlier rest reached
  | some im :: rest, reached =>
      if im.isStatic = true then
        passMethods earlier rest reached
      else if notMiranda interfaces supers methods earlier im.name im.signature = true then
        passMethods earlier rest reached
      else do
        let reached ← visit reached im
        passMethods earlier rest reached

/-- The loop over the interfaces, with those it has been through. -/
def passInterfaces (earlier : List Nat) :
    List Nat → state → Except MirandaFault state
  | [], reached => .ok reached
  | id :: ids, reached => do
      let reached ←
        passMethods interfaces supers methods visit earlier (interfaces.methods id) reached
      passInterfaces (earlier ++ [id]) ids reached

/-- The first pass adds one to `num_mirandas_found`. -/
def countVisit (found : Nat) (_im : Method) : Except MirandaFault Nat :=
  .ok (found + 1)

/-- The second pass puts a method into the new array, behind those added before. -/
def fillVisit (numMethods : Nat) (filled : List (Option MethodEntry) × Nat) (im : Method) :
    Except MirandaFault (List (Option MethodEntry) × Nat) :=
  let idx := numMethods + filled.2
  if idx < filled.1.length then
    .ok (filled.1.set idx (some (.lazyError im)), filled.2 + 1)
  else
    .error .outsideArray

/-- The entries of the methods that the class declares. -/
def declaredEntries : List (Option MethodEntry) :=
  methods.map (Option.map .declared)

/-- `InstanceClass::add_miranda_methods`; the class has no superclass when `supers` is empty. -/
def addMirandaMethods (all : List Nat) : Except MirandaFault (List (Option MethodEntry)) :=
  if supers = [] then
    if all ≠ [] then
      .error .objectImplementsInterfaces
    else
      .ok (declaredEntries methods)
  else if all = [] then
    .ok (declaredEntries methods)
  else do
    let found ← passInterfaces interfaces supers methods countVisit [] all 0
    if found = 0 then
      .ok (declaredEntries methods)
    else do
      let newMethods := declaredEntries methods ++ List.replicate found none
      let filled ←
        passInterfaces interfaces supers methods (fillVisit methods.length) [] all (newMethods, 0)
      .ok filled.1

end Passes

/-! ## The methods that both passes visit -/

section Visited

variable (interfaces : InterfaceMethods) (supers : List Klass) (methods : List (Option Method))

/-- A method of an interface gets an entry. -/
def isMiranda (earlier : List Nat) (im : Method) : Bool :=
  !im.isStatic && !notMiranda interfaces supers methods earlier im.name im.signature

/-- The methods of the interfaces that get an entry, in the order of the passes. -/
def mirandas (earlier : List Nat) : List Nat → List Method
  | [] => []
  | id :: ids =>
      (interfaces.methods id).reduceOption.filter
          (isMiranda interfaces supers methods earlier) ++
        mirandas (earlier ++ [id]) ids

variable {interfaces supers methods}
variable {state : Type} (visit : state → Method → Except MirandaFault state)

theorem passMethods_eq_foldlM
    (earlier : List Nat) (entries : List (Option Method)) (reached : state) :
    passMethods interfaces supers methods visit earlier entries reached =
      (entries.reduceOption.filter (isMiranda interfaces supers methods earlier)).foldlM visit
        reached := by
  induction entries generalizing reached with
  | nil =>
      rfl
  | cons entry entries inductionHypothesis =>
      cases entry with
      | none =>
          rw [passMethods, List.reduceOption_cons_of_none]
          exact inductionHypothesis reached
      | some im =>
          rw [passMethods, List.reduceOption_cons_of_some]
          by_cases isStatic : im.isStatic = true
          · rw [if_pos isStatic, List.filter_cons_of_neg (by simp [isMiranda, isStatic])]
            exact inductionHypothesis reached
          · rw [if_neg isStatic]
            by_cases excluded :
                notMiranda interfaces supers methods earlier im.name im.signature = true
            · rw [if_pos excluded, List.filter_cons_of_neg (by simp [isMiranda, excluded])]
              exact inductionHypothesis reached
            · rw [if_neg excluded,
                List.filter_cons_of_pos (by simp [isMiranda, isStatic, excluded]),
                List.foldlM_cons]
              congr
              funext next
              exact inductionHypothesis next

theorem passInterfaces_eq_foldlM
    (earlier ids : List Nat) (reached : state) :
    passInterfaces interfaces supers methods visit earlier ids reached =
      (mirandas interfaces supers methods earlier ids).foldlM visit reached := by
  induction ids generalizing earlier reached with
  | nil =>
      rfl
  | cons id ids inductionHypothesis =>
      rw [passInterfaces, mirandas, List.foldlM_append, passMethods_eq_foldlM]
      congr
      funext next
      exact inductionHypothesis (earlier ++ [id]) next

theorem foldlM_countVisit
    (ims : List Method) (found : Nat) :
    ims.foldlM countVisit found = .ok (found + ims.length) := by
  induction ims generalizing found with
  | nil =>
      rfl
  | cons im ims inductionHypothesis =>
      rw [List.foldlM_cons, countVisit, ok_bind, inductionHypothesis, List.length_cons]
      congr 1
      omega

/-- The second pass fills just the nulls that the first one has counted. -/
theorem foldlM_fillVisit
    (own added : List (Option MethodEntry)) (ims : List Method) :
    ims.foldlM (fillVisit own.length)
        (own ++ added ++ List.replicate ims.length none, added.length) =
      .ok (own ++ added ++ ims.map (fun im => some (.lazyError im)),
        added.length + ims.length) := by
  induction ims generalizing added with
  | nil =>
      simp [pure, Except.pure]
  | cons im ims inductionHypothesis =>
      have next := inductionHypothesis (added ++ [some (.lazyError im)])
      have inside : own.length + added.length <
          (own ++ added ++ List.replicate (im :: ims).length none).length := by
        simp
      have stored : (own ++ added ++ List.replicate (im :: ims).length none).set
          (own.length + added.length) (some (.lazyError im)) =
          own ++ (added ++ [some (.lazyError im)]) ++ List.replicate ims.length none := by
        rw [List.set_append_right _ _ (by simp)]
        simp [List.replicate_succ]
      rw [List.foldlM_cons, fillVisit]
      dsimp only
      rw [if_pos inside, ok_bind, stored]
      rw [List.length_append, List.length_singleton] at next
      rw [next]
      simp [Nat.add_comm, Nat.add_left_comm]

variable (interfaces methods) in
/-- What is added to the method array. -/
theorem addMirandaMethods_eq
    (all : List Nat)
    (rooted : supers = [] → all = []) :
    addMirandaMethods interfaces supers methods all =
      .ok (declaredEntries methods ++
        (mirandas interfaces supers methods [] all).map fun im => some (.lazyError im)) := by
  have nothing : mirandas interfaces supers methods [] [] = [] := rfl
  rw [addMirandaMethods]
  by_cases isRoot : supers = []
  · rw [if_pos isRoot, rooted isRoot]
    simp [nothing]
  · rw [if_neg isRoot]
    by_cases none : all = []
    · rw [if_pos none, none]
      simp [nothing]
    · have size : (declaredEntries methods).length = methods.length := by
        simp [declaredEntries]
      rw [if_neg none, passInterfaces_eq_foldlM, foldlM_countVisit, ok_bind, Nat.zero_add]
      by_cases isZero : (mirandas interfaces supers methods [] all).length = 0
      · rw [if_pos isZero, List.length_eq_zero_iff.mp isZero]
        simp
      · have filled := foldlM_fillVisit (declaredEntries methods) []
          (mirandas interfaces supers methods [] all)
        rw [List.append_nil, size] at filled
        rw [if_neg isZero]
        dsimp only
        rw [passInterfaces_eq_foldlM]
        have started : ([] : List (Option MethodEntry)).length = 0 := rfl
        rw [started] at filled
        rw [filled, ok_bind]

end Visited

/-! ## Exactly one entry for each -/

theorem holdsMatching_iff
    {name signature : String} {also : Method → Bool} {entries : List (Option Method)} :
    holdsMatching name signature also entries = true ↔
      ∃ method, some method ∈ entries ∧ method.matches name signature = true ∧
        also method = true := by
  rw [holdsMatching, List.any_eq_true]
  constructor
  · rintro ⟨entry, member, holds⟩
    cases entry with
    | none =>
        simp at holds
    | some method =>
        rw [Bool.and_eq_true] at holds
        exact ⟨method, member, holds⟩
  · rintro ⟨method, member, matched, holds⟩
    refine ⟨some method, member, ?_⟩
    rw [Bool.and_eq_true]
    exact ⟨matched, holds⟩

theorem matches_iff
    {method : Method} {name signature : String} :
    method.matches name signature = true ↔ method.name = name ∧ method.signature = signature := by
  rw [Method.matches, decide_eq_true_iff]

namespace InterfaceMethods

/-- An interface has a method with a name and a signature that is not static. -/
def Declares (interfaces : InterfaceMethods) (id : Nat) (name signature : String) : Prop :=
  ∃ im, some im ∈ interfaces.methods id ∧ im.isStatic = false ∧
    im.matches name signature = true

variable {interfaces : InterfaceMethods}

theorem methods_eq_nil_or_mem (id : Nat) :
    interfaces.methods id = [] ∨ interfaces.methods id ∈ interfaces.arrays := by
  rw [methods, List.getD_eq_getElem?_getD]
  cases found : interfaces.arrays[id]? with
  | none =>
      exact .inl rfl
  | some entries =>
      exact .inr (List.mem_of_getElem? found)

theorem methods_distinct (id : Nat) :
    (interfaces.methods id).reduceOption.Pairwise fun method other =>
      ¬ SameSignature method other := by
  rcases interfaces.methods_eq_nil_or_mem id with isEmpty | isArray
  · rw [isEmpty]
    exact List.Pairwise.nil
  · exact interfaces.distinct _ isArray

theorem methods_static_iff
    {id : Nat} {method : Method}
    (member : some method ∈ interfaces.methods id) :
    method.isStatic = true ↔ method.name = "<clinit>" := by
  rcases interfaces.methods_eq_nil_or_mem id with isEmpty | isArray
  · rw [isEmpty] at member
    cases member
  · exact interfaces.static_iff _ isArray method (List.reduceOption_mem_iff.mpr member)

theorem Declares.holds
    {id : Nat} {name signature : String}
    (declares : interfaces.Declares id name signature) :
    holdsMatching name signature (fun _ => true) (interfaces.methods id) = true := by
  obtain ⟨im, member, _, matched⟩ := declares
  exact holdsMatching_iff.2 ⟨im, member, matched, rfl⟩

theorem Declares.ne_initialiser
    {id : Nat} {name signature : String}
    (declares : interfaces.Declares id name signature) :
    name ≠ "<clinit>" := by
  obtain ⟨im, member, notStatic, matched⟩ := declares
  intro isInitialiser
  have isStatic := (methods_static_iff member).mpr
    ((matches_iff.1 matched).1.trans isInitialiser)
  rw [isStatic] at notStatic
  cases notStatic

theorem declares_of_holds
    {id : Nat} {name signature : String}
    (notInitialiser : name ≠ "<clinit>")
    (holds : holdsMatching name signature (fun _ => true) (interfaces.methods id) = true) :
    interfaces.Declares id name signature := by
  obtain ⟨im, member, matched, _⟩ := holdsMatching_iff.1 holds
  refine ⟨im, member, ?_, matched⟩
  rw [Bool.eq_false_iff]
  intro isStatic
  have isInitialiser := (methods_static_iff member).mp isStatic
  exact notInitialiser ((matches_iff.1 matched).1.symm.trans isInitialiser)

end InterfaceMethods

/-- Of methods that are distinct no two have the same name and signature. -/
theorem countP_matches_le_one
    {entries : List Method} {name signature : String}
    (distinct : entries.Pairwise fun method other => ¬ SameSignature method other) :
    entries.countP (fun method => method.matches name signature) ≤ 1 := by
  induction entries with
  | nil =>
      simp
  | cons method entries inductionHypothesis =>
      have ⟨others, rest⟩ := List.pairwise_cons.mp distinct
      by_cases matched : method.matches name signature = true
      · have noOther : entries.countP (fun method => method.matches name signature) = 0 := by
          rw [List.countP_eq_zero]
          intro other member alsoMatched
          have first := matches_iff.1 matched
          have second := matches_iff.1 alsoMatched
          exact others other member
            ⟨first.1.trans second.1.symm, first.2.trans second.2.symm⟩
        simp [matched, noOther]
      · have bound := inductionHypothesis rest
        simpa [List.countP_cons, matched] using bound

section Entries

variable {interfaces : InterfaceMethods} {supers : List Klass} {methods : List (Option Method)}

theorem isMiranda_iff
    {earlier : List Nat} {im : Method} :
    isMiranda interfaces supers methods earlier im = true ↔
      im.isStatic = false ∧
        notMiranda interfaces supers methods earlier im.name im.signature = false := by
  simp [isMiranda]

theorem notMiranda_append
    (earlier : List Nat) (id : Nat) (name signature : String) :
    notMiranda interfaces supers methods (earlier ++ [id]) name signature =
      (notMiranda interfaces supers methods earlier name signature ||
        holdsMatching name signature (fun _ => true) (interfaces.methods id)) := by
  simp [notMiranda, declaredEarlier, Bool.or_assoc]

variable (interfaces supers methods)

/-- One interface adds at most one method with a name and a signature. -/
theorem countP_one_interface
    (earlier : List Nat) (id : Nat) (name signature : String) :
    let added := (interfaces.methods id).reduceOption.filter
      (isMiranda interfaces supers methods earlier)
    added.countP (fun im => im.matches name signature) ≤ 1 ∧
      (0 < added.countP (fun im => im.matches name signature) ↔
        interfaces.Declares id name signature ∧
          notMiranda interfaces supers methods earlier name signature = false) := by
  intro added
  constructor
  · exact countP_matches_le_one ((interfaces.methods_distinct id).sublist List.filter_sublist)
  · rw [List.countP_pos_iff]
    constructor
    · rintro ⟨im, member, matched⟩
      have ⟨listed, chosen⟩ := List.mem_filter.mp member
      have ⟨notStatic, included⟩ := isMiranda_iff.1 chosen
      have ⟨sameName, sameSignature⟩ := matches_iff.1 matched
      rw [sameName, sameSignature] at included
      exact ⟨⟨im, List.reduceOption_mem_iff.mp listed, notStatic, matched⟩, included⟩
    · rintro ⟨⟨im, member, notStatic, matched⟩, included⟩
      refine ⟨im, List.mem_filter.mpr ⟨List.reduceOption_mem_iff.mpr member, ?_⟩, matched⟩
      have ⟨sameName, sameSignature⟩ := matches_iff.1 matched
      rw [← sameName, ← sameSignature] at included
      exact isMiranda_iff.2 ⟨notStatic, included⟩

/-- The induction is on the interfaces that are left; those before are in `earlier`. -/
theorem countP_mirandas
    (earlier ids : List Nat) (name signature : String) :
    let added := mirandas interfaces supers methods earlier ids
    added.countP (fun im => im.matches name signature) ≤ 1 ∧
      (0 < added.countP (fun im => im.matches name signature) ↔
        (∃ id ∈ ids, interfaces.Declares id name signature) ∧
          notMiranda interfaces supers methods earlier name signature = false) := by
  induction ids generalizing earlier with
  | nil =>
      simp [mirandas]
  | cons id ids inductionHypothesis =>
      intro added
      have ⟨firstBound, firstIff⟩ :=
        countP_one_interface interfaces supers methods earlier id name signature
      have ⟨restBound, restIff⟩ := inductionHypothesis (earlier ++ [id])
      rw [notMiranda_append, Bool.or_eq_false_iff] at restIff
      have total : added.countP (fun im => im.matches name signature) =
          ((interfaces.methods id).reduceOption.filter
              (isMiranda interfaces supers methods earlier)).countP
              (fun im => im.matches name signature) +
            (mirandas interfaces supers methods (earlier ++ [id]) ids).countP
              (fun im => im.matches name signature) :=
        List.countP_append
      rw [total]
      by_cases declares : interfaces.Declares id name signature
      · have isHeld := declares.holds
        have noLater := restIff.not.mpr (by simp [isHeld])
        have here : (∃ other ∈ id :: ids, interfaces.Declares other name signature) :=
          ⟨id, List.mem_cons_self, declares⟩
        refine ⟨by omega, ?_⟩
        rw [and_iff_right here]
        rw [and_iff_right declares] at firstIff
        rw [← firstIff]
        omega
      · have notHere := firstIff.not.mpr (fun both => declares both.1)
        have later : (∃ other ∈ id :: ids, interfaces.Declares other name signature) ↔
            ∃ other ∈ ids, interfaces.Declares other name signature := by
          simp [declares]
        refine ⟨by omega, ?_⟩
        rw [later]
        constructor
        · intro positive
          have ⟨isLater, included, _⟩ := restIff.mp (by omega)
          exact ⟨isLater, included⟩
        · rintro ⟨isLater, included⟩
          have ⟨other, _, declaredLater⟩ := isLater
          have notHeld :
              holdsMatching name signature (fun _ => true) (interfaces.methods id) = false := by
            rw [Bool.eq_false_iff]
            intro holds
            exact declares
              (InterfaceMethods.declares_of_holds declaredLater.ne_initialiser holds)
          have positive := restIff.mpr ⟨isLater, included, notHeld⟩
          omega

variable {interfaces supers methods}

theorem mem_mirandas
    {earlier ids : List Nat} {im : Method}
    (member : im ∈ mirandas interfaces supers methods earlier ids) :
    ∃ id ∈ ids, some im ∈ interfaces.methods id ∧ im.isStatic = false := by
  induction ids generalizing earlier with
  | nil =>
      cases member
  | cons id ids inductionHypothesis =>
      rcases List.mem_append.mp member with isHere | isLater
      · have ⟨listed, chosen⟩ := List.mem_filter.mp isHere
        exact ⟨id, List.mem_cons_self, List.reduceOption_mem_iff.mp listed,
          (isMiranda_iff.1 chosen).1⟩
      · obtain ⟨other, isOther, found⟩ := inductionHypothesis isLater
        exact ⟨other, List.mem_cons_of_mem id isOther, found⟩

end Entries

/-! ## What the method array is for -/

/-- A method of a super interface that is neither declared by the class nor answered by a
superclass: by a public method of its vtable, or by a final method. -/
structure Needed (interfaces : InterfaceMethods) (graph : InterfaceGraph) (locals : List Nat)
    (supers : List Klass) (methods : List (Option Method)) (name signature : String) : Prop where
  declared : ∃ id, graph.SuperOf locals id ∧ interfaces.Declares id name signature
  notLocal : ∀ method, some method ∈ methods → method.matches name signature = false
  notPublic : ∀ super ∈ supers.head?, ∀ method, some method ∈ super.vtable →
    method.matches name signature = true → method.access ≠ .isPublic
  notFinal : ∀ super ∈ supers, ∀ method, some method ∈ super.methods →
    method.matches name signature = true → method.isFinal = false

section Main

variable {interfaces : InterfaceMethods} {supers : List Klass} {methods : List (Option Method)}

theorem declaresLocally_iff
    {name signature : String} :
    declaresLocally methods name signature = false ↔
      ∀ method, some method ∈ methods → method.matches name signature = false := by
  rw [declaresLocally, Bool.eq_false_iff, ne_eq, holdsMatching_iff]
  simp

theorem publicInVtable_iff
    {name signature : String} :
    publicInVtable supers name signature = false ↔
      ∀ super ∈ supers.head?, ∀ method, some method ∈ super.vtable →
        method.matches name signature = true → method.access ≠ .isPublic := by
  cases supers with
  | nil =>
      simp [publicInVtable]
  | cons super supers =>
      simp only [publicInVtable, List.head?_cons, Option.any_some]
      rw [Bool.eq_false_iff, ne_eq, holdsMatching_iff]
      simp

theorem finalInSuper_iff
    {name signature : String} :
    finalInSuper supers name signature = false ↔
      ∀ super ∈ supers, ∀ method, some method ∈ super.methods →
        method.matches name signature = true → method.isFinal = false := by
  rw [finalInSuper, List.any_eq_false]
  apply forall₂_congr
  intro super _
  rw [holdsMatching_iff]
  simp

theorem needed_iff
    {graph : InterfaceGraph} {locals all : List Nat}
    (complete : ∀ id, id ∈ all ↔ graph.SuperOf locals id)
    {name signature : String} :
    Needed interfaces graph locals supers methods name signature ↔
      (∃ id ∈ all, interfaces.Declares id name signature) ∧
        notMiranda interfaces supers methods [] name signature = false := by
  have declared_iff : (∃ id ∈ all, interfaces.Declares id name signature) ↔
      ∃ id, graph.SuperOf locals id ∧ interfaces.Declares id name signature :=
    exists_congr fun id => and_congr_left' (complete id)
  have noneEarlier : declaredEarlier interfaces [] name signature = false := rfl
  rw [declared_iff, notMiranda, noneEarlier, Bool.or_false, Bool.or_eq_false_iff,
    Bool.or_eq_false_iff, declaresLocally_iff, publicInVtable_iff, finalInSuper_iff]
  constructor
  · intro needed
    exact ⟨needed.declared, ⟨needed.notLocal, needed.notPublic⟩, needed.notFinal⟩
  · rintro ⟨declared, ⟨notLocal, notPublic⟩, notFinal⟩
    exact ⟨declared, notLocal, notPublic, notFinal⟩

/-- For every class and every interface graph, both passes visit the same methods, which are put
behind those of the class: one for each name and signature that is needed. -/
theorem addMirandaMethods_adds_needed
    (interfaces : InterfaceMethods) (graph : InterfaceGraph) (locals : List Nat)
    (known : ∀ id ∈ locals, id < graph.classCount)
    {depth : Nat}
    (deep : graph.classCount < depth)
    (supers : List Klass) (methods : List (Option Method))
    (rooted : supers = [] → locals = []) :
    ∃ (count : Nat) (all : List Nat) (bitmap : Words) (added : List Method),
      allSuperInterfaces graph depth locals = .ok (count, all, count, bitmap) ∧
      passInterfaces interfaces supers methods countVisit [] all 0 = .ok added.length ∧
      addMirandaMethods interfaces supers methods all =
        .ok (declaredEntries methods ++ added.map fun im => some (.lazyError im)) ∧
      (∀ im ∈ added, ∃ id, graph.SuperOf locals id ∧ some im ∈ interfaces.methods id ∧
        im.isStatic = false) ∧
      (∀ name signature,
        (Needed interfaces graph locals supers methods name signature →
          added.countP (fun im => im.matches name signature) = 1) ∧
        (¬ Needed interfaces graph locals supers methods name signature →
          added.countP (fun im => im.matches name signature) = 0)) ∧
      ((∀ name signature, ¬ Needed interfaces graph locals supers methods name signature) →
        addMirandaMethods interfaces supers methods all = .ok (declaredEntries methods)) := by
  obtain ⟨count, all, bitmap, collected, _, complete⟩ :=
    InterfaceGraph.allSuperInterfaces_complete graph locals known deep
  have allRooted : supers = [] → all = [] := by
    intro isRoot
    rw [List.eq_nil_iff_forall_not_mem]
    intro id member
    obtain ⟨start, isLocal, _⟩ := (complete id).mp member
    rw [rooted isRoot] at isLocal
    cases isLocal
  have counts : ∀ name signature,
      (Needed interfaces graph locals supers methods name signature →
        (mirandas interfaces supers methods [] all).countP
          (fun im => im.matches name signature) = 1) ∧
      (¬ Needed interfaces graph locals supers methods name signature →
        (mirandas interfaces supers methods [] all).countP
          (fun im => im.matches name signature) = 0) := by
    intro name signature
    have ⟨bound, positive_iff⟩ :=
      countP_mirandas interfaces supers methods [] all name signature
    rw [← needed_iff complete] at positive_iff
    constructor
    · intro needed
      have positive := positive_iff.mpr needed
      omega
    · intro notNeeded
      have notPositive := positive_iff.not.mpr notNeeded
      omega
  have result := addMirandaMethods_eq interfaces methods all allRooted
  refine ⟨count, all, bitmap, mirandas interfaces supers methods [] all, collected, ?_, result,
    ?_, counts, ?_⟩
  · rw [passInterfaces_eq_foldlM, foldlM_countVisit, Nat.zero_add]
  · intro im member
    obtain ⟨id, isListed, found⟩ := mem_mirandas member
    exact ⟨id, (complete id).mp isListed, found⟩
  · intro noneNeeded
    have nothing : mirandas interfaces supers methods [] all = [] := by
      rw [List.eq_nil_iff_forall_not_mem]
      intro im member
      have isZero := (counts im.name im.signature).2 (noneNeeded im.name im.signature)
      rw [List.countP_eq_zero] at isZero
      exact isZero im member (matches_iff.2 ⟨rfl, rfl⟩)
    rw [result, nothing, List.map_nil, List.append_nil]

end Main

/-! ## A class that needs one method, and one that inherits a protected method -/

/-- `interface Task extends Runnable { void stop(); }`, where `Runnable` has `run`. -/
def taskMethods : InterfaceMethods where
  arrays :=
    [[], [some ⟨"stop", "()V", .isPublic, false, false, 1⟩],
      [none, some ⟨"run", "()V", .isPublic, false, false, 2⟩]]
  distinct := by decide
  static_iff := by decide

/-- The class ids of `java.lang.Object`, `Task` and `Runnable`. -/
def taskGraph : InterfaceGraph where
  localInterfaces := [[], [2], []]
  known := by decide

/-- A superclass with a method `run`. -/
def worker (access : Access) : Klass where
  classId := 3
  className := "Worker"
  isAbstract := false
  isFinal := false
  methods := [some ⟨"run", "()V", access, false, false, 3⟩]
  vtable := [some ⟨"run", "()V", access, false, false, 3⟩]
  localInterfaces := []
  initialisedInterfaces := []

/-- A public or protected method of a superclass is inherited, whatever its package is. -/
def Inherits (supers : List Klass) (name signature : String) : Prop :=
  ∃ super ∈ supers, ∃ method, some method ∈ super.methods ∧
    method.matches name signature = true ∧
      (method.access = .isPublic ∨ method.access = .isProtected)

theorem task_adds_needed :
    ∃ (count : Nat) (all : List Nat) (bitmap : Words) (added : List Method),
      allSuperInterfaces taskGraph 4 [1] = .ok (count, all, count, bitmap) ∧
      passInterfaces taskMethods [worker .isPublic] [] countVisit [] all 0 = .ok added.length ∧
      addMirandaMethods taskMethods [worker .isPublic] [] all =
        .ok (declaredEntries [] ++ added.map fun im => some (.lazyError im)) ∧
      (∀ im ∈ added, ∃ id, taskGraph.SuperOf [1] id ∧ some im ∈ taskMethods.methods id ∧
        im.isStatic = false) ∧
      (∀ name signature,
        (Needed taskMethods taskGraph [1] [worker .isPublic] [] name signature →
          added.countP (fun im => im.matches name signature) = 1) ∧
        (¬ Needed taskMethods taskGraph [1] [worker .isPublic] [] name signature →
          added.countP (fun im => im.matches name signature) = 0)) ∧
      ((∀ name signature, ¬ Needed taskMethods taskGraph [1] [worker .isPublic] [] name signature) →
        addMirandaMethods taskMethods [worker .isPublic] [] all = .ok (declaredEntries [])) :=
  addMirandaMethods_adds_needed taskMethods taskGraph [1] (by decide) (by decide)
    [worker .isPublic] [] (fun isRoot => absurd isRoot (List.cons_ne_nil _ _))

/-- A protected method that is inherited gets an entry all the same. -/
theorem protectedRun_added :
    ¬ ∃ added : List Method,
      addMirandaMethods taskMethods [worker .isProtected] [] [1, 2] =
        .ok (declaredEntries [] ++ added.map fun im => some (.lazyError im)) ∧
      ∀ name signature,
        0 < added.countP (fun im => im.matches name signature) ↔
          (∃ id ∈ [1, 2], taskMethods.Declares id name signature) ∧
            declaresLocally [] name signature = false ∧
              ¬ Inherits [worker .isProtected] name signature := by
  rintro ⟨added, result, exactly⟩
  have computed : addMirandaMethods taskMethods [worker .isProtected] [] [1, 2] =
      .ok [some (.lazyError ⟨"stop", "()V", .isPublic, false, false, 1⟩),
        some (.lazyError ⟨"run", "()V", .isPublic, false, false, 2⟩)] := by
    decide
  have same := Except.ok.inj (computed.symm.trans result)
  have isAdded : (⟨"run", "()V", .isPublic, false, false, 2⟩ : Method) ∈ added := by
    have member : some (MethodEntry.lazyError ⟨"run", "()V", .isPublic, false, false, 2⟩) ∈
        declaredEntries [] ++ added.map fun im => some (.lazyError im) := by
      rw [← same]
      simp
    simpa [declaredEntries] using member
  have positive : 0 < added.countP (fun im => im.matches "run" "()V") :=
    List.countP_pos_iff.mpr ⟨_, isAdded, by decide⟩
  apply ((exactly "run" "()V").mp positive).2.2
  exact ⟨worker .isProtected, List.mem_singleton.mpr rfl,
    ⟨"run", "()V", .isProtected, false, false, 3⟩, by decide, by decide, .inr rfl⟩

end PicoJvm.Loading
