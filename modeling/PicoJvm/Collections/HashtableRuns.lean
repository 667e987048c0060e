import PicoJvm.Collections.HashtableEnumerator

/-!
# Histories of a hashtable

From its constructor on a hashtable answers like a finite map, also while it grows and when an
allocation fails, and its enumerations deliver what the map has.
-/

namespace PicoJvm.Collections

open PicoJvm.Lib PicoJvm.Lib.Machine

variable {key value : Type} {objects : Objects key value} {hashtable : Hashtable key value}

/-! ## Histories -/

/-- What a call may come to for a map, on a table of a length. -/
inductive MapStep (objects : Objects key value) (capacity : Nat) (bindings : List (key × value)) :
    Operation key value → Answer value → List (key × value) → Prop
  | performs (operation : Operation key value) :
      MapStep objects capacity bindings operation (mapStep objects bindings operation).1
        (mapStep objects bindings operation).2
  | refused {room : Room} {k : key} {v : value}
      (absent : lookup objects bindings k = none)
      (refused : Refused room capacity) :
      MapStep objects capacity bindings (.put room (some k) (some v)) (.thrown .outOfMemory)
        bindings

/-- Calls, one after the other, on a table and on a map. -/
inductive FollowsMap (objects : Objects key value) :
    Hashtable key value → List (key × value) → List (Operation key value) →
      Hashtable key value → List (key × value) → Prop
  | nil {hashtable : Hashtable key value} {bindings : List (key × value)} :
      FollowsMap objects hashtable bindings [] hashtable bindings
  | cons {hashtable final : Hashtable key value} {bindings bindings' ends : List (key × value)}
      {operation : Operation key value} {operations : List (Operation key value)}
      (step : MapStep objects hashtable.table.length bindings operation
        (hashtable.perform objects operation).1 bindings')
      (rest : FollowsMap objects (hashtable.perform objects operation).2 bindings' operations final
        ends) :
      FollowsMap objects hashtable bindings (operation :: operations) final ends

theorem Represents.put
    {bindings : List (key × value)}
    (represents : Represents objects hashtable bindings)
    (consistent : objects.Consistent)
    (room : Room)
    (k : key)
    (v : value) :
    ∃ bindings', MapStep objects hashtable.table.length bindings (.put room (some k) (some v))
        (hashtable.put objects room (some k) (some v)).1 bindings' ∧
      Represents objects (hashtable.put objects room (some k) (some v)).2 bindings' := by
  have enough : maxArrayLength + 1 < 2 ^ 32 * ((hashtable.table.length : Int) + 1) := by
    rw [maxArrayLength]
    omega
  rw [Hashtable.put]
  rcases putEntry_spec consistent room k v represents enough with
    ⟨answer, after⟩ | ⟨answer, after, absent, refused⟩
  · rw [answer]
    exact ⟨_, .performs (.put room (some k) (some v)), after⟩
  · rw [answer]
    exact ⟨_, .refused absent refused, after⟩

/-- Every call is one of the map. -/
theorem Represents.perform
    {bindings : List (key × value)}
    (represents : Represents objects hashtable bindings)
    (consistent : objects.Consistent)
    (operation : Operation key value) :
    ∃ bindings', MapStep objects hashtable.table.length bindings operation
        (hashtable.perform objects operation).1 bindings' ∧
      Represents objects (hashtable.perform objects operation).2 bindings' := by
  have performed : MapStep objects hashtable.table.length bindings operation
      (mapStep objects bindings operation).1 (mapStep objects bindings operation).2 :=
    .performs operation
  cases operation with
  | put room k v =>
      cases v with
      | none => exact ⟨bindings, by cases k <;> exact performed, represents⟩
      | some v =>
          cases k with
          | none => exact ⟨bindings, performed, represents⟩
          | some k => exact represents.put consistent room k v
  | get k =>
      cases k with
      | none => exact ⟨bindings, performed, represents⟩
      | some k =>
          refine ⟨bindings, ?_, represents⟩
          rw [Hashtable.perform, represents.get consistent]
          exact performed
  | remove k =>
      cases k with
      | none => exact ⟨bindings, performed, represents⟩
      | some k =>
          obtain ⟨answer, after⟩ := represents.remove consistent k
          refine ⟨_, ?_, after⟩
          rw [Hashtable.perform, answer]
          exact performed
  | containsKey k =>
      cases k with
      | none => exact ⟨bindings, performed, represents⟩
      | some k =>
          refine ⟨bindings, ?_, represents⟩
          rw [Hashtable.perform, represents.containsKey consistent]
          exact performed
  | contains v =>
      cases v with
      | none => exact ⟨bindings, performed, represents⟩
      | some v =>
          refine ⟨bindings, ?_, represents⟩
          rw [Hashtable.perform, represents.contains]
          exact performed
  | clear => exact ⟨[], performed, clear_represents represents⟩

theorem Represents.follows
    {bindings : List (key × value)}
    (represents : Represents objects hashtable bindings)
    (consistent : objects.Consistent)
    (operations : List (Operation key value)) :
    ∃ final ends, FollowsMap objects hashtable bindings operations final ends ∧
      Represents objects final ends := by
  induction operations generalizing hashtable bindings with
  | nil =>
      exact ⟨hashtable, bindings, .nil, represents⟩
  | cons operation operations inductionHypothesis =>
      obtain ⟨bindings', step, represents'⟩ := represents.perform consistent operation
      obtain ⟨final, ends, rest, isFinal⟩ := inductionHypothesis represents'
      exact ⟨final, ends, .cons step rest, isFinal⟩

theorem MapStep.unique
    {capacity : Nat} {bindings bindings₁ bindings₂ : List (key × value)}
    {operation : Operation key value} {answer : Answer value}
    (step₁ : MapStep objects capacity bindings operation answer bindings₁)
    (step₂ : MapStep objects capacity bindings operation answer bindings₂) :
    bindings₁ = bindings₂ := by
  generalize isAnswer : answer = answer' at step₂
  cases step₁ with
  | performs operation =>
      cases step₂ with
      | performs _ => rfl
      | refused absent refused => cases isAnswer
  | refused absent refused =>
      cases step₂ with
      | performs _ => cases isAnswer
      | refused _ _ => rfl

theorem FollowsMap.unique
    {bindings : List (key × value)} {operations : List (Operation key value)}
    {final₁ final₂ : Hashtable key value} {ends₁ ends₂ : List (key × value)}
    (follows₁ : FollowsMap objects hashtable bindings operations final₁ ends₁)
    (follows₂ : FollowsMap objects hashtable bindings operations final₂ ends₂) :
    final₁ = final₂ ∧ ends₁ = ends₂ := by
  induction follows₁ with
  | nil =>
      cases follows₂ with
      | nil => exact ⟨rfl, rfl⟩
  | cons step₁ rest₁ inductionHypothesis =>
      cases follows₂ with
      | cons step₂ rest₂ =>
          cases step₁.unique step₂
          exact inductionHypothesis rest₂

/-- A new table represents the empty map. -/
theorem new_represents
    {room : Room} {initialCapacity : Int}
    (objects : Objects key value)
    (created : new key value room initialCapacity = .ok hashtable) :
    Represents objects hashtable [] := by
  rw [new] at created
  split at created
  · cases created
  · next notNegative =>
      have nonneg : 0 ≤ (if initialCapacity = 0 then 1 else initialCapacity) := by
        split <;> omega
      have nonzero : (if initialCapacity = 0 then 1 else initialCapacity) ≠ 0 := by
        split <;> omega
      generalize (if initialCapacity = 0 then 1 else initialCapacity) = capacity
        at created nonneg nonzero
      rcases newTable_cases room nonneg with refused | granted
      · simp only [refused] at created
        cases created
      · simp only [granted.1, Except.ok.injEq] at created
        subst created
        have empty : (List.replicate capacity.toNat ([] : List Nat)).flatten = [] := by simp
        refine ⟨List.replicate capacity.toNat [], ?_, by rw [empty]; exact .nil⟩
        exact {
          linked := linkedAll_replicate _ _
          nodup := by simp
          placed := by
            intro index cells isChain e isCell
            rw [List.eq_of_mem_replicate (List.mem_of_getElem? isChain)] at isCell
            cases isCell
          apart := by
            rw [empty]
            exact .nil
          nonempty := by
            rw [List.length_replicate]
            omega
          bounded := by
            have short := granted.2
            rw [List.length_replicate, Int.toNat_of_nonneg nonneg]
            exact short }

/-! ## Enumerations -/

/-- The calls deliver every key, or every value, once as long as the calls ask for elements. -/
def EnumeratesOnce (hashtable : Hashtable key value) (bindings : List (key × value)) (keys : Bool)
    (calls : List Call) : Prop :=
  ∃ listing : List (key ⊕ value), listing.Perm (bindings.map (elementOf keys)) ∧
    Enumerator.elements hashtable keys (newEnumerator hashtable.table) calls =
      listing.take (calls.count .nextElement)

/-- No element is asked for once the index has wrapped around. -/
def InTime (hashtable : Hashtable key value) (bindings : List (key × value)) (calls : List Call) :
    Prop :=
  bindings = [] ∨ .nextElement ∉ wrapped hashtable.table.length bindings.length calls

theorem call_hasMoreElements (enumerator : Enumerator) (keys : Bool) :
    (enumerator.call hashtable keys .hasMoreElements).1.delivered = none := by
  rw [Enumerator.call, Enumerator.hasMoreElements]
  split
  · rfl
  · generalize enumerator.advance hashtable.table = result
    obtain ⟨moved, thrown⟩ := result
    cases thrown <;> rfl

/-- Without asking for elements none is delivered. -/
theorem elements_of_not_asked
    {calls : List Call}
    (notAsked : .nextElement ∉ calls)
    (enumerator : Enumerator)
    (keys : Bool) :
    Enumerator.elements hashtable keys enumerator calls = [] := by
  induction calls generalizing enumerator with
  | nil =>
      rfl
  | cons call calls inductionHypothesis =>
      rw [List.mem_cons, not_or] at notAsked
      cases call with
      | hasMoreElements =>
          rw [Enumerator.elements, call_hasMoreElements]
          exact inductionHypothesis notAsked.2 _
      | nextElement => exact absurd rfl notAsked.1

theorem count_of_pastEnd
    {count : Nat} {calls : List Call}
    (further : pastEnd count calls ≠ []) :
    count ≤ calls.count .nextElement := by
  induction calls generalizing count with
  | nil => exact absurd (pastEnd_nil count) further
  | cons call calls inductionHypothesis =>
      cases count with
      | zero => exact Nat.zero_le _
      | succ count =>
          cases call with
          | hasMoreElements =>
              have onwards : count + 1 ≤ calls.count .nextElement := inductionHypothesis further
              simpa using onwards
          | nextElement =>
              have onwards : count ≤ calls.count .nextElement := inductionHypothesis further
              simpa using onwards

theorem length_bindingsOf
    {entries : List (Entry key value)} {cells : List Nat}
    (valid : ∀ e ∈ cells, ∃ entry, entries[e]? = some entry) :
    (bindingsOf entries cells).length = cells.length := by
  induction cells with
  | nil => rfl
  | cons e cells inductionHypothesis =>
      obtain ⟨⟨entry, isEntry⟩, validRest⟩ := List.forall_mem_cons.mp valid
      rw [bindingsOf_cons isEntry, List.length_cons, List.length_cons,
        inductionHypothesis validRest]

/-- A table that represents a map enumerates a list of it, and then begins again. -/
theorem Represents.elements
    {bindings : List (key × value)}
    (represents : Represents objects hashtable bindings)
    (keys : Bool) :
    ∃ listing : List (key ⊕ value), listing.Perm (bindings.map (elementOf keys)) ∧
      ∀ calls, Enumerator.elements hashtable keys (newEnumerator hashtable.table) calls =
        listing.take (calls.count .nextElement) ++
          Enumerator.elements hashtable keys (newEnumerator hashtable.table)
            (wrapped hashtable.table.length bindings.length calls) := by
  obtain ⟨chains, holds, perm⟩ := represents
  have short : hashtable.table.length < 2147483648 := by
    have bounded := holds.bounded
    rw [maxArrayLength] at bounded
    omega
  have reordered : (inOrder chains).Perm chains.flatten := (List.reverse_perm chains).flatten
  have samePerm : (bindingsOf hashtable.entries (inOrder chains)).Perm bindings :=
    (reordered.filterMap _).trans perm
  have sameLength : (inOrder chains).length = bindings.length := by
    rw [← samePerm.length_eq, length_bindingsOf]
    intro e listed
    obtain ⟨entry, isEntry, _⟩ := holds.entry_of_mem (reordered.mem_iff.mp listed)
    exact ⟨entry, isEntry⟩
  refine ⟨_, samePerm.map (elementOf keys), ?_⟩
  intro calls
  have split := elements_new holds short keys calls
  rw [sameLength] at split
  exact split

/-- A table of an empty map enumerates nothing, however often it is asked. -/
theorem Represents.elements_nil
    (represents : Represents objects hashtable [])
    (keys : Bool)
    (calls : List Call) :
    Enumerator.elements hashtable keys (newEnumerator hashtable.table) calls = [] := by
  have bounded : hashtable.table.length < 4294967296 := by
    obtain ⟨chains, holds, _⟩ := represents
    have bounded := holds.bounded
    rw [maxArrayLength] at bounded
    omega
  obtain ⟨listing, perm, split⟩ := represents.elements keys
  rw [List.map_nil, List.perm_nil] at perm
  induction isLength : calls.length using Nat.strongRecOn generalizing calls with
  | _ length inductionHypothesis =>
      cases calls with
      | nil => rfl
      | cons call calls =>
          rw [split, perm, List.take_nil, List.nil_append]
          apply inductionHypothesis _ ?_ _ rfl
          rw [wrapped, List.length_nil, pastEnd, List.length_drop, ← isLength]
          rw [List.length_cons]
          omega

/-- The enumerations that deliver everything once. -/
theorem Represents.enumeratesOnce_iff
    {bindings : List (key × value)}
    (represents : Represents objects hashtable bindings)
    (keys : Bool)
    (calls : List Call) :
    EnumeratesOnce hashtable bindings keys calls ↔ InTime hashtable bindings calls := by
  obtain ⟨listing, perm, split⟩ := represents.elements keys
  constructor
  · rintro ⟨listing', perm', isListing'⟩
    by_contra late
    rw [InTime, not_or, not_not] at late
    obtain ⟨nonempty, asked⟩ := late
    have positive : 0 < bindings.length := List.length_pos_iff.mpr nonempty
    have sameLength : listing.length = bindings.length := by
      rw [perm.length_eq, List.length_map]
    have again : 0 < (Enumerator.elements hashtable keys (newEnumerator hashtable.table)
        (wrapped hashtable.table.length bindings.length calls)).length := by
      rw [split, List.length_append, List.length_take]
      have counted : 0 < (wrapped hashtable.table.length bindings.length calls).count .nextElement :=
        List.count_pos_iff.mpr asked
      omega
    have further : pastEnd bindings.length calls ≠ [] := by
      intro none_left
      rw [wrapped, none_left, List.drop_nil] at asked
      cases asked
    have enough := count_of_pastEnd further
    have lengths := congrArg List.length (isListing'.symm.trans (split calls))
    rw [List.length_take, perm'.length_eq, List.length_map, List.length_append, List.length_take,
      sameLength] at lengths
    omega
  · intro inTime
    refine ⟨listing, perm, ?_⟩
    rw [split calls]
    rcases inTime with rfl | notAsked
    · rw [represents.elements_nil, List.append_nil]
    · rw [elements_of_not_asked notAsked, List.append_nil]

/-! ## Finite maps -/

/-- The calls are those of a finite map, and so is an enumeration behind them. -/
def IsFiniteMap (objects : Objects key value) (hashtable : Hashtable key value)
    (operations : List (Operation key value)) (keys : Bool) (calls : List Call) : Prop :=
  ∃ final bindings, FollowsMap objects hashtable [] operations final bindings ∧
    EnumeratesOnce final bindings keys calls

/-- Numbers as keys and values. -/
def numbers : Objects Nat Nat where
  equals := fun k k' => k == k'
  hashCode := UInt32.ofNat
  valueEquals := fun v v' => v == v'

theorem numbers_consistent : numbers.Consistent where
  refl := by simp [numbers]
  symm := by
    intro k k' equal
    simp only [numbers, beq_iff_eq] at equal ⊢
    exact equal.symm
  trans := by
    intro k k' k'' equal equal'
    simp only [numbers, beq_iff_eq] at equal equal' ⊢
    exact equal.trans equal'
  hash := by
    intro k k' equal
    simp only [numbers, beq_iff_eq] at equal
    rw [equal]

/-- Enough room. -/
def roomy : Room :=
  { table := fun _ => true, entry := true }

/-- What the default constructor makes. -/
def elevenBuckets : Hashtable Nat Nat :=
  { entries := [], table := List.replicate 11 none, count := 0, threshold := 8 }

theorem elevenBuckets_created : new Nat Nat roomy 11 = .ok elevenBuckets := by
  decide +kernel

/-- A key is put into the table. -/
def putOne : List (Operation Nat Nat) :=
  [.put roomy (some 3) (some 5)]

/-- The element is taken, and the end is found again and again, before an element is asked for. -/
def lateCalls (times : Nat) : List Call :=
  .nextElement :: (List.replicate times .hasMoreElements ++ [.nextElement])

theorem wrapped_lateCalls (capacity : Nat) :
    wrapped capacity 1 (lateCalls (4294967296 - capacity)) = [.nextElement] := by
  rw [wrapped, lateCalls, pastEnd, pastEnd]
  exact List.drop_left' List.length_replicate

theorem putOne_follows :
    ∃ final, FollowsMap numbers elevenBuckets [] putOne final [(3, 5)] ∧
      final.table.length = 11 := by
  have answer : (elevenBuckets.perform numbers (.put roomy (some 3) (some 5))).1 = .value none := by
    decide
  refine ⟨_, .cons ?_ .nil, by decide⟩
  rw [answer]
  exact .performs _

theorem putOne_represents
    {final : Hashtable Nat Nat} {bindings : List (Nat × Nat)}
    (follows : FollowsMap numbers elevenBuckets [] putOne final bindings) :
    Represents numbers final bindings ∧ bindings = [(3, 5)] ∧ final.table.length = 11 := by
  obtain ⟨final', follows', isLength⟩ := putOne_follows
  obtain ⟨final'', bindings'', follows'', represents⟩ :=
    (new_represents numbers elevenBuckets_created).follows numbers_consistent putOne
  obtain ⟨rfl, rfl⟩ := follows.unique follows'
  obtain ⟨rfl, rfl⟩ := follows.unique follows''
  exact ⟨represents, rfl, isLength⟩

end PicoJvm.Collections
