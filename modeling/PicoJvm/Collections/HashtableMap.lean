import Mathlib.Data.List.Nodup
import Mathlib.Data.List.Perm.Subperm
import PicoJvm.Collections.Hashtable

/-!
# Hashtable as a map

A finite map from keys, taken up to `equals`, to values, and what holds of a table that represents
one.
-/

namespace PicoJvm.Collections

open PicoJvm.Lib PicoJvm.Lib.Machine

variable {key value : Type} (objects : Objects key value)

/-! ## Finite maps -/

/-- Keys of which no two are equal. -/
def Apart (binding binding' : key × value) : Prop :=
  objects.equals binding.1 binding'.1 = false

/-- What a finite map has for a key. -/
def lookup (bindings : List (key × value)) (k : key) : Option value :=
  (bindings.find? fun binding => objects.equals binding.1 k).map Prod.snd

/-- A map with another value for a key. -/
def insert (bindings : List (key × value)) (k : key) (v : value) : List (key × value) :=
  if bindings.any fun binding => objects.equals binding.1 k then
    bindings.map fun binding => if objects.equals binding.1 k then (binding.1, v) else binding
  else
    (k, v) :: bindings

/-- A map without a key. -/
def erase (bindings : List (key × value)) (k : key) : List (key × value) :=
  bindings.filter fun binding => !objects.equals binding.1 k

/-- What a call comes to for a map, and what the map is behind it. -/
def mapStep (bindings : List (key × value)) :
    Operation key value → Answer value × List (key × value)
  | .put _ (some k) (some v) => (.value (lookup objects bindings k), insert objects bindings k v)
  | .put _ _ _ => (.thrown .nullPointer, bindings)
  | .get (some k) => (.value (lookup objects bindings k), bindings)
  | .get none => (.thrown .nullPointer, bindings)
  | .remove (some k) => (.value (lookup objects bindings k), erase objects bindings k)
  | .remove none => (.thrown .nullPointer, bindings)
  | .containsKey (some k) => (.truth (lookup objects bindings k).isSome, bindings)
  | .containsKey none => (.thrown .nullPointer, bindings)
  | .contains (some v) =>
      (.truth (bindings.any fun binding => objects.valueEquals binding.2 v), bindings)
  | .contains none => (.thrown .nullPointer, bindings)
  | .clear => (.done, [])

/-- `equals` is an equivalence, and equal keys have the same hash code. -/
structure Objects.Consistent : Prop where
  refl : ∀ k, objects.equals k k = true
  symm : ∀ k k', objects.equals k k' = true → objects.equals k' k = true
  trans : ∀ k k' k'', objects.equals k k' = true → objects.equals k' k'' = true →
    objects.equals k k'' = true
  hash : ∀ k k', objects.equals k k' = true → objects.hashCode k = objects.hashCode k'

variable {objects}

theorem Objects.Consistent.equals_comm (consistent : objects.Consistent) (k k' : key) :
    objects.equals k k' = objects.equals k' k := by
  rw [Bool.eq_iff_iff]
  exact ⟨consistent.symm k k', consistent.symm k' k⟩

/-- With an equal key the same keys are equal. -/
theorem Objects.Consistent.equals_congr
    (consistent : objects.Consistent)
    {k k' : key}
    (equal : objects.equals k k' = true)
    (k'' : key) :
    objects.equals k'' k = objects.equals k'' k' := by
  rw [Bool.eq_iff_iff]
  constructor
  · exact fun equal' => consistent.trans _ _ _ equal' equal
  · exact fun equal' => consistent.trans _ _ _ equal' (consistent.symm _ _ equal)

theorem apart_symm
    (consistent : objects.Consistent)
    {binding binding' : key × value}
    (apart : Apart objects binding binding') :
    Apart objects binding' binding := by
  rw [Apart, consistent.equals_comm]
  exact apart

theorem pairwise_apart_perm
    (consistent : objects.Consistent)
    {bindings bindings' : List (key × value)}
    (perm : bindings.Perm bindings')
    (apart : bindings.Pairwise (Apart objects)) :
    bindings'.Pairwise (Apart objects) :=
  (perm.pairwise_iff (apart_symm consistent)).mp apart

theorem lookup_eq_none
    {bindings : List (key × value)} {k : key}
    (absent : ∀ binding ∈ bindings, objects.equals binding.1 k = false) :
    lookup objects bindings k = none := by
  rw [lookup, Option.map_eq_none_iff, List.find?_eq_none]
  intro binding listed
  rw [absent binding listed]
  exact Bool.false_ne_true

theorem lookup_eq_some
    (consistent : objects.Consistent)
    {bindings : List (key × value)} {k : key} {binding : key × value}
    (apart : bindings.Pairwise (Apart objects))
    (listed : binding ∈ bindings)
    (equal : objects.equals binding.1 k = true) :
    lookup objects bindings k = some binding.2 := by
  obtain ⟨front, behind, rfl⟩ := List.append_of_mem listed
  have others : ∀ other ∈ front, objects.equals other.1 k = false := by
    intro other isOther
    have different := (List.pairwise_append.mp apart).2.2 other isOther binding List.mem_cons_self
    rw [← consistent.equals_congr equal]
    exact different
  have skipped : front.find? (fun other => objects.equals other.1 k) = none := by
    rw [List.find?_eq_none]
    intro other isOther
    rw [others other isOther]
    exact Bool.false_ne_true
  simp [lookup, List.find?_append, skipped, equal]

/-- With another value for a key, equal keys have that value. -/
theorem lookup_insert
    (consistent : objects.Consistent)
    (bindings : List (key × value))
    (k k' : key)
    (v : value) :
    lookup objects (insert objects bindings k v) k' =
      if objects.equals k k' then some v else lookup objects bindings k' := by
  rw [insert]
  split
  · next present =>
      rw [lookup, List.find?_map, lookup]
      have sameKey : ((fun binding => objects.equals binding.1 k') ∘ fun binding : key × value =>
          if objects.equals binding.1 k then (binding.1, v) else binding) =
            fun binding => objects.equals binding.1 k' := by
        funext binding
        simp only [Function.comp_apply]
        split <;> rfl
      rw [sameKey]
      split
      · next equal =>
          simp only [← consistent.equals_congr equal]
          obtain ⟨binding, listed, isEqual⟩ := List.any_eq_true.mp present
          have isSome :
              (bindings.find? fun binding => objects.equals binding.1 k).isSome = true :=
            List.find?_isSome.mpr ⟨binding, listed, isEqual⟩
          obtain ⟨found, isFound⟩ := Option.isSome_iff_exists.mp isSome
          have foundEqual : objects.equals found.1 k = true := by
            simpa only using List.find?_some isFound
          simp [isFound, foundEqual]
      · next different =>
          cases isFound : bindings.find? fun binding => objects.equals binding.1 k' with
          | none => rfl
          | some found =>
              have foundEqual : objects.equals found.1 k' = true := by
                simpa only using List.find?_some isFound
              have other : objects.equals found.1 k = false := by
                by_contra equal
                rw [Bool.not_eq_false] at equal
                exact different (consistent.trans _ _ _ (consistent.symm _ _ equal) foundEqual)
              simp [other]
  · rw [lookup, List.find?_cons, lookup]
    cases objects.equals k k' <;> rfl

/-- Without a key, equal keys have no value. -/
theorem lookup_erase
    (consistent : objects.Consistent)
    (bindings : List (key × value))
    (k k' : key) :
    lookup objects (erase objects bindings k) k' =
      if objects.equals k k' then none else lookup objects bindings k' := by
  rw [lookup, erase, List.find?_filter, lookup]
  split
  · next equal =>
      rw [Option.map_eq_none_iff, List.find?_eq_none]
      intro binding _
      rw [consistent.equals_congr equal]
      simp
  · next different =>
      congr 2
      funext binding
      cases equal : objects.equals binding.1 k' with
      | false => simp
      | true =>
          have other : objects.equals binding.1 k = false := by
            by_contra isEqual
            rw [Bool.not_eq_false] at isEqual
            exact different (consistent.trans _ _ _ (consistent.symm _ _ isEqual) equal)
          simp [other]

/-! ## Tables that represent a map -/

/-- What the entries at some addresses bind. -/
def bindingsOf (entries : List (Entry key value)) (cells : List Nat) : List (key × value) :=
  cells.filterMap fun e => entries[e]?.map fun entry => (entry.key, entry.value)

/-- The cells of every bucket. -/
structure Holds (objects : Objects key value) (hashtable : Hashtable key value)
    (chains : List (List Nat)) : Prop where
  linked : LinkedAll hashtable.next hashtable.table chains
  nodup : chains.flatten.Nodup
  placed : ∀ index cells, chains[index]? = some cells → ∀ e ∈ cells, ∃ entry,
    hashtable.entries[e]? = some entry ∧ entry.hash = objects.hashCode entry.key ∧
      bucket entry.hash hashtable.table.length = index
  apart : (bindingsOf hashtable.entries chains.flatten).Pairwise (Apart objects)
  nonempty : 0 < hashtable.table.length
  bounded : (hashtable.table.length : Int) ≤ maxArrayLength

/-- The table represents the map. -/
def Represents (objects : Objects key value) (hashtable : Hashtable key value)
    (bindings : List (key × value)) : Prop :=
  ∃ chains, Holds objects hashtable chains ∧ (bindingsOf hashtable.entries chains.flatten).Perm bindings

section Holding

variable {hashtable : Hashtable key value} {chains : List (List Nat)}

theorem mem_bindingsOf {entries : List (Entry key value)} {cells : List Nat}
    {binding : key × value} :
    binding ∈ bindingsOf entries cells ↔
      ∃ e ∈ cells, ∃ entry, entries[e]? = some entry ∧ binding = (entry.key, entry.value) := by
  simp only [bindingsOf, List.mem_filterMap, Option.map_eq_some_iff]
  constructor
  · rintro ⟨e, isCell, entry, isEntry, same⟩
    exact ⟨e, isCell, entry, isEntry, same.symm⟩
  · rintro ⟨e, isCell, entry, isEntry, same⟩
    exact ⟨e, isCell, entry, isEntry, same.symm⟩

theorem Holds.entry_of_mem
    (holds : Holds objects hashtable chains)
    {e : Nat}
    (listed : e ∈ chains.flatten) :
    ∃ entry, hashtable.entries[e]? = some entry ∧ entry.hash = objects.hashCode entry.key := by
  obtain ⟨cells, isChain, inChain⟩ := List.mem_flatten.mp listed
  obtain ⟨index, isIndex⟩ := List.getElem?_of_mem isChain
  obtain ⟨entry, isEntry, isHash, _⟩ := holds.placed index cells isIndex e inChain
  exact ⟨entry, isEntry, isHash⟩

theorem Holds.length_lt_fuel
    (holds : Holds objects hashtable chains)
    {cells : List Nat}
    (listed : cells ∈ chains) :
    cells.length < hashtable.fuel := by
  have nodup : cells.Nodup := holds.nodup.sublist (List.sublist_flatten_of_mem listed)
  have inside : cells ⊆ List.range hashtable.entries.length := by
    intro e isCell
    obtain ⟨entry, isEntry, _⟩ :=
      holds.entry_of_mem (List.mem_flatten.mpr ⟨cells, listed, isCell⟩)
    exact List.mem_range.mpr (List.getElem?_eq_some_iff.mp isEntry).1
  have short := (nodup.subperm inside).length_le
  rw [List.length_range] at short
  exact Nat.lt_succ_of_le short

theorem bucket_lt (hash : UInt32) {length : Nat} (positive : 0 < length) :
    bucket hash length < length :=
  Nat.mod_lt _ positive

/-- The bucket of a key. -/
theorem Holds.bucket_chain
    (holds : Holds objects hashtable chains)
    (k : key) :
    ∃ cells, chains[bucket (objects.hashCode k) hashtable.table.length]? = some cells ∧
      Linked hashtable.next (hashtable.head (bucket (objects.hashCode k) hashtable.table.length)) cells ∧
        cells.length < hashtable.fuel := by
  obtain ⟨cells, isChain, linked⟩ := holds.linked.chain_at (bucket_lt _ holds.nonempty)
  exact ⟨cells, isChain, linked, holds.length_lt_fuel (List.mem_of_getElem? isChain)⟩

theorem hasKey_eq
    (consistent : objects.Consistent)
    {e : Nat} {entry : Entry key value}
    (isEntry : hashtable.entries[e]? = some entry)
    (isHash : entry.hash = objects.hashCode entry.key)
    (k : key) :
    hashtable.hasKey objects (objects.hashCode k) k e = objects.equals entry.key k := by
  rw [Hashtable.hasKey, isEntry]
  simp only [isHash]
  cases equal : objects.equals entry.key k with
  | false => exact Bool.and_false _
  | true => simp [consistent.hash _ _ equal]

/-- A key that no entry of its bucket has is not in the table. -/
theorem Holds.absent
    (holds : Holds objects hashtable chains)
    (consistent : objects.Consistent)
    {k : key} {cells : List Nat}
    (isChain : chains[bucket (objects.hashCode k) hashtable.table.length]? = some cells)
    (others : ∀ e ∈ cells, hashtable.hasKey objects (objects.hashCode k) k e = false) :
    ∀ binding ∈ bindingsOf hashtable.entries chains.flatten, objects.equals binding.1 k = false := by
  intro binding listed
  obtain ⟨e, isCell, entry, isEntry, rfl⟩ := mem_bindingsOf.1 listed
  obtain ⟨cells', isChain', inChain⟩ := List.mem_flatten.mp isCell
  obtain ⟨index, isIndex⟩ := List.getElem?_of_mem isChain'
  obtain ⟨entry', isEntry', isHash, isBucket⟩ := holds.placed index cells' isIndex e inChain
  rw [isEntry, Option.some.injEq] at isEntry'
  subst isEntry'
  by_contra equal
  rw [Bool.not_eq_false] at equal
  have sameHash : entry.hash = objects.hashCode k := isHash.trans (consistent.hash _ _ equal)
  rw [sameHash] at isBucket
  rw [isBucket, isIndex, Option.some.injEq] at isChain
  have accepted := hasKey_eq consistent isEntry isHash k
  rw [others e (isChain ▸ inChain), equal] at accepted
  cases accepted

/-- What the loop over the bucket of a key finds. -/
theorem Holds.find_cases
    (holds : Holds objects hashtable chains)
    (consistent : objects.Consistent)
    (k : key) :
    (hashtable.find objects k = some none ∧
        ∀ binding ∈ bindingsOf hashtable.entries chains.flatten, objects.equals binding.1 k = false) ∨
      ∃ e entry, hashtable.find objects k = some (some e) ∧ e ∈ chains.flatten ∧
        hashtable.entries[e]? = some entry ∧ objects.equals entry.key k = true := by
  obtain ⟨cells, isChain, linked, short⟩ := holds.bucket_chain k
  have isFind : hashtable.find objects k =
      some (cells.find? (hashtable.hasKey objects (objects.hashCode k) k)) :=
    searchChain_eq linked short
  cases found : cells.find? (hashtable.hasKey objects (objects.hashCode k) k) with
  | none =>
      left
      rw [found] at isFind
      rw [List.find?_eq_none] at found
      exact ⟨isFind, holds.absent consistent isChain fun e isCell => by simpa using found e isCell⟩
  | some e =>
      right
      rw [found] at isFind
      have isCell := List.mem_of_find?_eq_some found
      have accepted := List.find?_some found
      have listed : e ∈ chains.flatten :=
        List.mem_flatten.mpr ⟨cells, List.mem_of_getElem? isChain, isCell⟩
      obtain ⟨entry, isEntry, isHash⟩ := holds.entry_of_mem listed
      rw [hasKey_eq consistent isEntry isHash] at accepted
      exact ⟨e, entry, isFind, listed, isEntry, accepted⟩

/-! ## Queries -/

variable {bindings : List (key × value)}

/-- What the loop over the bucket of a key finds is what the map has. -/
theorem Represents.find_cases
    (represents : Represents objects hashtable bindings)
    (consistent : objects.Consistent)
    (k : key) :
    (hashtable.find objects k = some none ∧ lookup objects bindings k = none) ∨
      ∃ e entry, hashtable.find objects k = some (some e) ∧ hashtable.entries[e]? = some entry ∧
        lookup objects bindings k = some entry.value := by
  obtain ⟨chains, holds, perm⟩ := represents
  rcases holds.find_cases consistent k with
    ⟨isFind, absent⟩ | ⟨e, entry, isFind, listed, isEntry, equal⟩
  · left
    refine ⟨isFind, lookup_eq_none ?_⟩
    intro binding isBinding
    exact absent binding (perm.mem_iff.mpr isBinding)
  · right
    have isBinding : (entry.key, entry.value) ∈ bindings :=
      perm.mem_iff.mp (mem_bindingsOf.2 ⟨e, listed, entry, isEntry, rfl⟩)
    exact ⟨e, entry, isFind, isEntry,
      lookup_eq_some consistent (pairwise_apart_perm consistent perm holds.apart) isBinding equal⟩

theorem Represents.get
    (represents : Represents objects hashtable bindings)
    (consistent : objects.Consistent)
    (k : key) :
    hashtable.get objects (some k) = .value (lookup objects bindings k) := by
  rcases represents.find_cases consistent k with
    ⟨isFind, isLookup⟩ | ⟨e, entry, isFind, isEntry, isLookup⟩
  · simp [Hashtable.get, isFind, isLookup]
  · simp [Hashtable.get, isFind, isEntry, isLookup]

theorem Represents.containsKey
    (represents : Represents objects hashtable bindings)
    (consistent : objects.Consistent)
    (k : key) :
    hashtable.containsKey objects (some k) = .truth (lookup objects bindings k).isSome := by
  rcases represents.find_cases consistent k with
    ⟨isFind, isLookup⟩ | ⟨e, entry, isFind, _, isLookup⟩
  · simp [Hashtable.containsKey, isFind, isLookup]
  · simp [Hashtable.containsKey, isFind, isLookup]

theorem any_bindingsOf (v : value) (cells : List Nat) :
    ((bindingsOf hashtable.entries cells).any fun binding =>
        objects.valueEquals binding.2 v) = cells.any (hashtable.hasValue objects v) := by
  induction cells with
  | nil =>
      rfl
  | cons e cells inductionHypothesis =>
      rw [List.any_cons, ← inductionHypothesis, bindingsOf, List.filterMap_cons,
        Hashtable.hasValue]
      cases hashtable.entries[e]? with
      | none => exact (Bool.false_or _).symm
      | some entry => rfl

theorem containsIn_eq
    {v : value} {heads : List (Option Nat)} {cells : List (List Nat)}
    (linked : LinkedAll hashtable.next heads cells)
    (short : ∀ chain ∈ cells, chain.length < hashtable.fuel) :
    hashtable.containsIn objects v heads =
      .truth (cells.flatten.any (hashtable.hasValue objects v)) := by
  induction linked with
  | nil =>
      rfl
  | cons first rest inductionHypothesis =>
      obtain ⟨shortFirst, shortRest⟩ := List.forall_mem_cons.mp short
      rw [Hashtable.containsIn, searchChain_eq first shortFirst, List.flatten_cons, List.any_append]
      cases found : List.find? (hashtable.hasValue objects v) _ with
      | none =>
          have others : List.any _ (hashtable.hasValue objects v) = false :=
            List.any_eq_false.mpr (List.find?_eq_none.mp found)
          rw [others, Bool.false_or]
          exact inductionHypothesis shortRest
      | some e =>
          have accepted : List.any _ (hashtable.hasValue objects v) = true :=
            List.any_eq_true.mpr ⟨e, List.mem_of_find?_eq_some found, List.find?_some found⟩
          rw [accepted, Bool.true_or]

theorem Represents.contains
    (represents : Represents objects hashtable bindings)
    (v : value) :
    hashtable.contains objects (some v) =
      .truth (bindings.any fun binding => objects.valueEquals binding.2 v) := by
  obtain ⟨chains, holds, perm⟩ := represents
  have reversed : LinkedAll hashtable.next hashtable.table.reverse chains.reverse :=
    List.rel_reverse holds.linked
  rw [Hashtable.contains, containsIn_eq reversed fun chain listed =>
    holds.length_lt_fuel (List.mem_reverse.mp listed), ← perm.any_eq, any_bindingsOf]
  congr 1
  exact (List.reverse_perm chains).flatten.any_eq

end Holding

end PicoJvm.Collections
