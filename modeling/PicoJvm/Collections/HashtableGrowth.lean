import Mathlib.Tactic.Ring
import PicoJvm.Collections.HashtableChanges

/-!
# Growth of a hashtable

`rehash` links the entries anew, one after the other, into the buckets of a longer table. The map
stays, and `put` comes to an end however often it has to grow the table.
-/

namespace PicoJvm.Collections

open PicoJvm.Lib PicoJvm.Lib.Machine

variable {key value : Type} {objects : Objects key value}

/-! ## Relinking -/

/-- The links of entries. -/
def nextIn (entries : List (Entry key value)) (e : Nat) : Option Nat :=
  entries[e]?.bind Entry.next

/-- What does not change of an entry. -/
def Entry.data (entry : Entry key value) : UInt32 × key × value :=
  (entry.hash, entry.key, entry.value)

/-- Entries are being linked into a new table: some are in its buckets, others are still to come. -/
structure Relinked (original : List (Entry key value)) (newCapacity : Nat)
    (state : List (Entry key value) × List (Option Nat)) (chains : List (List Nat))
    (todo : List Nat) : Prop where
  data : ∀ e : Nat, state.1[e]?.map Entry.data = original[e]?.map Entry.data
  linked : LinkedAll (nextIn state.1) state.2 chains
  sameLength : state.2.length = newCapacity
  nodup : (todo ++ chains.flatten).Nodup
  placed : ∀ index cells, chains[index]? = some cells → ∀ e ∈ cells, ∃ entry,
    original[e]? = some entry ∧ bucket entry.hash newCapacity = index
  inside : ∀ e ∈ todo, ∃ entry, original[e]? = some entry

theorem setNext_data (entries : List (Entry key value)) (e : Nat) (next : Option Nat) (other : Nat) :
    (setNext entries e next)[other]?.map Entry.data = entries[other]?.map Entry.data := by
  rw [setNext_entries, Option.map_map]
  congr 1
  funext entry
  simp only [Function.comp_apply]
  split <;> rfl

theorem nextIn_setNext_of_ne
    {entries : List (Entry key value)} {e other : Nat}
    (different : e ≠ other)
    (next : Option Nat) :
    nextIn (setNext entries e next) other = nextIn entries other := by
  rw [nextIn, nextIn, setNext_entries]
  cases entries[other]? <;> simp [different]

section Relinking

variable {original entries : List (Entry key value)} {newCapacity : Nat}
  {newTable : List (Option Nat)} {chains : List (List Nat)}

/-- One entry is linked into its new bucket. -/
theorem Relinked.step
    {e : Nat} {entry : Entry key value} {todo : List Nat}
    (relinked : Relinked original newCapacity (entries, newTable) chains (e :: todo))
    (isEntry : entries[e]? = some entry)
    (positive : 0 < newCapacity) :
    ∃ chains',
      Relinked original newCapacity
        (setNext entries e (newTable.getD (bucket entry.hash newCapacity) none),
          newTable.set (bucket entry.hash newCapacity) (some e)) chains' todo ∧
      chains'.flatten.Perm (e :: chains.flatten) := by
  generalize isIndex : bucket entry.hash newCapacity = index
  have below : index < newTable.length := by
    rw [← isIndex, relinked.sameLength]
    exact bucket_lt _ positive
  obtain ⟨cells, isChain, linked⟩ := relinked.linked.chain_at below
  obtain ⟨before, after, split, exchange⟩ := flatten_around isChain
  have notHeld : e ∉ chains.flatten := by
    have nodup := relinked.nodup
    rw [List.cons_append, List.nodup_cons, List.mem_append, not_or] at nodup
    exact nodup.1.2
  have agree : ∀ {index' : Nat} {cells' : List Nat}, chains[index']? = some cells' →
      ∀ other ∈ cells', nextIn (setNext entries e (newTable.getD index none)) other =
        nextIn entries other := by
    intro index' cells' isChain' other isCell
    apply nextIn_setNext_of_ne
    rintro rfl
    exact notHeld (List.mem_flatten.mpr ⟨cells', List.mem_of_getElem? isChain', isCell⟩)
  have perm : (chains.set index (e :: cells)).flatten.Perm (e :: chains.flatten) := by
    rw [exchange, split, List.append_assoc, List.append_assoc, List.cons_append]
    exact List.perm_middle
  refine ⟨chains.set index (e :: cells), ?_, perm⟩
  exact {
    data := by
      intro other
      rw [setNext_data]
      exact relinked.data other
    linked := by
      have pushed : Linked (nextIn (setNext entries e (newTable.getD index none))) (some e)
          (e :: cells) := by
        apply linked.push
        · rw [nextIn, setNext_entries, isEntry]
          simp
        · exact agree isChain
      exact relinked.linked.exchange pushed fun other cells' _ isChain' => agree isChain'
    sameLength := by
      rw [List.length_set]
      exact relinked.sameLength
    nodup := by
      have nodup := relinked.nodup
      have moved : (todo ++ (chains.set index (e :: cells)).flatten).Perm
          (e :: todo ++ chains.flatten) :=
        (perm.append_left todo).trans List.perm_middle
      exact moved.nodup_iff.mpr nodup
    placed := by
      intro index' cells' isChain' other isCell
      rw [List.getElem?_set] at isChain'
      split at isChain'
      · next same =>
          subst same
          split at isChain'
          · cases isChain'
            rcases List.mem_cons.mp isCell with rfl | isOld
            · have sameData := relinked.data other
              obtain ⟨first, isFirst⟩ := relinked.inside other List.mem_cons_self
              rw [isEntry, isFirst, Option.map_some, Option.map_some, Option.some.injEq]
                at sameData
              have sameHash : entry.hash = first.hash := congrArg Prod.fst sameData
              exact ⟨first, isFirst, sameHash ▸ isIndex⟩
            · exact relinked.placed index cells isChain other isOld
          · cases isChain'
      · exact relinked.placed index' cells' isChain' other isCell
    inside := fun other listed => relinked.inside other (List.mem_cons_of_mem _ listed) }

/-- The entries of an old bucket are linked into the new table. -/
theorem relink_spec
    {fuel : Nat} {old : Option Nat} {cells todo : List Nat}
    (relinked : Relinked original newCapacity (entries, newTable) chains (cells ++ todo))
    (linked : Linked (nextIn entries) old cells)
    (enough : cells.length < fuel)
    (positive : 0 < newCapacity) :
    ∃ entries' newTable' chains',
      relink newCapacity fuel old (entries, newTable) = some (entries', newTable') ∧
      Relinked original newCapacity (entries', newTable') chains' todo ∧
      chains'.flatten.Perm (cells ++ chains.flatten) ∧
      ∀ e ∉ cells, nextIn entries' e = nextIn entries e := by
  induction cells generalizing old fuel entries newTable chains with
  | nil =>
      obtain ⟨fuel, rfl⟩ := Nat.exists_eq_add_one_of_ne_zero (Nat.ne_zero_of_lt enough)
      rw [show old = none from linked]
      exact ⟨entries, newTable, chains, rfl, relinked, .refl _, fun _ _ => rfl⟩
  | cons e cells inductionHypothesis =>
      obtain ⟨fuel, rfl⟩ := Nat.exists_eq_add_one_of_ne_zero (Nat.ne_zero_of_lt enough)
      rw [List.length_cons, Nat.add_lt_add_iff_right] at enough
      obtain ⟨rfl, linked⟩ := linked
      obtain ⟨entry, isEntry⟩ : ∃ entry, entries[e]? = some entry := by
        obtain ⟨first, isFirst⟩ := relinked.inside e (by simp)
        have sameData := relinked.data e
        rw [isFirst, Option.map_some, Option.map_eq_some_iff] at sameData
        obtain ⟨entry, isEntry, _⟩ := sameData
        exact ⟨entry, isEntry⟩
      have isNext : nextIn entries e = entry.next := by
        rw [nextIn, isEntry]
        rfl
      rw [List.cons_append] at relinked
      have notLater : e ∉ cells := by
        have nodup := relinked.nodup
        rw [List.cons_append, List.nodup_cons, List.append_assoc, List.mem_append, not_or] at nodup
        exact nodup.1.1
      obtain ⟨chains₁, relinked₁, perm₁⟩ := relinked.step isEntry positive
      have linked₁ : Linked
          (nextIn (setNext entries e (newTable.getD (bucket entry.hash newCapacity) none)))
          (nextIn entries e) cells := by
        apply linked.congr
        intro other listed
        apply nextIn_setNext_of_ne
        rintro rfl
        exact notLater listed
      obtain ⟨entries', newTable', chains', result, relinked', perm', kept⟩ :=
        inductionHypothesis relinked₁ linked₁ enough
      refine ⟨entries', newTable', chains', ?_, relinked', ?_, ?_⟩
      · rw [isNext] at result
        rw [relink, isEntry]
        exact result
      · exact (perm'.trans (perm₁.append_left cells)).trans List.perm_middle
      · intro other notListed
        rw [List.mem_cons, not_or] at notListed
        rw [kept other notListed.2]
        exact nextIn_setNext_of_ne (Ne.symm notListed.1) _

/-- The entries of all old buckets are linked into the new table. -/
theorem relinkAll_spec
    {fuel : Nat} {oldTable : List (Option Nat)} {oldChains : List (List Nat)}
    (linked : LinkedAll (nextIn entries) oldTable oldChains)
    (relinked :
      Relinked original newCapacity (entries, newTable) chains oldChains.flatten)
    (enough : ∀ cells ∈ oldChains, cells.length < fuel)
    (positive : 0 < newCapacity) :
    ∃ entries' newTable' chains',
      relinkAll newCapacity fuel oldTable (entries, newTable) = some (entries', newTable') ∧
      Relinked original newCapacity (entries', newTable') chains' [] ∧
      chains'.flatten.Perm (oldChains.flatten ++ chains.flatten) := by
  induction oldChains generalizing oldTable entries newTable chains with
  | nil =>
      rw [List.forall₂_nil_right_iff.mp linked]
      exact ⟨entries, newTable, chains, rfl, relinked, .refl _⟩
  | cons cells oldChains inductionHypothesis =>
      obtain ⟨old, oldTable, first, rest, rfl⟩ := List.forall₂_cons_right_iff.mp linked
      obtain ⟨enoughFirst, enoughRest⟩ := List.forall_mem_cons.mp enough
      rw [List.flatten_cons] at relinked
      have nodup := relinked.nodup
      rw [List.append_assoc] at nodup
      have disjoint := (List.nodup_append.mp nodup).2.2
      obtain ⟨entries₁, newTable₁, chains₁, result₁, relinked₁, perm₁, kept⟩ :=
        relink_spec relinked first enoughFirst positive
      have rest₁ : LinkedAll (nextIn entries₁) oldTable oldChains := by
        apply LinkedAll.congr rest
        intro cells' isChain e isCell
        apply kept
        intro isFirst
        have later : e ∈ oldChains.flatten ++ chains.flatten :=
          List.mem_append_left _ (List.mem_flatten.mpr ⟨cells', isChain, isCell⟩)
        exact disjoint e isFirst e later rfl
      obtain ⟨entries', newTable', chains', result, relinked', perm'⟩ :=
        inductionHypothesis rest₁ relinked₁ enoughRest
      refine ⟨entries', newTable', chains', ?_, relinked', ?_⟩
      · rw [relinkAll, result₁]
        exact result
      · have moved := perm'.trans (perm₁.append_left oldChains.flatten)
        rw [List.flatten_cons]
        refine moved.trans ?_
        rw [← List.append_assoc]
        exact List.perm_append_comm.append_right _

end Relinking

/-! ## Rehashing -/

theorem newCapacity_eq {oldCapacity : Nat} (bounded : (oldCapacity : Int) ≤ maxArrayLength) :
    newCapacity oldCapacity = 2 * oldCapacity + 1 := by
  rw [maxArrayLength] at bounded
  have doubled : signed ((oldCapacity : Int) * 2) = (oldCapacity : Int) * 2 :=
    signed_of_inRange ⟨by omega, by omega⟩
  rw [newCapacity, doubled, signed_of_inRange ⟨by omega, by omega⟩]
  omega

theorem newTable_cases (room : Room) {length : Int} (nonneg : 0 ≤ length) :
    newTable room length = .error .outOfMemory ∨
      newTable room length = .ok (List.replicate length.toNat none) ∧ length ≤ maxArrayLength := by
  rw [newTable, if_neg (Int.not_lt.mpr nonneg)]
  split
  · exact Or.inl rfl
  · next short =>
      split
      · exact Or.inr ⟨rfl, Int.not_lt.mp short⟩
      · exact Or.inl rfl

theorem linkedAll_replicate (next : Nat → Option Nat) (length : Nat) :
    LinkedAll next (List.replicate length none) (List.replicate length []) := by
  induction length with
  | zero => exact .nil
  | succ length inductionHypothesis => exact .cons rfl inductionHypothesis

section Growing

variable {hashtable : Hashtable key value} {chains : List (List Nat)}

/-- Nothing has been linked into the new table yet. -/
theorem Holds.relinked
    (holds : Holds objects hashtable chains)
    (length : Nat) :
    Relinked hashtable.entries length (hashtable.entries, List.replicate length none)
      (List.replicate length []) chains.reverse.flatten where
  data := fun _ => rfl
  linked := linkedAll_replicate _ length
  sameLength := List.length_replicate
  nodup := by
    have empty : (List.replicate length ([] : List Nat)).flatten = [] := by simp
    rw [empty, List.append_nil, (List.reverse_perm chains).flatten.nodup_iff]
    exact holds.nodup
  placed := by
    intro index cells isChain e isCell
    have isEmpty := List.eq_of_mem_replicate (List.mem_of_getElem? isChain)
    rw [isEmpty] at isCell
    cases isCell
  inside := by
    intro e listed
    obtain ⟨entry, isEntry, _⟩ :=
      holds.entry_of_mem ((List.reverse_perm chains).flatten.mem_iff.mp listed)
    exact ⟨entry, isEntry⟩

/-- Behind `rehash` the longer table has the same map. -/
theorem Holds.rehash
    (holds : Holds objects hashtable chains)
    (consistent : objects.Consistent)
    (room : Room) :
    (hashtable.rehash room = .error .outOfMemory ∧
        newTable room (2 * hashtable.table.length + 1) = .error .outOfMemory) ∨
      ∃ grown chains', hashtable.rehash room = .ok grown ∧ Holds objects grown chains' ∧
        (bindingsOf grown.entries chains'.flatten).Perm
          (bindingsOf hashtable.entries chains.flatten) ∧
        grown.table.length = 2 * hashtable.table.length + 1 := by
  have nonneg : (0 : Int) ≤ 2 * hashtable.table.length + 1 := by omega
  rcases newTable_cases room nonneg with refused | granted
  · left
    refine ⟨?_, refused⟩
    rw [Hashtable.rehash, newCapacity_eq holds.bounded, Hashtable.rehashTo, refused]
  · right
    have isLength : (2 * (hashtable.table.length : Int) + 1).toNat =
        2 * hashtable.table.length + 1 := by omega
    rw [isLength] at granted
    have reversed : LinkedAll (nextIn hashtable.entries) hashtable.table.reverse chains.reverse :=
      List.rel_reverse holds.linked
    obtain ⟨entries', newTable', chains', result, relinked, perm⟩ :=
      relinkAll_spec reversed (holds.relinked (2 * hashtable.table.length + 1))
        (fun cells isChain => holds.length_lt_fuel (List.mem_reverse.mp isChain))
        (Nat.succ_pos _)
    have isGrown : hashtable.rehash room = .ok
        { hashtable with
          entries := entries'
          table := newTable'
          threshold := thresholdOf (2 * hashtable.table.length + 1) } := by
      rw [Hashtable.rehash, newCapacity_eq holds.bounded, Hashtable.rehashTo, granted.1]
      simp only [isLength, result]
    have allCells : chains'.flatten.Perm chains.flatten := by
      have empty :
          (List.replicate (2 * hashtable.table.length + 1) ([] : List Nat)).flatten = [] := by simp
      rw [empty, List.append_nil] at perm
      exact perm.trans (List.reverse_perm chains).flatten
    have bindings :
        (bindingsOf entries' chains'.flatten).Perm
          (bindingsOf hashtable.entries chains.flatten) := by
      have same : bindingsOf entries' chains'.flatten =
          bindingsOf hashtable.entries chains'.flatten := by
        apply bindingsOf_congr
        intro e _
        have sameData := congrArg (Option.map Prod.snd) (relinked.data e)
        rw [Option.map_map, Option.map_map] at sameData
        exact sameData
      rw [same]
      exact allCells.filterMap _
    refine ⟨_, chains', isGrown, ?_, bindings, relinked.sameLength⟩
    exact {
      linked := relinked.linked
      nodup := allCells.nodup_iff.mpr holds.nodup
      placed := by
        intro index cells isChain e isCell
        obtain ⟨entry, isEntry, isBucket⟩ := relinked.placed index cells isChain e isCell
        have listed : e ∈ chains.flatten := allCells.mem_iff.mp
          (List.mem_flatten.mpr ⟨cells, List.mem_of_getElem? isChain, isCell⟩)
        obtain ⟨entry', isEntry', isHash⟩ := holds.entry_of_mem listed
        rw [isEntry, Option.some.injEq] at isEntry'
        subst isEntry'
        have sameData := relinked.data e
        rw [isEntry, Option.map_some, Option.map_eq_some_iff] at sameData
        obtain ⟨kept, isKept, sameKept⟩ := sameData
        have sameHash : kept.hash = entry.hash := congrArg Prod.fst sameKept
        have sameKey : kept.key = entry.key := congrArg (fun data => data.2.1) sameKept
        refine ⟨kept, isKept, by rw [sameHash, sameKey, isHash], ?_⟩
        rw [sameHash, relinked.sameLength]
        exact isBucket
      apart := pairwise_apart_perm consistent bindings.symm holds.apart
      nonempty := by
        rw [relinked.sameLength]
        exact Nat.succ_pos _
      bounded := by
        rw [relinked.sameLength]
        have short := granted.2
        push_cast
        exact short }

/-! ## Putting -/

/-- An allocation that `put` may ask for fails: that of the entry, or that of a table to which one of
the given length grows. -/
def Refused (room : Room) (capacity : Nat) : Prop :=
  room.entry = false ∨
    ∃ times : Nat, newTable room (2 ^ (times + 1) * (capacity + 1) - 1) = .error .outOfMemory

theorem Refused.of_grown
    {room : Room} {capacity : Nat}
    (refused : Refused room (2 * capacity + 1)) :
    Refused room capacity := by
  rcases refused with noEntry | ⟨times, noTable⟩
  · exact Or.inl noEntry
  · have more : (2 : Int) ^ (times + 1 + 1) * (capacity + 1) - 1 =
        2 ^ (times + 1) * ((2 * capacity + 1 : Nat) + 1) - 1 := by
      push_cast
      ring
    refine Or.inr ⟨times + 1, ?_⟩
    rw [more]
    exact noTable

/-- What `put` comes to: it does what a map does, or fails and leaves the map. -/
theorem putEntry_spec
    (consistent : objects.Consistent)
    (room : Room)
    (k : key)
    (v : value)
    {calls : Nat} {bindings : List (key × value)}
    (represents : Represents objects hashtable bindings)
    (enough : maxArrayLength + 1 < 2 ^ calls * (hashtable.table.length + 1)) :
    ((Hashtable.putEntry objects room k v calls hashtable).1 =
          .value (lookup objects bindings k) ∧
        Represents objects (Hashtable.putEntry objects room k v calls hashtable).2
          (insert objects bindings k v)) ∨
      (Hashtable.putEntry objects room k v calls hashtable).1 = .thrown .outOfMemory ∧
        Represents objects (Hashtable.putEntry objects room k v calls hashtable).2 bindings ∧
        lookup objects bindings k = none ∧ Refused room hashtable.table.length := by
  induction calls generalizing hashtable with
  | zero =>
      obtain ⟨chains, holds, _⟩ := represents
      have bounded := holds.bounded
      rw [Int.pow_zero, Int.one_mul] at enough
      omega
  | succ calls inductionHypothesis =>
      obtain ⟨chains, holds, perm⟩ := represents
      rw [Hashtable.putEntry, Hashtable.putOnce]
      rcases holds.find_cases consistent k with
        ⟨isFind, absent⟩ | ⟨e, entry, isFind, listed, isEntry, equal⟩
      · have isAbsent : lookup objects bindings k = none := by
          apply lookup_eq_none
          intro binding isBinding
          exact absent binding (perm.mem_iff.mpr isBinding)
        simp only [isFind]
        split
        · rcases holds.rehash consistent room with
            ⟨isRefused, refused⟩ | ⟨grown, chains', isGrown, holds', perm', isLength⟩
          · right
            rw [isRefused]
            have once : (2 : Int) ^ (0 + 1) * (hashtable.table.length + 1) - 1 =
                2 * hashtable.table.length + 1 := by ring
            refine ⟨rfl, ⟨chains, holds, perm⟩, isAbsent, Or.inr ⟨0, ?_⟩⟩
            rw [once]
            exact refused
          · rw [isGrown]
            have represents' : Represents objects grown bindings :=
              ⟨chains', holds', perm'.trans perm⟩
            have enough' : maxArrayLength + 1 < 2 ^ calls * (grown.table.length + 1) := by
              rw [isLength]
              calc
                maxArrayLength + 1 < 2 ^ (calls + 1) * (hashtable.table.length + 1) := enough
                _ = 2 ^ calls * ((2 * hashtable.table.length + 1 : Nat) + 1) := by
                  push_cast
                  ring
            rcases inductionHypothesis represents' enough' with
              done | ⟨failed, kept, isNone, refused⟩
            · exact Or.inl done
            · rw [isLength] at refused
              exact Or.inr ⟨failed, kept, isNone, refused.of_grown⟩
        · split
          · left
            obtain ⟨chains', holds', perm'⟩ := holds.link consistent absent v
            exact ⟨by rw [isAbsent], chains', holds', perm'.trans (insert_perm perm k v)⟩
          · next noEntry =>
              exact Or.inr ⟨rfl, ⟨chains, holds, perm⟩, isAbsent, Or.inl (by simpa using noEntry)⟩
      · left
        have isBinding : (entry.key, entry.value) ∈ bindings :=
          perm.mem_iff.mp (mem_bindingsOf.mpr ⟨e, listed, entry, isEntry, rfl⟩)
        have isLookup := lookup_eq_some consistent
          (pairwise_apart_perm consistent perm holds.apart) isBinding equal
        obtain ⟨holds', exchanged⟩ := holds.setValue consistent listed isEntry equal v
        simp only [isFind, isEntry, Option.map_some]
        refine ⟨by rw [isLookup], chains, holds', ?_⟩
        rw [exchanged]
        exact insert_perm perm k v

end Growing

end PicoJvm.Collections
