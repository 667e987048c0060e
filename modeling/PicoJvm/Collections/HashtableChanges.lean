import PicoJvm.Collections.HashtableMap

/-!
# Changes of a hashtable

What exchanging a value, linking a new entry and taking one out do to the map that a table
represents.
-/

namespace PicoJvm.Collections

open PicoJvm.Lib PicoJvm.Lib.Machine

variable {key value : Type} {objects : Objects key value}

/-! ## Maps up to order -/

theorem insert_perm
    {bindings bindings' : List (key × value)}
    (perm : bindings.Perm bindings')
    (k : key)
    (v : value) :
    (insert objects bindings k v).Perm (insert objects bindings' k v) := by
  rw [insert, insert, perm.any_eq]
  split
  · exact perm.map _
  · exact perm.cons _

theorem erase_perm
    {bindings bindings' : List (key × value)}
    (perm : bindings.Perm bindings')
    (k : key) :
    (erase objects bindings k).Perm (erase objects bindings' k) :=
  perm.filter _

theorem insert_absent
    {bindings : List (key × value)} {k : key}
    (absent : ∀ binding ∈ bindings, objects.equals binding.1 k = false)
    (v : value) :
    insert objects bindings k v = (k, v) :: bindings := by
  have none_equal : (bindings.any fun binding => objects.equals binding.1 k) = false := by
    rw [List.any_eq_false]
    intro binding listed
    rw [absent binding listed]
    exact Bool.false_ne_true
  rw [insert, none_equal]
  rfl

theorem erase_absent
    {bindings : List (key × value)} {k : key}
    (absent : ∀ binding ∈ bindings, objects.equals binding.1 k = false) :
    erase objects bindings k = bindings := by
  rw [erase, List.filter_eq_self]
  intro binding listed
  rw [absent binding listed]
  rfl

theorem map_absent
    {bindings : List (key × value)} {k : key}
    (absent : ∀ binding ∈ bindings, objects.equals binding.1 k = false)
    (v : value) :
    (bindings.map fun binding =>
      if objects.equals binding.1 k then (binding.1, v) else binding) = bindings := by
  rw [List.map_congr_left (g := id), List.map_id]
  intro binding listed
  simp [absent binding listed]

theorem pairwise_apart_iff_keys {bindings : List (key × value)} :
    bindings.Pairwise (Apart objects) ↔
      (bindings.map Prod.fst).Pairwise fun k k' => objects.equals k k' = false := by
  rw [List.pairwise_map]
  rfl

/-! ## Cells and what they bind -/

theorem bindingsOf_append (entries : List (Entry key value)) (cells cells' : List Nat) :
    bindingsOf entries (cells ++ cells') = bindingsOf entries cells ++ bindingsOf entries cells' :=
  List.filterMap_append

theorem bindingsOf_cons
    {entries : List (Entry key value)} {e : Nat} {entry : Entry key value}
    (isEntry : entries[e]? = some entry)
    (cells : List Nat) :
    bindingsOf entries (e :: cells) = (entry.key, entry.value) :: bindingsOf entries cells := by
  simp [bindingsOf, isEntry]

theorem bindingsOf_congr
    {entries entries' : List (Entry key value)} {cells : List Nat}
    (agree : ∀ e ∈ cells, (entries'[e]?.map fun entry => (entry.key, entry.value)) =
      entries[e]?.map fun entry => (entry.key, entry.value)) :
    bindingsOf entries' cells = bindingsOf entries cells :=
  List.filterMap_congr agree

section Changing

variable {hashtable : Hashtable key value} {chains : List (List Nat)}

/-- The cells around an entry bind other keys. -/
theorem Holds.around
    (holds : Holds objects hashtable chains)
    (consistent : objects.Consistent)
    {e : Nat} {entry : Entry key value} {k : key} {before after : List Nat}
    (split : chains.flatten = before ++ e :: after)
    (isEntry : hashtable.entries[e]? = some entry)
    (equal : objects.equals entry.key k = true) :
    e ∉ before ∧ e ∉ after ∧
      (∀ binding ∈ bindingsOf hashtable.entries before, objects.equals binding.1 k = false) ∧
        ∀ binding ∈ bindingsOf hashtable.entries after, objects.equals binding.1 k = false := by
  have nodup := holds.nodup
  have apart := holds.apart
  rw [split] at nodup apart
  rw [bindingsOf_append, bindingsOf_cons isEntry, List.pairwise_append, List.pairwise_cons]
    at apart
  obtain ⟨_, afterNodup, disjoint⟩ := List.nodup_append.mp nodup
  refine ⟨?_, (List.nodup_cons.mp afterNodup).1, ?_, ?_⟩
  · exact fun listed => disjoint e listed e List.mem_cons_self rfl
  · intro binding listed
    rw [← consistent.equals_congr equal]
    exact apart.2.2 binding listed _ List.mem_cons_self
  · intro binding listed
    have different := apart.2.1.1 binding listed
    rw [Apart, consistent.equals_comm] at different
    rw [← consistent.equals_congr equal]
    exact different

theorem insert_split
    {before after : List (key × value)} {k k' : key} {v' : value}
    (absentBefore : ∀ binding ∈ before, objects.equals binding.1 k = false)
    (absentAfter : ∀ binding ∈ after, objects.equals binding.1 k = false)
    (equal : objects.equals k' k = true)
    (v : value) :
    insert objects (before ++ (k', v') :: after) k v = before ++ (k', v) :: after := by
  have present :
      ((before ++ (k', v') :: after).any fun binding => objects.equals binding.1 k) = true := by
    simp [equal]
  rw [insert, if_pos present, List.map_append, List.map_cons, map_absent absentBefore,
    map_absent absentAfter]
  simp [equal]

theorem erase_split
    {before after : List (key × value)} {k k' : key} {v' : value}
    (absentBefore : ∀ binding ∈ before, objects.equals binding.1 k = false)
    (absentAfter : ∀ binding ∈ after, objects.equals binding.1 k = false)
    (equal : objects.equals k' k = true) :
    erase objects (before ++ (k', v') :: after) k = before ++ after := by
  have here : erase objects ((k', v') :: after) k = after := by
    rw [erase, List.filter_cons, equal]
    exact erase_absent absentAfter
  rw [erase, List.filter_append]
  congr 1
  exact erase_absent absentBefore

/-! ## A value is exchanged -/

theorem setValue_next (e : Nat) (v : value) :
    (hashtable.setValue e v).next = hashtable.next := by
  funext other
  simp only [Hashtable.next, Hashtable.setValue, List.getElem?_modify]
  cases hashtable.entries[other]? with
  | none => rfl
  | some entry =>
      by_cases same : e = other <;> simp [same]

theorem setValue_entries (e : Nat) (v : value) (other : Nat) :
    (hashtable.setValue e v).entries[other]? =
      hashtable.entries[other]?.map fun entry =>
        if e = other then { entry with value := v } else entry := by
  simp only [Hashtable.setValue, List.getElem?_modify]
  cases hashtable.entries[other]? with
  | none => rfl
  | some entry => by_cases same : e = other <;> simp [same]

theorem Holds.setValue
    (holds : Holds objects hashtable chains)
    (consistent : objects.Consistent)
    {e : Nat} {entry : Entry key value} {k : key}
    (listed : e ∈ chains.flatten)
    (isEntry : hashtable.entries[e]? = some entry)
    (equal : objects.equals entry.key k = true)
    (v : value) :
    Holds objects (hashtable.setValue e v) chains ∧
      bindingsOf (hashtable.setValue e v).entries chains.flatten =
        insert objects (bindingsOf hashtable.entries chains.flatten) k v := by
  obtain ⟨before, after, split⟩ := List.append_of_mem listed
  obtain ⟨notBefore, notAfter, absentBefore, absentAfter⟩ :=
    holds.around consistent split isEntry equal
  have others : ∀ {cells : List Nat}, e ∉ cells →
      bindingsOf (hashtable.setValue e v).entries cells = bindingsOf hashtable.entries cells := by
    intro cells notListed
    apply bindingsOf_congr
    intro other isOther
    have different : e ≠ other := fun same => notListed (same ▸ isOther)
    rw [setValue_entries, Option.map_map]
    simp [different, Function.comp_def]
  have here :
      (hashtable.setValue e v).entries[e]? = some { entry with value := v } := by
    rw [setValue_entries, isEntry]
    simp
  have exchanged :
      bindingsOf (hashtable.setValue e v).entries chains.flatten =
        insert objects (bindingsOf hashtable.entries chains.flatten) k v := by
    rw [split, bindingsOf_append, bindingsOf_cons here, others notBefore, others notAfter,
      bindingsOf_append, bindingsOf_cons isEntry, insert_split absentBefore absentAfter equal]
  refine ⟨?_, exchanged⟩
  exact {
    linked := by
      rw [setValue_next]
      exact holds.linked
    nodup := holds.nodup
    placed := by
      intro index cells isChain other isCell
      obtain ⟨entry', isEntry', isHash, isBucket⟩ :=
        holds.placed index cells isChain other isCell
      refine ⟨if e = other then { entry' with value := v } else entry', ?_, ?_⟩
      · rw [setValue_entries, isEntry']
        rfl
      · split
        · exact ⟨isHash, isBucket⟩
        · exact ⟨isHash, isBucket⟩
    apart := by
      have apart := holds.apart
      rw [exchanged]
      rw [split, bindingsOf_append, bindingsOf_cons isEntry] at apart ⊢
      rw [insert_split absentBefore absentAfter equal]
      rw [pairwise_apart_iff_keys, List.map_append, List.map_cons] at apart ⊢
      exact apart
    nonempty := holds.nonempty
    bounded := holds.bounded }

/-! ## An entry is linked -/

theorem next_append_of_lt
    {entries new : List (Entry key value)} {e : Nat}
    (old : e < entries.length) :
    (entries ++ new)[e]? = entries[e]? :=
  List.getElem?_append_left old

theorem Holds.link
    (holds : Holds objects hashtable chains)
    (consistent : objects.Consistent)
    {k : key}
    (absent : ∀ binding ∈ bindingsOf hashtable.entries chains.flatten,
      objects.equals binding.1 k = false)
    (v : value) :
    ∃ chains', Holds objects (hashtable.link objects k v) chains' ∧
      (bindingsOf (hashtable.link objects k v).entries chains'.flatten).Perm
        (insert objects (bindingsOf hashtable.entries chains.flatten) k v) := by
  obtain ⟨cells, isChain, linked, _⟩ := holds.bucket_chain k
  generalize isIndex : bucket (objects.hashCode k) hashtable.table.length = index at isChain linked
  let new := hashtable.entries.length
  let entry : Entry key value :=
    { hash := objects.hashCode k, key := k, value := v, next := hashtable.head index }
  have isLinked : hashtable.link objects k v =
      { hashtable with
        entries := hashtable.entries ++ [entry]
        table := hashtable.table.set index (some new)
        count := signed (hashtable.count + 1) } := by
    simp only [Hashtable.link, isIndex, entry, new]
  have old : ∀ e ∈ chains.flatten, e < new := by
    intro e listed
    obtain ⟨entry, isEntry, _⟩ := holds.entry_of_mem listed
    exact (List.getElem?_eq_some_iff.mp isEntry).1
  have newEntry : (hashtable.entries ++ [entry])[new]? = some entry := by
    simp [new]
  have agree : ∀ e ∈ chains.flatten,
      (hashtable.link objects k v).next e = hashtable.next e := by
    intro e listed
    rw [isLinked, Hashtable.next, Hashtable.next, next_append_of_lt (old e listed)]
  have inChains : ∀ {index' : Nat} {cells' : List Nat}, chains[index']? = some cells' →
      ∀ e ∈ cells', e ∈ chains.flatten := by
    intro index' cells' isChain' e isCell
    exact List.mem_flatten.mpr ⟨cells', List.mem_of_getElem? isChain', isCell⟩
  obtain ⟨before, after, split, exchange⟩ := flatten_around isChain
  have perm : (chains.set index (new :: cells)).flatten.Perm (new :: chains.flatten) := by
    rw [exchange, split, List.append_assoc, List.append_assoc, List.cons_append]
    exact List.perm_middle
  have bindings :
      bindingsOf (hashtable.link objects k v).entries (new :: chains.flatten) =
        (k, v) :: bindingsOf hashtable.entries chains.flatten := by
    rw [isLinked, bindingsOf_cons newEntry]
    congr 1
    apply bindingsOf_congr
    intro e listed
    rw [next_append_of_lt (old e listed)]
  have bindingsPerm :
      (bindingsOf (hashtable.link objects k v).entries
          (chains.set index (new :: cells)).flatten).Perm
        ((k, v) :: bindingsOf hashtable.entries chains.flatten) := by
    rw [← bindings]
    exact perm.filterMap _
  refine ⟨chains.set index (new :: cells), ?_, ?_⟩
  · exact {
      linked := by
        have exchanged : Linked (hashtable.link objects k v).next (some new) (new :: cells) := by
          apply linked.push
          · rw [isLinked, Hashtable.next, newEntry]
            rfl
          · intro e isCell
            exact agree e (inChains isChain e isCell)
        have all :
            LinkedAll (hashtable.link objects k v).next (hashtable.table.set index (some new))
              (chains.set index (new :: cells)) :=
          holds.linked.exchange exchanged fun other cells' _ isChain' e isCell =>
            agree e (inChains isChain' e isCell)
        rw [isLinked] at all ⊢
        exact all
      nodup := by
        rw [perm.nodup_iff, List.nodup_cons]
        exact ⟨fun listed => Nat.lt_irrefl _ (old new listed), holds.nodup⟩
      placed := by
        have sameLength : (hashtable.link objects k v).table.length = hashtable.table.length := by
          rw [isLinked, List.length_set]
        have placedOld : ∀ {index' : Nat} {cells' : List Nat}, chains[index']? = some cells' →
            ∀ e ∈ cells', ∃ entry, (hashtable.link objects k v).entries[e]? = some entry ∧
              entry.hash = objects.hashCode entry.key ∧
                bucket entry.hash hashtable.table.length = index' := by
          intro index' cells' isChain' e isCell
          rw [isLinked, next_append_of_lt (old e (inChains isChain' e isCell))]
          exact holds.placed index' cells' isChain' e isCell
        intro index' cells' isChain' e isCell
        rw [sameLength]
        rw [List.getElem?_set] at isChain'
        split at isChain'
        · next same =>
            subst same
            split at isChain'
            · cases isChain'
              rcases List.mem_cons.mp isCell with rfl | isOld
              · rw [isLinked]
                exact ⟨entry, newEntry, rfl, isIndex⟩
              · exact placedOld isChain e isOld
            · cases isChain'
        · exact placedOld isChain' e isCell
      apart := by
        apply pairwise_apart_perm consistent bindingsPerm.symm
        rw [List.pairwise_cons]
        refine ⟨?_, holds.apart⟩
        intro binding listed
        rw [Apart, consistent.equals_comm]
        exact absent binding listed
      nonempty := by
        rw [isLinked, List.length_set]
        exact holds.nonempty
      bounded := by
        rw [isLinked, List.length_set]
        exact holds.bounded }
  · rw [insert_absent absent]
    exact bindingsPerm

/-! ## An entry is taken out -/

theorem setNext_entries (entries : List (Entry key value)) (e other : Nat) (next : Option Nat) :
    (setNext entries e next)[other]? =
      entries[other]?.map fun entry => if e = other then { entry with next := next } else entry := by
  simp only [setNext, List.getElem?_modify]
  cases entries[other]? with
  | none => rfl
  | some entry => by_cases same : e = other <;> simp [same]

/-- Relinking changes no key and no value. -/
theorem bindingsOf_setNext
    (entries : List (Entry key value))
    (e : Nat)
    (next : Option Nat)
    (cells : List Nat) :
    bindingsOf (setNext entries e next) cells = bindingsOf entries cells := by
  apply bindingsOf_congr
  intro other _
  rw [setNext_entries, Option.map_map]
  congr 1
  funext entry
  simp only [Function.comp_apply]
  split <;> rfl

/-- What is kept when the entry is taken out of its bucket. -/
theorem unlink_keeps (hashtable : Hashtable key value) (index : Nat) (previous : Option Nat) (e : Nat) :
    (∀ cells, bindingsOf (hashtable.unlink index previous e).entries cells =
        bindingsOf hashtable.entries cells) ∧
      (∀ (other : Nat) (entry : Entry key value), hashtable.entries[other]? = some entry →
        ∃ entry', (hashtable.unlink index previous e).entries[other]? = some entry' ∧
          entry'.key = entry.key ∧ entry'.hash = entry.hash) ∧
      (hashtable.unlink index previous e).table.length = hashtable.table.length := by
  cases previous with
  | none =>
      refine ⟨fun _ => rfl, fun other entry isEntry => ⟨entry, isEntry, rfl, rfl⟩, ?_⟩
      simp [Hashtable.unlink]
  | some previous =>
      refine ⟨fun cells => bindingsOf_setNext _ _ _ cells, ?_, rfl⟩
      intro other entry isEntry
      refine ⟨if previous = other then { entry with next := hashtable.next e } else entry, ?_, ?_⟩
      · simp only [Hashtable.unlink]
        rw [setNext_entries, isEntry]
        rfl
      · split <;> exact ⟨rfl, rfl⟩

/-- The bucket without the entry. -/
theorem Holds.unlink_linked
    (holds : Holds objects hashtable chains)
    {index e : Nat} {front rest : List Nat}
    (isChain : chains[index]? = some (front ++ e :: rest))
    (linked : Linked hashtable.next (hashtable.head index) (front ++ e :: rest)) :
    LinkedAll (hashtable.unlink index front.getLast? e).next
      (hashtable.unlink index front.getLast? e).table (chains.set index (front ++ rest)) := by
  cases isLast : front.getLast? with
  | none =>
      rw [List.getLast?_eq_none_iff] at isLast
      subst isLast
      have exchanged : LinkedAll hashtable.next (hashtable.table.set index (hashtable.next e))
          (chains.set index rest) :=
        holds.linked.exchange (Linked.behind linked) fun _ _ _ _ _ _ => rfl
      exact exchanged
  | some previous =>
      obtain ⟨earlier, rfl⟩ := List.getLast?_eq_some_iff.mp isLast
      rw [List.append_assoc, List.singleton_append] at isChain linked ⊢
      have nodup : (earlier ++ previous :: e :: rest).Nodup :=
        holds.nodup.sublist (List.sublist_flatten_of_mem (List.mem_of_getElem? isChain))
      have isNext : ∀ other, (hashtable.unlink index (some previous) e).next other =
          if previous = other then hashtable.next e else hashtable.next other := by
        intro other
        obtain ⟨entry, isEntry, _⟩ := holds.entry_of_mem (List.mem_flatten.mpr
          ⟨_, List.mem_of_getElem? isChain, List.mem_append_right _ List.mem_cons_self⟩)
        simp only [Hashtable.unlink, Hashtable.next, setNext_entries]
        by_cases same : previous = other
        · subst same
          simp [isEntry]
        · cases hashtable.entries[other]? <;> simp [same]
      have agree : ∀ other, previous ≠ other →
          (hashtable.unlink index (some previous) e).next other = hashtable.next other := by
        intro other different
        rw [isNext, if_neg different]
      have unlinked : Linked (hashtable.unlink index (some previous) e).next
          (hashtable.head index) (earlier ++ previous :: rest) := by
        apply linked.unlink
        · rw [isNext, if_pos rfl]
        · intro other listed
          apply agree
          rintro rfl
          obtain ⟨_, behindNodup, disjoint⟩ := List.nodup_append.mp nodup
          rcases List.mem_append.mp listed with isEarlier | isLater
          · exact disjoint previous isEarlier previous List.mem_cons_self rfl
          · exact (List.nodup_cons.mp behindNodup).1 (List.mem_cons_of_mem _ isLater)
      have all : LinkedAll (hashtable.unlink index (some previous) e).next
          (hashtable.table.set index (hashtable.head index))
            (chains.set index (earlier ++ previous :: rest)) := by
        apply holds.linked.exchange unlinked
        intro index' cells' different isChain' other isCell
        apply agree
        rintro rfl
        obtain ⟨entry, isEntry, _, isBucket⟩ := holds.placed index _ isChain previous
          (List.mem_append_right _ List.mem_cons_self)
        obtain ⟨entry', isEntry', _, isBucket'⟩ := holds.placed index' _ isChain' previous isCell
        rw [isEntry, Option.some.injEq] at isEntry'
        rw [← isEntry', isBucket] at isBucket'
        exact different isBucket'.symm
      have inside : index < hashtable.table.length := by
        rw [List.Forall₂.length_eq holds.linked]
        exact (List.getElem?_eq_some_iff.mp isChain).1
      have unchanged : hashtable.table.set index (hashtable.head index) = hashtable.table := by
        rw [Hashtable.head, List.getD_eq_getElem?_getD, List.getElem?_eq_getElem inside,
          Option.getD_some, List.set_getElem_self]
      rw [unchanged] at all
      exact all

theorem Holds.unlink
    (holds : Holds objects hashtable chains)
    (consistent : objects.Consistent)
    {index e : Nat} {front rest : List Nat} {entry : Entry key value} {k : key}
    (isChain : chains[index]? = some (front ++ e :: rest))
    (linked : Linked hashtable.next (hashtable.head index) (front ++ e :: rest))
    (isEntry : hashtable.entries[e]? = some entry)
    (equal : objects.equals entry.key k = true) :
    Holds objects (hashtable.unlink index front.getLast? e)
        (chains.set index (front ++ rest)) ∧
      bindingsOf (hashtable.unlink index front.getLast? e).entries
          (chains.set index (front ++ rest)).flatten =
        erase objects (bindingsOf hashtable.entries chains.flatten) k := by
  obtain ⟨sameBindings, sameKeys, sameLength⟩ :=
    unlink_keeps hashtable index front.getLast? e
  obtain ⟨before, after, split, exchange⟩ := flatten_around isChain
  have isSplit : chains.flatten = (before ++ front) ++ e :: (rest ++ after) := by
    rw [split]
    simp
  have isExchange : (chains.set index (front ++ rest)).flatten =
      (before ++ front) ++ (rest ++ after) := by
    rw [exchange]
    simp
  obtain ⟨_, _, absentBefore, absentAfter⟩ := holds.around consistent isSplit isEntry equal
  have erased :
      bindingsOf (hashtable.unlink index front.getLast? e).entries
          (chains.set index (front ++ rest)).flatten =
        erase objects (bindingsOf hashtable.entries chains.flatten) k := by
    have isWhole := bindingsOf_append hashtable.entries (before ++ front) (e :: (rest ++ after))
    rw [bindingsOf_cons isEntry] at isWhole
    rw [sameBindings, isSplit, isExchange, isWhole, bindingsOf_append,
      erase_split absentBefore absentAfter equal]
  have kept : (chains.set index (front ++ rest)).flatten.Sublist chains.flatten := by
    rw [isSplit, isExchange]
    exact (List.Sublist.refl _).append (List.sublist_cons_self _ _)
  refine ⟨?_, erased⟩
  exact {
    linked := holds.unlink_linked isChain linked
    nodup := holds.nodup.sublist kept
    placed := by
      have placedOld : ∀ {index' : Nat} {cells' : List Nat}, chains[index']? = some cells' →
          ∀ other ∈ cells', ∃ entry,
            (hashtable.unlink index front.getLast? e).entries[other]? = some entry ∧
              entry.hash = objects.hashCode entry.key ∧
                bucket entry.hash hashtable.table.length = index' := by
        intro index' cells' isChain' other isCell
        obtain ⟨old, isOld, isHash, isBucket⟩ := holds.placed index' cells' isChain' other isCell
        obtain ⟨kept, isKept, sameKey, sameHash⟩ := sameKeys other old isOld
        exact ⟨kept, isKept, by rw [sameHash, sameKey, isHash], by rw [sameHash, isBucket]⟩
      intro index' cells' isChain' other isCell
      rw [sameLength]
      rw [List.getElem?_set] at isChain'
      split at isChain'
      · next same =>
          subst same
          split at isChain'
          · cases isChain'
            refine placedOld isChain other ?_
            rcases List.mem_append.mp isCell with isFront | isRest
            · exact List.mem_append_left _ isFront
            · exact List.mem_append_right _ (List.mem_cons_of_mem _ isRest)
          · cases isChain'
      · exact placedOld isChain' other isCell
    apart := by
      rw [erased]
      exact holds.apart.sublist List.filter_sublist
    nonempty := by
      rw [sameLength]
      exact holds.nonempty
    bounded := by
      rw [sameLength]
      exact holds.bounded }

/-- `remove` of a key takes it out of the map. -/
theorem Represents.remove
    {bindings : List (key × value)}
    (represents : Represents objects hashtable bindings)
    (consistent : objects.Consistent)
    (k : key) :
    (hashtable.remove objects (some k)).1 = .value (lookup objects bindings k) ∧
      Represents objects (hashtable.remove objects (some k)).2 (erase objects bindings k) := by
  obtain ⟨chains, holds, perm⟩ := represents
  obtain ⟨cells, isChain, linked, short⟩ := holds.bucket_chain k
  rcases searchWithPrevious_eq linked short (hashtable.hasKey objects (objects.hashCode k) k) none
    with ⟨ended, others⟩ | ⟨front, e, rest, rfl, accepted, found⟩
  · have absent : ∀ binding ∈ bindings, objects.equals binding.1 k = false := by
      intro binding isBinding
      exact holds.absent consistent isChain others binding (perm.mem_iff.mpr isBinding)
    simp only [Hashtable.remove, ended]
    rw [lookup_eq_none absent, erase_absent absent]
    exact ⟨rfl, chains, holds, perm⟩
  · have listed : e ∈ chains.flatten := List.mem_flatten.mpr
      ⟨_, List.mem_of_getElem? isChain, List.mem_append_right _ List.mem_cons_self⟩
    obtain ⟨entry, isEntry, isHash⟩ := holds.entry_of_mem listed
    rw [hasKey_eq consistent isEntry isHash] at accepted
    have isBinding : (entry.key, entry.value) ∈ bindings :=
      perm.mem_iff.mp (mem_bindingsOf.mpr ⟨e, listed, entry, isEntry, rfl⟩)
    have isLookup := lookup_eq_some consistent
      (pairwise_apart_perm consistent perm holds.apart) isBinding accepted
    obtain ⟨unlinked, erased⟩ := holds.unlink consistent isChain linked isEntry accepted
    rw [Option.or_none] at found
    simp only [Hashtable.remove, found]
    refine ⟨by rw [isEntry, isLookup]; rfl, _, unlinked, ?_⟩
    rw [erased]
    exact erase_perm perm k

/-! ## All entries are dropped -/

theorem clear_represents
    {bindings : List (key × value)}
    (represents : Represents objects hashtable bindings) :
    Represents objects hashtable.clear [] := by
  obtain ⟨chains, holds, _⟩ := represents
  have none_left : (chains.map fun _ => ([] : List Nat)).flatten = [] := by
    rw [List.flatten_eq_nil_iff]
    intro cells listed
    obtain ⟨_, _, rfl⟩ := List.mem_map.mp listed
    rfl
  refine ⟨chains.map fun _ => [], ?_, by rw [none_left]; exact .nil⟩
  exact {
    linked := by
      have heads : LinkedAll hashtable.clear.next (hashtable.table.map fun _ => none)
          (chains.map fun _ => []) :=
        List.forall₂_map_left_iff.mpr
          (List.forall₂_map_right_iff.mpr (holds.linked.imp fun _ _ _ => rfl))
      exact heads
    nodup := by simp
    placed := by
      intro index cells isChain e isCell
      rw [List.getElem?_map, Option.map_eq_some_iff] at isChain
      obtain ⟨_, _, rfl⟩ := isChain
      cases isCell
    apart := by
      rw [none_left]
      exact .nil
    nonempty := by
      simp only [Hashtable.clear, List.length_map]
      exact holds.nonempty
    bounded := by
      simp only [Hashtable.clear, List.length_map]
      exact holds.bounded }

end Changing

end PicoJvm.Collections
