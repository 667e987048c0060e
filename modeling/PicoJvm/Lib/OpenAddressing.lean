import Mathlib.Data.List.Nodup
import Mathlib.Data.Nat.ModEq

/-!
# Open addressing with linear probing

Tables whose size is a power of two, searched from the home of a key onwards and
around the end. The invariant says that the way from an entry's home to its slot
leads over occupied slots only; under it a search for a key ends at the entry with
that key if there is one, and otherwise at a slot where such an entry may be put.
-/

namespace PicoJvm.Lib.OpenAddressing

universe u

variable {entry : Type u}

/-! ## Searching and inserting -/

/-- How a search ends. Running out of steps does not happen. -/
inductive Probe (entry : Type u)
  | found (item : entry)
  | empty (index : Nat)
  | full
  | unfinished
  deriving Repr

/-- The next slot, with a mask in place of a division. -/
def next (slots : List (Option entry)) (index : Nat) : Nat :=
  (index + 1) &&& (slots.length - 1)

/-- Looks at the slots from `index` on until one is empty, holds a wanted entry, or the
search is back at its start. -/
def probe (wanted : entry → Bool) (slots : List (Option entry)) (start : Nat) :
    Nat → Nat → Probe entry
  | 0, _ => .unfinished
  | fuel + 1, index =>
      match slots.getD index none with
      | none => .empty index
      | some item =>
          if wanted item then
            .found item
          else if next slots index = start then
            .full
          else
            probe wanted slots start fuel (next slots index)

/-- The first empty slot from `index` on. -/
def findFree (slots : List (Option entry)) : Nat → Nat → Option Nat
  | 0, _ => none
  | fuel + 1, index =>
      match slots.getD index none with
      | none => some index
      | some _ => findFree slots fuel (next slots index)

/-- Puts an entry into the first empty slot from its home on. -/
def insert (home : entry → Nat) (slots : List (Option entry)) (item : entry) :
    List (Option entry) :=
  match findFree slots slots.length (home item &&& (slots.length - 1)) with
  | none => slots
  | some index => slots.set index (some item)

/-- Puts the entries of an old table into a new one. -/
def rehash (home : entry → Nat) (old new : List (Option entry)) : List (Option entry) :=
  old.foldl
    (fun slots slot =>
      match slot with
      | none => slots
      | some item => insert home slots item)
    new

/-! ## The invariant -/

/-- The slot at a distance from a home. -/
def slotAt (slots : List (Option entry)) (home distance : Nat) : Option entry :=
  slots.getD ((home + distance) % slots.length) none

/-- Every entry can be reached from its home over occupied slots. -/
structure Reachable (home : entry → Nat) (slots : List (Option entry)) : Prop where
  powerOfTwo : ∃ exponent, slots.length = 2 ^ exponent
  reach : ∀ item, some item ∈ slots → ∃ distance < slots.length,
    slotAt slots (home item) distance = some item ∧
      ∀ before < distance, slotAt slots (home item) before ≠ none

/-- Entries with equal keys are equal. -/
def Distinct {key : Type u} (keyOf : entry → key) (slots : List (Option entry)) : Prop :=
  ∀ item other, some item ∈ slots → some other ∈ slots → keyOf item = keyOf other →
    item = other

variable {home : entry → Nat} {slots : List (Option entry)}

theorem mask_eq_mod
    (powerOfTwo : ∃ exponent, slots.length = 2 ^ exponent)
    (index : Nat) :
    index &&& (slots.length - 1) = index % slots.length := by
  obtain ⟨exponent, lengthEq⟩ := powerOfTwo
  rw [lengthEq, Nat.and_two_pow_sub_one_eq_mod]

theorem length_pos
    (powerOfTwo : ∃ exponent, slots.length = 2 ^ exponent) :
    0 < slots.length := by
  obtain ⟨exponent, lengthEq⟩ := powerOfTwo
  rw [lengthEq]
  exact Nat.two_pow_pos exponent

theorem next_mod
    (powerOfTwo : ∃ exponent, slots.length = 2 ^ exponent)
    (start distance : Nat) :
    next slots ((start + distance) % slots.length) =
      (start + (distance + 1)) % slots.length := by
  rw [next, mask_eq_mod powerOfTwo, Nat.mod_add_mod, Nat.add_assoc]

theorem mem_of_slotAt
    {start distance : Nat} {item : entry}
    (stored : slotAt slots start distance = some item) :
    some item ∈ slots := by
  unfold slotAt at stored
  rw [List.getD_eq_getElem?_getD] at stored
  cases slot : slots[(start + distance) % slots.length]? with
  | none =>
      simp [slot] at stored
  | some found =>
      rw [slot, Option.getD_some] at stored
      rw [← stored]
      exact List.mem_of_getElem? slot

/-- Two distances below the length lead to one slot only if they are equal. -/
theorem distance_inj
    (start : Nat)
    {distance distance' : Nat}
    (below : distance < slots.length)
    (below' : distance' < slots.length)
    (same : (start + distance) % slots.length = (start + distance') % slots.length) :
    distance = distance' := by
  have := Nat.ModEq.add_left_cancel' start same
  rwa [Nat.ModEq, Nat.mod_eq_of_lt below, Nat.mod_eq_of_lt below'] at this

/-! ## What a search finds -/

/-- The slots at the first distances are occupied by unwanted entries. -/
def Passed (wanted : entry → Bool) (slots : List (Option entry)) (start distance : Nat) : Prop :=
  ∀ before < distance, ∃ item, slotAt slots start before = some item ∧ wanted item = false

/-- The three ways for a search to end. -/
inductive ProbeEnds (wanted : entry → Bool) (slots : List (Option entry)) (start : Nat) :
    Probe entry → Prop
  | found {distance : Nat} {item : entry} :
      distance < slots.length →
      slotAt slots start distance = some item →
      wanted item = true →
      ProbeEnds wanted slots start (.found item)
  | empty {distance : Nat} :
      distance < slots.length →
      slotAt slots start distance = none →
      Passed wanted slots start distance →
      ProbeEnds wanted slots start (.empty ((start + distance) % slots.length))
  | full :
      Passed wanted slots start slots.length →
      ProbeEnds wanted slots start .full

theorem Passed.succ
    {wanted : entry → Bool} {start distance : Nat} {item : entry}
    (passed : Passed wanted slots start distance)
    (stored : slotAt slots start distance = some item)
    (unwanted : wanted item = false) :
    Passed wanted slots start (distance + 1) := by
  intro before below
  rcases Nat.lt_succ_iff_lt_or_eq.mp below with earlier | rfl
  · exact passed before earlier
  · exact ⟨item, stored, unwanted⟩

theorem probe_ends_from
    (powerOfTwo : ∃ exponent, slots.length = 2 ^ exponent)
    (wanted : entry → Bool) (start fuel : Nat)
    {distance : Nat}
    (inside : distance < slots.length)
    (enough : slots.length ≤ distance + fuel)
    (passed : Passed wanted slots start distance) :
    ProbeEnds wanted slots start
      (probe wanted slots (start % slots.length) fuel ((start + distance) % slots.length)) := by
  induction fuel generalizing distance with
  | zero =>
      omega
  | succ fuel inductionHypothesis =>
      rw [probe, next_mod powerOfTwo]
      cases stored : slotAt slots start distance with
      | none =>
          rw [show slots.getD ((start + distance) % slots.length) none = none from stored]
          exact .empty inside stored passed
      | some item =>
          rw [show slots.getD ((start + distance) % slots.length) none = some item from stored]
          dsimp only
          cases isWanted : wanted item with
          | true =>
              exact .found inside stored isWanted
          | false =>
              have passed' := passed.succ stored isWanted
              rw [if_neg Bool.false_ne_true]
              split
              · rename_i around
                have last : distance + 1 = slots.length := by
                  by_contra notLast
                  have inside' : distance + 1 < slots.length := by omega
                  have isZero := distance_inj start inside' (length_pos powerOfTwo)
                    (by simpa using around)
                  omega
                rw [last] at passed'
                exact .full passed'
              · rename_i notAround
                refine inductionHypothesis ?_ (by omega) passed'
                by_contra beyond
                have last : distance + 1 = slots.length := by omega
                exact notAround (by rw [last, Nat.add_mod_right])

/-- A search started at a home and given one step for each slot ends. -/
theorem probe_ends
    (powerOfTwo : ∃ exponent, slots.length = 2 ^ exponent)
    (wanted : entry → Bool) (start : Nat) :
    ProbeEnds wanted slots start
      (probe wanted slots (start &&& (slots.length - 1)) slots.length
        (start &&& (slots.length - 1))) := by
  have ends := probe_ends_from powerOfTwo wanted start slots.length (length_pos powerOfTwo)
    (Nat.le_add_left _ 0) (fun before below => absurd below (Nat.not_lt_zero before))
  rw [mask_eq_mod powerOfTwo]
  simpa using ends

/-- Under the invariant, only a search that meets no wanted entry anywhere passes the
places where it could be. -/
theorem Reachable.not_mem_of_passed
    {wanted : entry → Bool} {start distance : Nat} {item : entry}
    (reachable : Reachable home slots)
    (passed : Passed wanted slots start distance)
    (stop : distance = slots.length ∨ slotAt slots start distance = none)
    (sameHome : home item = start)
    (isWanted : wanted item = true) :
    some item ∉ slots := by
  intro member
  obtain ⟨place, inside, stored, occupied⟩ := reachable.reach item member
  rw [sameHome] at stored occupied
  have before : place < distance := by
    rcases stop with isLength | isEmpty
    · omega
    · rcases Nat.lt_trichotomy place distance with before | rfl | behind
      · exact before
      · rw [stored] at isEmpty
        cases isEmpty
      · exact absurd isEmpty (occupied distance behind)
  obtain ⟨other, storedOther, unwanted⟩ := passed place before
  rw [stored] at storedOther
  cases storedOther
  rw [isWanted] at unwanted
  cases unwanted

/-! ## Filling a slot -/

theorem slotAt_set
    {start distance index : Nat} {item : entry}
    (inside : index < slots.length) :
    slotAt (slots.set index (some item)) start distance =
      if (start + distance) % slots.length = index then some item
      else slotAt slots start distance := by
  unfold slotAt
  rw [List.length_set, List.getD_eq_getElem?_getD, List.getD_eq_getElem?_getD, List.getElem?_set]
  by_cases isIndex : (start + distance) % slots.length = index
  · simp [isIndex, inside]
  · rw [if_neg isIndex, if_neg (fun same => isIndex same.symm)]

/-- Filling an empty slot that is reached from the entry's home over occupied slots keeps
the invariant. -/
theorem Reachable.set
    {distance : Nat} {item : entry}
    (reachable : Reachable home slots)
    (inside : distance < slots.length)
    (isEmpty : slotAt slots (home item) distance = none)
    (occupied : ∀ before < distance, slotAt slots (home item) before ≠ none) :
    Reachable home (slots.set ((home item + distance) % slots.length) (some item)) := by
  have within := Nat.mod_lt (home item + distance) (length_pos reachable.powerOfTwo)
  have stays (start before : Nat) (filled : slotAt slots start before ≠ none) :
      slotAt (slots.set ((home item + distance) % slots.length) (some item)) start before ≠
        none := by
    rw [slotAt_set within]
    split
    · exact Option.some_ne_none item
    · exact filled
  refine ⟨by simpa using reachable.powerOfTwo, ?_⟩
  intro other member
  rw [List.length_set]
  rcases List.mem_or_eq_of_mem_set member with old | new
  · obtain ⟨place, inside', stored, occupied'⟩ := reachable.reach other old
    refine ⟨place, inside', ?_, fun before below => stays _ _ (occupied' before below)⟩
    rw [slotAt_set within, if_neg, stored]
    intro same
    unfold slotAt at stored isEmpty
    rw [same, isEmpty] at stored
    cases stored
  · cases new
    refine ⟨distance, inside, ?_, fun before below => stays _ _ (occupied before below)⟩
    rw [slotAt_set within, if_pos rfl]

theorem mem_set_iff
    {index : Nat} {item other : entry}
    (inside : index < slots.length)
    (isEmpty : slots.getD index none = none) :
    some other ∈ slots.set index (some item) ↔ some other ∈ slots ∨ other = item := by
  constructor
  · intro member
    rcases List.mem_or_eq_of_mem_set member with old | new
    · exact .inl old
    · exact .inr (Option.some.inj new)
  · rintro (old | rfl)
    · obtain ⟨place, atPlace⟩ := List.getElem?_of_mem old
      have kept : (slots.set index (some item))[place]? = some (some other) := by
        rw [List.getElem?_set, if_neg, atPlace]
        rintro rfl
        rw [List.getD_eq_getElem?_getD, atPlace] at isEmpty
        cases isEmpty
      exact List.mem_of_getElem? kept
    · exact List.mem_set inside _

/-! ## Inserting and rehashing -/

/-- Where the search for a free slot ends, as long as there is one. -/
theorem findFree_spec
    (powerOfTwo : ∃ exponent, slots.length = 2 ^ exponent)
    (start fuel : Nat)
    {distance : Nat}
    (enough : slots.length ≤ distance + fuel)
    (occupied : ∀ before < distance, slotAt slots start before ≠ none)
    (isFree : ∃ place < slots.length, slotAt slots start place = none) :
    ∃ place < slots.length,
      findFree slots fuel ((start + distance) % slots.length) =
          some ((start + place) % slots.length) ∧
        slotAt slots start place = none ∧
          ∀ before < place, slotAt slots start before ≠ none := by
  obtain ⟨free, freeInside, freeEmpty⟩ := isFree
  have notPassed : distance ≤ free := by
    by_contra passed
    exact occupied free (by omega) freeEmpty
  induction fuel generalizing distance with
  | zero =>
      omega
  | succ fuel inductionHypothesis =>
      rw [findFree, next_mod powerOfTwo]
      cases stored : slotAt slots start distance with
      | none =>
          rw [show slots.getD ((start + distance) % slots.length) none = none from stored]
          exact ⟨distance, by omega, rfl, stored, occupied⟩
      | some item =>
          rw [show slots.getD ((start + distance) % slots.length) none = some item from stored]
          have notHere : distance ≠ free := by
            rintro rfl
            rw [stored] at freeEmpty
            cases freeEmpty
          refine inductionHypothesis (by omega) ?_ (by omega)
          intro before below
          rcases Nat.lt_succ_iff_lt_or_eq.mp below with earlier | rfl
          · exact occupied before earlier
          · rw [stored]
            exact Option.some_ne_none item

/-- A table with an empty slot has one at some distance from every home. -/
theorem exists_slotAt_none
    {index : Nat}
    (inside : index < slots.length)
    (isEmpty : slots.getD index none = none)
    (start : Nat) :
    ∃ place < slots.length, slotAt slots start place = none := by
  have positive : 0 < slots.length := by omega
  have startBelow := Nat.mod_lt start positive
  refine ⟨(index + (slots.length - start % slots.length)) % slots.length,
    Nat.mod_lt _ positive, ?_⟩
  have back : (start + (index + (slots.length - start % slots.length)) % slots.length) %
      slots.length = index := by
    rw [Nat.add_mod_mod, ← Nat.mod_add_mod,
      show start % slots.length + (index + (slots.length - start % slots.length)) =
        index + slots.length by omega,
      Nat.add_mod_right, Nat.mod_eq_of_lt inside]
  rw [slotAt, back, isEmpty]

/-- The number of occupied slots. -/
def occupancy (slots : List (Option entry)) : Nat :=
  slots.countP Option.isSome

theorem exists_empty_of_occupancy
    (room : occupancy slots < slots.length) :
    ∃ index < slots.length, slots.getD index none = none := by
  by_contra allFull
  have isFull : ∀ slot ∈ slots, slot.isSome = true := by
    intro slot member
    obtain ⟨index, atIndex⟩ := List.getElem?_of_mem member
    have inside := (List.getElem?_eq_some_iff.mp atIndex).1
    cases slot with
    | none =>
        exact absurd ⟨index, inside, by rw [List.getD_eq_getElem?_getD, atIndex]; rfl⟩ allFull
    | some item =>
        rfl
  rw [occupancy, List.countP_eq_length.mpr isFull] at room
  exact absurd room (Nat.lt_irrefl _)

theorem occupancy_set
    {index : Nat} {item : entry}
    (inside : index < slots.length)
    (isEmpty : slots.getD index none = none) :
    occupancy (slots.set index (some item)) = occupancy slots + 1 := by
  induction slots generalizing index with
  | nil =>
      simp at inside
  | cons slot rest inductionHypothesis =>
      cases index with
      | zero =>
          simp only [List.getD_cons_zero] at isEmpty
          simp [occupancy, isEmpty]
      | succ index =>
          simp only [List.getD_cons_succ] at isEmpty
          have shorter := inductionHypothesis (Nat.lt_of_succ_lt_succ inside) isEmpty
          simp only [occupancy, List.set_cons_succ, List.countP_cons] at shorter ⊢
          omega

/-- What one insertion does to a table that is not full. -/
structure Inserted (home : entry → Nat) (slots slots' : List (Option entry)) (item : entry) :
    Prop where
  reachable : Reachable home slots'
  length : slots'.length = slots.length
  occupancy : occupancy slots' = occupancy slots + 1
  mem_iff : ∀ other, some other ∈ slots' ↔ some other ∈ slots ∨ other = item

theorem inserted_set
    {distance : Nat} {item : entry}
    (reachable : Reachable home slots)
    (inside : distance < slots.length)
    (isEmpty : slotAt slots (home item) distance = none)
    (occupied : ∀ before < distance, slotAt slots (home item) before ≠ none) :
    Inserted home slots (slots.set ((home item + distance) % slots.length) (some item)) item := by
  have within := Nat.mod_lt (home item + distance) (length_pos reachable.powerOfTwo)
  exact ⟨reachable.set inside isEmpty occupied, List.length_set, occupancy_set within isEmpty,
    fun other => mem_set_iff within isEmpty⟩

theorem insert_inserted
    (reachable : Reachable home slots)
    (room : occupancy slots < slots.length)
    (item : entry) :
    Inserted home slots (insert home slots item) item := by
  obtain ⟨index, inside, isEmpty⟩ := exists_empty_of_occupancy room
  obtain ⟨place, placeInside, found, placeEmpty, occupied⟩ :=
    findFree_spec reachable.powerOfTwo (home item) slots.length (Nat.le_add_left _ 0)
      (fun before below => absurd below (Nat.not_lt_zero before))
      (exists_slotAt_none inside isEmpty (home item))
  rw [Nat.add_zero] at found
  rw [insert, mask_eq_mod reachable.powerOfTwo, found]
  exact inserted_set reachable placeInside placeEmpty occupied

theorem rehash_spec
    (old new : List (Option entry))
    (reachable : Reachable home new)
    (room : occupancy old + occupancy new < new.length) :
    Reachable home (rehash home old new) ∧
      (rehash home old new).length = new.length ∧
        occupancy (rehash home old new) = occupancy old + occupancy new ∧
          ∀ item, some item ∈ rehash home old new ↔ some item ∈ old ∨ some item ∈ new := by
  induction old generalizing new with
  | nil =>
      simp [rehash, reachable, occupancy]
  | cons slot rest inductionHypothesis =>
      cases slot with
      | none =>
          have smaller := inductionHypothesis _ reachable (by simpa [occupancy] using room)
          simpa [rehash, occupancy] using smaller
      | some item =>
          have countEq : occupancy (some item :: rest) = occupancy rest + 1 := by
            simp [occupancy]
          rw [countEq] at room ⊢
          have inserted := insert_inserted reachable (by omega) item
          have roomLeft : occupancy rest + occupancy (insert home new item) <
              (insert home new item).length := by
            rw [inserted.occupancy, inserted.length]
            omega
          obtain ⟨reachable', lengthEq, occupancyEq, members⟩ :=
            inductionHypothesis _ inserted.reachable roomLeft
          refine ⟨reachable', lengthEq.trans inserted.length, ?_, ?_⟩
          · rw [show rehash home (some item :: rest) new =
              rehash home rest (insert home new item) from rfl, occupancyEq, inserted.occupancy]
            omega
          · intro other
            rw [show rehash home (some item :: rest) new =
              rehash home rest (insert home new item) from rfl, members, inserted.mem_iff,
              List.mem_cons, Option.some.injEq]
            tauto

/-- A new table has no entries. -/
theorem reachable_replicate (home : entry → Nat) (exponent : Nat) :
    Reachable home (List.replicate (2 ^ exponent) none) := by
  refine ⟨⟨exponent, List.length_replicate⟩, ?_⟩
  intro item member
  cases List.eq_of_mem_replicate member

theorem occupancy_replicate (count : Nat) :
    occupancy (List.replicate count (none : Option entry)) = 0 := by
  simp [occupancy]

theorem occupancy_le (slots : List (Option entry)) : occupancy slots ≤ slots.length :=
  List.countP_le_length

/-- Growing a table to twice its size keeps its entries and leaves room. -/
theorem rehash_double
    (reachable : Reachable home slots) :
    Reachable home (rehash home slots (List.replicate (slots.length * 2) none)) ∧
      occupancy (rehash home slots (List.replicate (slots.length * 2) none)) =
        occupancy slots ∧
        ∀ item, some item ∈ rehash home slots (List.replicate (slots.length * 2) none) ↔
          some item ∈ slots := by
  obtain ⟨exponent, lengthEq⟩ := reachable.powerOfTwo
  have positive := length_pos reachable.powerOfTwo
  have doubled : slots.length * 2 = 2 ^ (exponent + 1) := by rw [lengthEq, Nat.pow_succ]
  have fits := occupancy_le slots
  obtain ⟨reachable', _, occupancyEq, members⟩ :=
    rehash_spec slots (List.replicate (slots.length * 2) none)
      (by rw [doubled]; exact reachable_replicate home _)
      (by rw [occupancy_replicate, List.length_replicate]; omega)
  refine ⟨reachable', by rw [occupancyEq, occupancy_replicate, Nat.add_zero], ?_⟩
  intro item
  rw [members]
  simp [List.mem_replicate]

end PicoJvm.Lib.OpenAddressing
