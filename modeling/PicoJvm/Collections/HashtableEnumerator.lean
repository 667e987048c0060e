import PicoJvm.Collections.HashtableGrowth

/-!
# Enumerations of a hashtable

`HashtableEnumerator` goes through the buckets from the last to the first. Both of its methods move
the index, also when it is below zero already.
-/

namespace PicoJvm.Collections

open PicoJvm.Lib PicoJvm.Lib.Machine

variable {key value : Type}

/-! ## The enumerator -/

/-- A call of one of the methods. -/
inductive Call
  | hasMoreElements
  | nextElement
  deriving DecidableEq, Repr

/-- What a call comes to. -/
inductive Reply (key value : Type)
  | truth (more : Bool)
  | element (element : key ⊕ value)
  | noSuchElement
  | arrayIndexOutOfBounds
  deriving DecidableEq, Repr

/-- `HashtableEnumerator`, of a table that nobody changes. -/
structure Enumerator where
  index : Int
  entry : Option Nat
  deriving DecidableEq, Repr

/-- `new HashtableEnumerator(table, keys)`. -/
def newEnumerator (table : List (Option Nat)) : Enumerator :=
  { index := table.length, entry := none }

/-- How the loop over the buckets ends. -/
inductive Scan
  | found (index e : Nat)
  | exhausted
  | outOfBounds (index : Nat)
  deriving DecidableEq, Repr

/-- `while (index-- > 0)` a bucket is looked at, until one is not empty. -/
def scan (table : List (Option Nat)) : Nat → Scan
  | 0 => .exhausted
  | index + 1 =>
      match table[index]? with
      | none => .outOfBounds index
      | some none => scan table index
      | some (some e) => .found index e

/-- The loop of both methods, and whether it throws an exception. -/
def Enumerator.advance (self : Enumerator) (table : List (Option Nat)) : Enumerator × Bool :=
  if 0 < self.index then
    match scan table self.index.toNat with
    | .found index e => ({ index := index, entry := some e }, false)
    | .exhausted => ({ index := -1, entry := none }, false)
    | .outOfBounds index => ({ index := index, entry := none }, true)
  else
    ({ index := signed (self.index - 1), entry := none }, false)

/-- `hasMoreElements`. -/
def Enumerator.hasMoreElements (self : Enumerator) (hashtable : Hashtable key value) :
    Reply key value × Enumerator :=
  if self.entry.isSome then
    (.truth true, self)
  else
    let (moved, thrown) := self.advance hashtable.table
    (if thrown then .arrayIndexOutOfBounds else .truth moved.entry.isSome, moved)

/-- `keys ? e.key : e.value`. -/
def elementOf (keys : Bool) (binding : key × value) : key ⊕ value :=
  if keys then .inl binding.1 else .inr binding.2

/-- The end of `nextElement`. -/
def Enumerator.deliver (self : Enumerator) (hashtable : Hashtable key value) (keys : Bool) :
    Reply key value × Enumerator :=
  match self.entry.bind fun e => hashtable.entries[e]? with
  | none => (.noSuchElement, self)
  | some entry =>
      (.element (elementOf keys (entry.key, entry.value)), { self with entry := entry.next })

/-- `nextElement`. -/
def Enumerator.nextElement (self : Enumerator) (hashtable : Hashtable key value) (keys : Bool) :
    Reply key value × Enumerator :=
  if self.entry.isSome then
    self.deliver hashtable keys
  else
    let (moved, thrown) := self.advance hashtable.table
    if thrown then (.arrayIndexOutOfBounds, moved) else moved.deliver hashtable keys

def Enumerator.call (self : Enumerator) (hashtable : Hashtable key value) (keys : Bool) :
    Call → Reply key value × Enumerator
  | .hasMoreElements => self.hasMoreElements hashtable
  | .nextElement => self.nextElement hashtable keys

/-- The element that a reply delivers. -/
def Reply.delivered : Reply key value → Option (key ⊕ value)
  | .element found => some found
  | _ => none

/-- The elements that calls deliver, one after the other. -/
def Enumerator.elements (hashtable : Hashtable key value) (keys : Bool) :
    Enumerator → List Call → List (key ⊕ value)
  | _, [] => []
  | self, call :: calls =>
      (self.call hashtable keys call).1.delivered.toList ++
        Enumerator.elements hashtable keys (self.call hashtable keys call).2 calls

/-- The calls behind the one that delivers the last of some elements. -/
def pastEnd : Nat → List Call → List Call
  | 0, calls => calls
  | _ + 1, [] => []
  | count + 1, .hasMoreElements :: calls => pastEnd (count + 1) calls
  | count + 1, .nextElement :: calls => pastEnd count calls

/-! ## What is still ahead -/

variable {objects : Objects key value} {hashtable : Hashtable key value}
  {chains : List (List Nat)}

/-- The cells that an enumerator has not delivered. -/
def Ahead (hashtable : Hashtable key value) (chains : List (List Nat)) (enumerator : Enumerator)
    (cells : List Nat) : Prop :=
  ∃ (index : Nat) (current : List Nat),
    enumerator.index = index ∧ index ≤ hashtable.table.length ∧
      Linked hashtable.next enumerator.entry current ∧
        cells = current ++ (chains.take index).reverse.flatten

theorem take_succ_flatten
    {index : Nat} {cells : List Nat}
    (isChain : chains[index]? = some cells) :
    (chains.take (index + 1)).reverse.flatten =
      cells ++ (chains.take index).reverse.flatten := by
  obtain ⟨inside, rfl⟩ := List.getElem?_eq_some_iff.mp isChain
  rw [List.take_add_one, List.getElem?_eq_getElem inside, Option.toList_some, List.reverse_append,
    List.reverse_singleton, List.singleton_append, List.flatten_cons]

/-- What the loop over the buckets comes to. -/
theorem scan_spec
    (linked : LinkedAll hashtable.next hashtable.table chains)
    {index : Nat}
    (inside : index ≤ hashtable.table.length) :
    (scan hashtable.table index = .exhausted ∧ (chains.take index).reverse.flatten = []) ∨
      ∃ index' e rest, scan hashtable.table index = .found index' e ∧ index' < index ∧
        Linked hashtable.next (some e) (e :: rest) ∧
          (chains.take index).reverse.flatten =
            e :: rest ++ (chains.take index').reverse.flatten := by
  induction index with
  | zero =>
      exact Or.inl ⟨rfl, by simp⟩
  | succ index inductionHypothesis =>
      have below : index < hashtable.table.length := inside
      obtain ⟨cells, isChain, linkedHere⟩ := linked.chain_at below
      rw [List.getD_eq_getElem?_getD, List.getElem?_eq_getElem below, Option.getD_some]
        at linkedHere
      rw [take_succ_flatten isChain, scan, List.getElem?_eq_getElem below]
      cases isHead : hashtable.table[index] with
      | none =>
          rw [isHead, linked_none_iff] at linkedHere
          rw [linkedHere, List.nil_append]
          rcases inductionHypothesis (Nat.le_of_lt below) with
            ended | ⟨index', e, rest, isFound, before, found⟩
          · exact Or.inl ended
          · exact Or.inr ⟨index', e, rest, isFound, Nat.lt_succ_of_lt before, found⟩
      | some e =>
          rw [isHead] at linkedHere
          obtain ⟨rest, rfl, behind⟩ := linked_some_iff.mp linkedHere
          exact Or.inr ⟨index, e, rest, rfl, Nat.lt_succ_self _, linkedHere, rfl⟩

/-- Without a current entry the loop moves on to the next cell, or to the end. -/
theorem Ahead.advance
    {enumerator : Enumerator} {cells : List Nat}
    (ahead : Ahead hashtable chains enumerator cells)
    (linked : LinkedAll hashtable.next hashtable.table chains)
    (noEntry : enumerator.entry = none) :
    (cells = [] ∧ enumerator.advance hashtable.table = ({ index := -1, entry := none }, false)) ∨
      ∃ e rest moved, cells = e :: rest ∧ moved.entry = some e ∧
        enumerator.advance hashtable.table = (moved, false) ∧
          Ahead hashtable chains moved cells := by
  obtain ⟨index, current, isIndex, inside, isCurrent, rfl⟩ := ahead
  rw [noEntry, linked_none_iff] at isCurrent
  subst isCurrent
  rw [List.nil_append]
  by_cases positive : 0 < index
  · have isPositive : 0 < enumerator.index := by omega
    rw [Enumerator.advance, if_pos isPositive, isIndex, Int.toNat_natCast]
    rcases scan_spec linked inside with
      ⟨ended, isEmpty⟩ | ⟨index', e, rest, isFound, before, linkedHere, split⟩
    · rw [ended]
      exact Or.inl ⟨isEmpty, rfl⟩
    · rw [isFound]
      refine Or.inr ⟨e, _, _, split, rfl, rfl, index', e :: rest, rfl, ?_, linkedHere, split⟩
      exact Nat.le_trans (Nat.le_of_lt before) inside
  · have isZero : index = 0 := Nat.eq_zero_of_not_pos positive
    subst isZero
    left
    rw [Enumerator.advance, isIndex]
    exact ⟨by simp, rfl⟩

/-- What a cell delivers. -/
theorem Ahead.deliver
    {enumerator : Enumerator} {e : Nat} {rest : List Nat} {entry : Entry key value}
    (ahead : Ahead hashtable chains enumerator (e :: rest))
    (isCurrent : enumerator.entry = some e)
    (isEntry : hashtable.entries[e]? = some entry)
    (keys : Bool) :
    ∃ moved, enumerator.deliver hashtable keys =
        (.element (elementOf keys (entry.key, entry.value)), moved) ∧
      Ahead hashtable chains moved rest := by
  obtain ⟨index, current, isIndex, inside, linked, split⟩ := ahead
  rw [isCurrent] at linked
  obtain ⟨behind, rfl, linkedBehind⟩ := linked_some_iff.mp linked
  rw [List.cons_append, List.cons.injEq] at split
  refine ⟨{ enumerator with entry := entry.next }, ?_, index, behind, isIndex, inside, ?_, split.2⟩
  · simp [Enumerator.deliver, isCurrent, isEntry]
  · rw [Hashtable.next, isEntry] at linkedBehind
    exact linkedBehind

/-- A call while there are cells ahead. -/
theorem Ahead.call
    {enumerator : Enumerator} {e : Nat} {rest : List Nat} {entry : Entry key value}
    (ahead : Ahead hashtable chains enumerator (e :: rest))
    (linked : LinkedAll hashtable.next hashtable.table chains)
    (isEntry : hashtable.entries[e]? = some entry)
    (keys : Bool) :
    (∃ moved, enumerator.call hashtable keys .hasMoreElements = (.truth true, moved) ∧
        Ahead hashtable chains moved (e :: rest)) ∧
      ∃ moved, enumerator.call hashtable keys .nextElement =
          (.element (elementOf keys (entry.key, entry.value)), moved) ∧
        Ahead hashtable chains moved rest := by
  cases isCurrent : enumerator.entry with
  | none =>
      rcases ahead.advance linked isCurrent with
        ⟨impossible, _⟩ | ⟨e', rest', moved, split, isMoved, advanced, aheadMoved⟩
      · cases impossible
      · rw [List.cons.injEq] at split
        obtain ⟨rfl, rfl⟩ := split
        constructor
        · refine ⟨moved, ?_, aheadMoved⟩
          simp [Enumerator.call, Enumerator.hasMoreElements, isCurrent, advanced, isMoved]
        · obtain ⟨behind, delivered, aheadBehind⟩ := aheadMoved.deliver isMoved isEntry keys
          refine ⟨behind, ?_, aheadBehind⟩
          simp [Enumerator.call, Enumerator.nextElement, isCurrent, advanced, delivered]
  | some current =>
      have same : current = e := by
        obtain ⟨index, cells, _, _, isLinked, split⟩ := ahead
        rw [isCurrent] at isLinked
        obtain ⟨behind, rfl, _⟩ := linked_some_iff.mp isLinked
        rw [List.cons_append, List.cons.injEq] at split
        exact split.1.symm
      subst same
      constructor
      · refine ⟨enumerator, ?_, ahead⟩
        simp [Enumerator.call, Enumerator.hasMoreElements, isCurrent]
      · obtain ⟨behind, delivered, aheadBehind⟩ := ahead.deliver isCurrent isEntry keys
        refine ⟨behind, ?_, aheadBehind⟩
        simp [Enumerator.call, Enumerator.nextElement, isCurrent, delivered]

/-! ## Past the end -/

/-- An enumerator behind a number of calls that came too late. -/
def past (count : Nat) : Enumerator :=
  { index := signed (-count), entry := none }

@[simp] theorem past_index (count : Nat) : (past count).index = signed (-count) :=
  rfl

theorem call_of_advance
    {enumerator moved : Enumerator} {thrown : Bool}
    (noEntry : enumerator.entry = none)
    (advanced : enumerator.advance hashtable.table = (moved, thrown))
    (ended : moved.entry = none)
    (keys : Bool)
    (call : Call) :
    (enumerator.call hashtable keys call).1.delivered = none ∧
      (enumerator.call hashtable keys call).2 = moved := by
  cases call with
  | hasMoreElements =>
      cases thrown <;>
        simp [Enumerator.call, Enumerator.hasMoreElements, noEntry, advanced, Reply.delivered]
  | nextElement =>
      cases thrown <;>
        simp [Enumerator.call, Enumerator.nextElement, Enumerator.deliver, noEntry, advanced, ended,
          Reply.delivered]

/-- The first call that comes too late. -/
theorem Ahead.call_end
    {enumerator : Enumerator}
    (ahead : Ahead hashtable chains enumerator [])
    (linked : LinkedAll hashtable.next hashtable.table chains)
    (keys : Bool)
    (call : Call) :
    (enumerator.call hashtable keys call).1.delivered = none ∧
      (enumerator.call hashtable keys call).2 = past 1 := by
  have noEntry : enumerator.entry = none := by
    obtain ⟨index, current, _, _, isCurrent, split⟩ := ahead
    rw [(List.append_eq_nil_iff.mp split.symm).1] at isCurrent
    exact isCurrent
  rcases ahead.advance linked noEntry with ⟨_, advanced⟩ | ⟨e, rest, _, impossible, _⟩
  · exact call_of_advance noEntry advanced rfl keys call
  · cases impossible

theorem scan_outOfBounds {table : List (Option Nat)} {index : Nat} (outside : table.length ≤ index) :
    scan table (index + 1) = .outOfBounds index := by
  rw [scan, List.getElem?_eq_none outside]

theorem signed_neg_small {count : Nat} (small : count ≤ 2147483648) :
    signed (-(count : Int)) = -(count : Int) :=
  signed_of_inRange ⟨by omega, by omega⟩

theorem signed_neg_large
    {count : Nat}
    (large : 2147483648 < count)
    (bounded : count ≤ 4294967296) :
    signed (-(count : Int)) = 4294967296 - count := by
  simp only [signed, Int.bmod]
  split <;> omega

/-- A later call finds nothing, and only moves the index. -/
theorem past_call
    {count : Nat}
    (before : count + hashtable.table.length < 4294967296)
    (keys : Bool)
    (call : Call) :
    ((past count).call hashtable keys call).1.delivered = none ∧
      ((past count).call hashtable keys call).2 = past (count + 1) := by
  have less : signed (signed (-(count : Int)) - 1) = signed (-((count + 1 : Nat) : Int)) := by
    rw [Int.sub_eq_add_neg, Int.add_comm, signed_add_signed]
    congr 1
    omega
  by_cases small : count ≤ 2147483648
  · have advanced : (past count).advance hashtable.table = (past (count + 1), false) := by
      have notPositive : ¬ 0 < (past count).index := by
        rw [past_index, signed_neg_small small]
        omega
      rw [Enumerator.advance, if_neg notPositive, past, less, past]
    exact call_of_advance rfl advanced rfl keys call
  · have isIndex : (past count).index = (4294967296 - count - 1 : Nat) + 1 := by
      rw [past_index, signed_neg_large (by omega) (by omega)]
      omega
    have isNext : past (count + 1) =
        { index := (4294967296 - count - 1 : Nat), entry := none } := by
      have asNat : (4294967296 : Int) - ((count + 1 : Nat) : Int) =
          ((4294967296 - count - 1 : Nat) : Int) := by omega
      rw [past, signed_neg_large (by omega) (by omega), asNat]
    have advanced : (past count).advance hashtable.table = (past (count + 1), true) := by
      have positive : 0 < (past count).index := by omega
      have asNat : (past count).index.toNat = 4294967296 - count - 1 + 1 := by omega
      rw [Enumerator.advance, if_pos positive, asNat, scan_outOfBounds (by omega), isNext]
    exact call_of_advance rfl advanced rfl keys call

/-- After so many of them the index is back at the length of the table. -/
theorem past_wraps
    (positive : 0 < hashtable.table.length)
    (bounded : hashtable.table.length < 2147483648) :
    past (4294967296 - hashtable.table.length) = newEnumerator hashtable.table := by
  have asNat : (4294967296 : Int) - ((4294967296 - hashtable.table.length : Nat) : Int) =
      (hashtable.table.length : Int) := by omega
  rw [past, newEnumerator, signed_neg_large (by omega) (by omega), asNat]

theorem elements_past
    (keys : Bool)
    (positive : 0 < hashtable.table.length)
    (bounded : hashtable.table.length < 2147483648)
    {count : Nat}
    (before : count + hashtable.table.length ≤ 4294967296)
    (calls : List Call) :
    Enumerator.elements hashtable keys (past count) calls =
      Enumerator.elements hashtable keys (newEnumerator hashtable.table)
        (calls.drop (4294967296 - hashtable.table.length - count)) := by
  induction calls generalizing count with
  | nil =>
      rw [List.drop_nil]
      rfl
  | cons call calls inductionHypothesis =>
      by_cases wraps : count + hashtable.table.length = 4294967296
      · have isCount : count = 4294967296 - hashtable.table.length := by omega
        rw [isCount, past_wraps positive bounded, Nat.sub_self, List.drop_zero]
      · have late : count + hashtable.table.length < 4294967296 := by omega
        obtain ⟨nothing, moved⟩ := past_call late keys call
        have onwards :
            Enumerator.elements hashtable keys (past (count + 1)) calls =
              Enumerator.elements hashtable keys (newEnumerator hashtable.table)
                (calls.drop (4294967296 - hashtable.table.length - (count + 1))) :=
          inductionHypothesis (by omega)
        rw [Enumerator.elements, nothing, moved, onwards]
        obtain ⟨left, isLeft⟩ :
            ∃ left, 4294967296 - hashtable.table.length - count = left + 1 :=
          ⟨4294967296 - hashtable.table.length - count - 1, by omega⟩
        have isRest : 4294967296 - hashtable.table.length - (count + 1) = left := by omega
        rw [isLeft, isRest, List.drop_succ_cons]
        rfl

/-! ## Whole enumerations -/

/-- All cells, in the order in which they are delivered. -/
def inOrder (chains : List (List Nat)) : List Nat :=
  chains.reverse.flatten

theorem ahead_new (linked : LinkedAll hashtable.next hashtable.table chains) :
    Ahead hashtable chains (newEnumerator hashtable.table) (inOrder chains) := by
  refine ⟨hashtable.table.length, [], rfl, Nat.le_refl _, rfl, ?_⟩
  rw [List.Forall₂.length_eq linked, List.take_length]
  rfl

theorem pastEnd_nil (count : Nat) : pastEnd count [] = [] := by
  cases count <;> rfl

/-- Until the last cell has been delivered every cell is, in order. -/
theorem elements_ahead
    (linked : LinkedAll hashtable.next hashtable.table chains)
    (keys : Bool)
    {cells : List Nat}
    (valid : ∀ e ∈ cells, ∃ entry, hashtable.entries[e]? = some entry)
    {enumerator : Enumerator}
    (ahead : Ahead hashtable chains enumerator cells)
    (calls : List Call) :
    ∃ ended, Ahead hashtable chains ended [] ∧
      Enumerator.elements hashtable keys enumerator calls =
        ((bindingsOf hashtable.entries cells).map (elementOf keys)).take
            (calls.count .nextElement) ++
          Enumerator.elements hashtable keys ended (pastEnd cells.length calls) := by
  induction calls generalizing cells enumerator with
  | nil =>
      refine ⟨{ index := 0, entry := none }, ⟨0, [], rfl, Nat.zero_le _, rfl, by simp⟩, ?_⟩
      rw [pastEnd_nil, List.count_nil, List.take_zero]
      rfl
  | cons call calls inductionHypothesis =>
      cases cells with
      | nil => exact ⟨enumerator, ahead, by simp [bindingsOf, pastEnd]⟩
      | cons e rest =>
          obtain ⟨⟨entry, isEntry⟩, validRest⟩ := List.forall_mem_cons.mp valid
          obtain ⟨⟨asked, isAsked, aheadAsked⟩, taken, isTaken, aheadTaken⟩ :=
            ahead.call linked isEntry keys
          cases call with
          | hasMoreElements =>
              obtain ⟨ended, isEnd, onwards⟩ := inductionHypothesis valid aheadAsked
              refine ⟨ended, isEnd, ?_⟩
              rw [Enumerator.elements, isAsked]
              simp only [Reply.delivered, Option.toList_none, List.nil_append, onwards]
              simp [pastEnd]
          | nextElement =>
              obtain ⟨ended, isEnd, onwards⟩ := inductionHypothesis validRest aheadTaken
              refine ⟨ended, isEnd, ?_⟩
              rw [Enumerator.elements, isTaken, bindingsOf_cons isEntry]
              simp only [Reply.delivered, Option.toList_some, onwards]
              simp [pastEnd]

/-- Behind the end nothing is delivered until the index has wrapped around. -/
theorem elements_end
    (linked : LinkedAll hashtable.next hashtable.table chains)
    (keys : Bool)
    (positive : 0 < hashtable.table.length)
    (bounded : hashtable.table.length < 2147483648)
    {enumerator : Enumerator}
    (ended : Ahead hashtable chains enumerator [])
    (calls : List Call) :
    Enumerator.elements hashtable keys enumerator calls =
      Enumerator.elements hashtable keys (newEnumerator hashtable.table)
        (calls.drop (4294967296 - hashtable.table.length)) := by
  cases calls with
  | nil =>
      rw [List.drop_nil]
      rfl
  | cons call calls =>
      obtain ⟨nothing, moved⟩ := ended.call_end linked keys call
      obtain ⟨left, isLeft⟩ : ∃ left, 4294967296 - hashtable.table.length = left + 1 :=
        ⟨4294967296 - hashtable.table.length - 1, by omega⟩
      have isRest : 4294967296 - hashtable.table.length - 1 = left := by omega
      rw [Enumerator.elements, nothing, moved, elements_past keys positive bounded (by omega),
        isLeft, List.drop_succ_cons, ← isLeft, isRest]
      rfl

/-- The calls after which the enumeration has begun again. -/
def wrapped (capacity count : Nat) (calls : List Call) : List Call :=
  (pastEnd count calls).drop (4294967296 - capacity)

/-- An enumeration delivers every cell once, and then begins again when the index wraps around. -/
theorem elements_new
    (holds : Holds objects hashtable chains)
    (bounded : hashtable.table.length < 2147483648)
    (keys : Bool)
    (calls : List Call) :
    Enumerator.elements hashtable keys (newEnumerator hashtable.table) calls =
      ((bindingsOf hashtable.entries (inOrder chains)).map (elementOf keys)).take
          (calls.count .nextElement) ++
        Enumerator.elements hashtable keys (newEnumerator hashtable.table)
          (wrapped hashtable.table.length (inOrder chains).length calls) := by
  have valid : ∀ e ∈ inOrder chains, ∃ entry, hashtable.entries[e]? = some entry := by
    intro e listed
    obtain ⟨entry, isEntry, _⟩ :=
      holds.entry_of_mem ((List.reverse_perm chains).flatten.mem_iff.mp listed)
    exact ⟨entry, isEntry⟩
  obtain ⟨ended, isEnd, split⟩ :=
    elements_ahead holds.linked keys valid (ahead_new holds.linked) calls
  rw [split, elements_end holds.linked keys holds.nonempty bounded isEnd]
  rfl

end PicoJvm.Collections
