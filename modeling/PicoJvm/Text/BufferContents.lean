import PicoJvm.Text.StringBuffer

/-!
# What the methods of a string buffer do

Each method changes the characters of the buffer as its documentation says, and leaves alone the
characters that strings share with it.
-/

namespace PicoJvm.Text

open PicoJvm.Lib PicoJvm.Lib.Attempt
open PicoJvm.Lib.Machine (signed signed_of_inRange)
open PicoJvm.Lib.Ring (overwrite overwrite_length)

-- what is ensured of a method is not found out by running it
attribute [local irreducible] Ensures

/-! ## Stores -/

/-- The characters of the buffer. -/
def Store.content (store : Store) : Chars :=
  store.value.take store.this.count

/-- The buffer has an array of the heap, and its characters fit. -/
structure Store.Valid (store : Store) : Prop where
  owned : store.this.value < store.heap.next
  count_le : store.this.count ≤ store.value.length
  short : store.value.length ≤ 0x08000000

/-- What strings may rely on. Arrays keep their characters, of the buffer's array those that the
buffer shares; and the buffer goes on sharing, or has an array that no string has. -/
structure Frame (before after : Store) : Prop where
  next_le : before.heap.next ≤ after.heap.next
  kept : ∀ array < before.heap.next, ∀ length,
    (array = before.this.value → before.this.shared = true ∧ length ≤ before.this.count) →
      (after.heap.arrays array).take length = (before.heap.arrays array).take length
  owner : after.this.value = before.this.value ∧
      (before.this.shared = true →
        after.this.shared = true ∧ before.this.count ≤ after.this.count) ∨
    before.heap.next ≤ after.this.value

theorem Frame.refl (store : Store) : Frame store store where
  next_le := le_rfl
  kept _ _ _ _ := rfl
  owner := .inl ⟨rfl, fun shared => ⟨shared, le_rfl⟩⟩

theorem Frame.trans
    {before middle after : Store}
    (first : Frame before middle)
    (second : Frame middle after) :
    Frame before after where
  next_le := first.next_le.trans second.next_le
  kept := by
    intro array allocated length guarded
    rw [← first.kept array allocated length guarded]
    refine second.kept array (allocated.trans_le first.next_le) length fun isValue => ?_
    rcases first.owner with ⟨same, shares⟩ | fresh
    · have both := guarded (isValue.trans same)
      have still := shares both.1
      exact ⟨still.1, both.2.trans still.2⟩
    · omega
  owner := by
    rcases second.owner with ⟨same, shares⟩ | fresh
    · rcases first.owner with ⟨same', shares'⟩ | fresh'
      · refine .inl ⟨same.trans same', fun shared => ?_⟩
        have middleShares := shares' shared
        have afterShares := shares middleShares.1
        exact ⟨afterShares.1, middleShares.2.trans afterShares.2⟩
      · exact .inr (by omega)
    · exact .inr (first.next_le.trans fresh)

/-- A string whose characters the buffer does not change. -/
structure Guarded (string : JavaString) (store : Store) : Prop where
  allocated : string.value < store.heap.next
  inside : string.offset + string.count ≤ (store.heap.arrays string.value).length
  sharing : string.value = store.this.value →
    store.this.shared = true ∧ string.offset + string.count ≤ store.this.count

theorem Frame.chars_eq
    {before after : Store} {string : JavaString}
    (frame : Frame before after)
    (guarded : Guarded string before) :
    string.chars after.heap = string.chars before.heap := by
  have same := frame.kept string.value guarded.allocated (string.offset + string.count)
    guarded.sharing
  have dropped := congrArg (List.drop string.offset) same
  simpa [JavaString.chars, List.drop_take] using dropped

theorem Guarded.after
    {before after : Store} {string : JavaString}
    (guarded : Guarded string before)
    (frame : Frame before after) :
    Guarded string after where
  allocated := guarded.allocated.trans_le frame.next_le
  inside := by
    have same := congrArg List.length (frame.kept string.value guarded.allocated
      (string.offset + string.count) guarded.sharing)
    have inside := guarded.inside
    rw [List.length_take, List.length_take] at same
    omega
  sharing := by
    intro isValue
    rcases frame.owner with ⟨same, shares⟩ | fresh
    · have both := guarded.sharing (isValue.trans same)
      have still := shares both.1
      exact ⟨still.1, both.2.trans still.2⟩
    · have := guarded.allocated
      omega

/-! ## Parts of methods -/

/-- What a part of a method, or a method, leaves behind. -/
structure Leaves (before : Store) (content : Chars) (after : Store) : Prop where
  valid : after.Valid
  frame : Frame before after
  content_eq : after.content = content

/-- A method that fails leaves the characters as they were, and does not fail by a fault. -/
def FailsUnchanged (before : Store) (thrown : Throwable) (after : Store) : Prop :=
  thrown ≠ .fault ∧ Leaves before before.content after

theorem Leaves.refl
    {store : Store}
    (valid : store.Valid) :
    Leaves store store.content store :=
  ⟨valid, .refl store, rfl⟩

theorem Leaves.trans
    {before middle after : Store} {content : Chars}
    (first : Leaves before middle.content middle)
    (second : Leaves middle content after) :
    Leaves before content after :=
  ⟨second.valid, first.frame.trans second.frame, second.content_eq⟩

theorem onHeap_ensures
    {result : Type} {attempt : EStateM Throwable Heap result} {store : Store}
    {onOk : result → Store → Prop} {onError : Throwable → Store → Prop}
    (ensured : Ensures attempt store.heap
      (fun value heap => onOk value { store with heap := heap })
      (fun thrown heap => onError thrown { store with heap := heap })) :
    Ensures (onHeap attempt) store onOk onError := by
  unfold Ensures at ensured ⊢
  simp only [EStateM.run, onHeap] at ensured ⊢
  cases ran : attempt store.heap with
  | ok value heap =>
      rw [ran] at ensured
      exact ensured
  | error thrown heap =>
      rw [ran] at ensured
      exact ensured

/-- A new array, as long as the others stay as they are. -/
theorem Frame.of_fresh
    {before after : Store}
    (next_le : before.heap.next ≤ after.heap.next)
    (same : ∀ array < before.heap.next, after.heap.arrays array = before.heap.arrays array)
    (fresh : before.heap.next ≤ after.this.value) :
    Frame before after where
  next_le := next_le
  kept := by
    intro array allocated length _
    rw [same array allocated]
  owner := .inr fresh

/-- The buffer with a copy of its characters in a new array. -/
def Store.renewed (store : Store) (capacity : Nat) : Store where
  heap := Heap.mk
    (Function.update store.heap.arrays store.heap.next
      (overwrite (List.replicate capacity 0) 0 store.content))
    (store.heap.next + 1)
  this := { store.this with value := store.heap.next, shared := false }

theorem renewed_value_length
    {store : Store} {capacity : Nat}
    (valid : store.Valid)
    (room : store.this.count ≤ capacity) :
    (store.renewed capacity).value.length = capacity := by
  have countLe := valid.count_le
  simp only [Store.value, Store.renewed, Function.update_self]
  rw [overwrite_length, List.length_replicate]
  rw [Store.content, List.length_replicate, List.length_take]
  omega

theorem leaves_renewed
    {store : Store} {capacity : Nat}
    (valid : store.Valid)
    (room : store.this.count ≤ capacity)
    (short : capacity ≤ 0x08000000) :
    Leaves store store.content (store.renewed capacity) where
  valid :=
    { owned := Nat.lt_succ_self store.heap.next
      count_le := by
        rw [renewed_value_length valid room]
        exact room
      short := by
        rw [renewed_value_length valid room]
        exact short }
  frame := .of_fresh (Nat.le_succ store.heap.next)
    (fun _ allocated => Function.update_of_ne allocated.ne _ _) le_rfl
  content_eq := by
    have countLe := valid.count_le
    have contentLength : store.content.length = store.this.count := by
      rw [Store.content, List.length_take]
      omega
    have value : (store.renewed capacity).value =
        overwrite (List.replicate capacity 0) 0 store.content :=
      Function.update_self _ _ _
    rw [Store.content, value, Ring.overwrite, List.take_zero, List.nil_append]
    exact List.take_left' contentLength

/-- Making the array anew: the characters stay, and strings share them no longer. -/
theorem renew_ensures
    {memory : Memory} {length : Int} {store : Store}
    (valid : store.Valid)
    (room : store.this.count ≤ length) :
    Ensures
      (do
        let newValue ← onHeap (newCharArray memory length)
        let store ← get
        onHeap (uncheckedArraycopy store.value 0 newValue 0 store.this.count)
        modify fun store => { store with this.value := newValue, this.shared := false })
      store
      (fun _ after => after = store.renewed length.toNat ∧ length ≤ 0x08000000)
      (fun thrown after => thrown ≠ .fault ∧ after = store ∧ ¬ memory.Allocates length) := by
  have countLe := valid.count_le
  have notNew : store.this.value ≠ store.heap.next := valid.owned.ne
  refine Ensures.bind (onHeap_ensures ((newCharArray_ensures memory length store.heap).mono ?_ ?_))
  · intro newValue heap allocated
    obtain ⟨nonneg, short, rfl, rfl⟩ := allocated
    refine Ensures.bind (Ensures.get (Ensures.bind (onHeap_ensures (copyInto_ensures ?_ ?_))))
    · intro _ _
      refine Ensures.modify ⟨?_, short⟩
      simp only [Store.renewed, Store.content, Store.value, Function.update_of_ne notNew,
        Function.update_self, Function.update_idem, Int.toNat_zero, List.drop_zero,
        Int.toNat_natCast]
    · intro notInside
      refine absurd ⟨⟨le_rfl, by omega, ?_⟩, le_rfl, by omega, ?_⟩ notInside
      · simp only [Store.value, Function.update_of_ne notNew] at countLe ⊢
        omega
      · simp only [Function.update_self, List.length_replicate]
        omega
  · intro thrown heap failed
    obtain ⟨notFault, rfl, refused⟩ := failed
    exact ⟨notFault, rfl, refused⟩

/-- A part of a method that makes room keeps the characters. -/
def MakesRoom (before : Store) (room : Int) (after : Store) : Prop :=
  Leaves before before.content after ∧ after.this.count = before.this.count ∧
    room ≤ after.value.length

theorem copy_ensures
    {memory : Memory} {store : Store}
    (valid : store.Valid) :
    Ensures (copy memory) store
      (fun _ after => after = store.renewed store.value.length)
      (fun thrown after =>
        thrown ≠ .fault ∧ after = store ∧ ¬ memory.Allocates store.value.length) := by
  have countLe := valid.count_le
  refine Ensures.bind (Ensures.get ?_)
  refine (renew_ensures valid (by omega)).mono ?_ fun _ _ failed => failed
  intro _ after renewed
  rw [renewed.1, Int.toNat_natCast]

theorem unshare_ensures
    {memory : Memory} {store : Store}
    (valid : store.Valid) :
    Ensures (unshare memory) store
      (fun _ after => MakesRoom store store.value.length after ∧ after.this.shared = false)
      (fun thrown after => thrown ≠ .fault ∧ after = store) := by
  refine Ensures.bind (Ensures.get (Ensures.ite ?_ ?_))
  · intro _
    refine (copy_ensures valid).mono ?_ fun _ _ failed => ⟨failed.1, failed.2.1⟩
    intro _ after renewed
    rw [renewed]
    refine ⟨⟨leaves_renewed valid valid.count_le valid.short, rfl, ?_⟩, rfl⟩
    rw [renewed_value_length valid valid.count_le]
  · intro unshared
    exact Ensures.pure ⟨⟨.refl valid, rfl, le_rfl⟩, by simpa using unshared⟩

/-- The new capacity is enough for what is asked for, and for what there is. -/
theorem expandCapacity_ensures
    {memory : Memory} {minimumCapacity : Int} {store : Store}
    (valid : store.Valid)
    (larger : store.value.length < minimumCapacity) :
    Ensures (expandCapacity memory minimumCapacity) store
      (fun _ after => MakesRoom store minimumCapacity after ∧ after.this.shared = false)
      (fun thrown after => thrown ≠ .fault ∧ after = store) := by
  have countLe := valid.count_le
  have short := valid.short
  have sum : signed ((store.value.length : Int) + 1) = store.value.length + 1 :=
    signed_of_inRange ⟨by omega, by omega⟩
  have doubled : signed (((store.value.length : Int) + 1) * 2) = (store.value.length + 1) * 2 :=
    signed_of_inRange ⟨by omega, by omega⟩
  unfold expandCapacity
  refine Ensures.bind (Ensures.get ?_)
  dsimp only
  rw [sum, doubled, if_neg (by omega)]
  have enough : minimumCapacity ≤ if ((store.value.length : Int) + 1) * 2 < minimumCapacity then
      minimumCapacity else (store.value.length + 1) * 2 := by
    split <;> omega
  generalize (if ((store.value.length : Int) + 1) * 2 < minimumCapacity then
      minimumCapacity else (store.value.length + 1) * 2) = newCapacity at enough ⊢
  refine (renew_ensures valid (by omega)).mono ?_ ?_
  · intro _ after renewed
    obtain ⟨rfl, notLong⟩ := renewed
    refine ⟨⟨leaves_renewed valid (by omega) (by omega), rfl, ?_⟩, rfl⟩
    rw [renewed_value_length valid (by omega)]
    omega
  · intro thrown after failed
    exact ⟨failed.1, failed.2.1⟩

theorem ensureCapacity_enough
    {memory : Memory} {minimumCapacity : Int} {store : Store}
    {onOk : Unit → Store → Prop} {onError : Throwable → Store → Prop}
    (enough : minimumCapacity ≤ store.value.length)
    (holds : onOk ⟨⟩ store) :
    Ensures (ensureCapacity memory minimumCapacity) store onOk onError := by
  refine Ensures.bind (Ensures.get (Ensures.ite ?_ ?_))
  · intro larger
    omega
  · intro _
    exact Ensures.pure holds

theorem ensureCapacity_ensures
    {memory : Memory} {minimumCapacity : Int} {store : Store}
    (valid : store.Valid) :
    Ensures (ensureCapacity memory minimumCapacity) store
      (fun _ after => MakesRoom store minimumCapacity after)
      (fun thrown after => thrown ≠ .fault ∧ after = store) := by
  refine Ensures.bind (Ensures.get (Ensures.ite ?_ ?_))
  · intro larger
    exact (expandCapacity_ensures valid larger).mono (fun _ _ made => made.1)
      fun _ _ failed => failed
  · intro notLarger
    exact Ensures.pure ⟨.refl valid, rfl, by omega⟩

theorem MakesRoom.trans
    {before middle after : Store} {room room' : Int}
    (first : MakesRoom before room middle)
    (second : MakesRoom middle room' after) :
    MakesRoom before room' after :=
  ⟨Leaves.trans (first.1.content_eq ▸ first.1) (first.1.content_eq ▸ second.1),
    second.2.1.trans first.2.1, second.2.2⟩

theorem growOrUnshare_ensures
    {memory : Memory} {newcount : Int} {store : Store}
    (valid : store.Valid) :
    Ensures (growOrUnshare memory newcount) store
      (fun _ after => MakesRoom store newcount after ∧ after.this.shared = false)
      (fun thrown after => thrown ≠ .fault ∧ after = store) := by
  refine Ensures.bind (Ensures.get (Ensures.ite ?_ ?_))
  · intro larger
    exact expandCapacity_ensures valid larger
  · intro notLarger
    refine (unshare_ensures valid).mono ?_ fun _ _ failed => failed
    intro _ after made
    exact ⟨⟨made.1.1, made.1.2.1, by have := made.1.2.2; omega⟩, made.2⟩

/-! ## Changing the array -/

/-- The store with other characters in the buffer's array, of which so many are the buffer's. -/
def Store.put (store : Store) (chars : Chars) (count : Nat) : Store where
  heap := Heap.mk (Function.update store.heap.arrays store.this.value chars) store.heap.next
  this := { store.this with count := count }

@[simp] theorem value_put (store : Store) (chars : Chars) (count : Nat) :
    (store.put chars count).value = chars :=
  Function.update_self _ _ _

@[simp] theorem count_put (store : Store) (chars : Chars) (count : Nat) :
    (store.put chars count).this.count = count :=
  rfl

@[simp] theorem shared_put (store : Store) (chars : Chars) (count : Nat) :
    (store.put chars count).this.shared = store.this.shared :=
  rfl

@[simp] theorem put_put (store : Store) (chars chars' : Chars) (count count' : Nat) :
    (store.put chars count).put chars' count' = store.put chars' count' := by
  simp [Store.put]

theorem put_value (store : Store) (count : Nat) :
    store.put store.value count = { store with this.count := count } := by
  simp [Store.put, Store.value]

/-- Characters that strings share stay in their places. -/
theorem leaves_put
    {store : Store} {chars : Chars} {count : Nat}
    (valid : store.Valid)
    (sameLength : chars.length = store.value.length)
    (fits : count ≤ store.value.length)
    (keeps : store.this.shared = true →
      store.this.count ≤ count ∧ chars.take store.this.count = store.content) :
    Leaves store (chars.take count) (store.put chars count) where
  valid :=
    { owned := valid.owned
      count_le := by
        rw [value_put, sameLength]
        exact fits
      short := by
        rw [value_put, sameLength]
        exact valid.short }
  frame :=
    { next_le := le_rfl
      kept := by
        intro array _ length guarded
        by_cases isValue : array = store.this.value
        · obtain ⟨shared, lengthLe⟩ := guarded isValue
          have shorter := congrArg (List.take length) (keeps shared).2
          rw [Store.content, List.take_take, List.take_take, Nat.min_eq_left lengthLe] at shorter
          rw [isValue]
          exact (congrArg (List.take length) (value_put store chars count)).trans shorter
        · simp only [Store.put, Function.update_of_ne isValue]
      owner := .inl ⟨rfl, fun shared => ⟨shared, (keeps shared).1⟩⟩ }
  content_eq := by
    rw [Store.content, value_put, count_put]

theorem write_ensures
    {outside : Throwable} {source : Chars} {sourceOffset offset length : Int} {store : Store}
    {onOk : Unit → Store → Prop} {onError : Throwable → Store → Prop}
    (whenInside : Inside source sourceOffset length → Inside store.value offset length →
      onOk ⟨⟩ (store.put
        (overwrite store.value offset.toNat ((source.drop sourceOffset.toNat).take length.toNat))
        store.this.count))
    (whenOutside : ¬ (Inside source sourceOffset length ∧ Inside store.value offset length) →
      onError outside store) :
    Ensures (onHeap (copyInto outside source sourceOffset store.this.value offset length)) store
      onOk onError :=
  onHeap_ensures (copyInto_ensures whenInside whenOutside)

theorem write_string_ensures
    {string : JavaString} {offset : Int} {store : Store}
    {onOk : Unit → Store → Prop} {onError : Throwable → Store → Prop}
    (inside : string.offset + string.count ≤ (store.heap.arrays string.value).length)
    (room : 0 ≤ offset ∧ offset + string.count ≤ store.value.length)
    (holds : onOk ⟨⟩ (store.put
      (overwrite store.value offset.toNat (string.chars store.heap)) store.this.count)) :
    Ensures (onHeap (string.getChars 0 string.count store.this.value offset)) store onOk onError :=
  onHeap_ensures (string.getChars_ensures inside room holds)

theorem storeChar_ensures
    {index : Nat} {ch : UInt16} {store : Store}
    {onOk : Unit → Store → Prop} {onError : Throwable → Store → Prop}
    (inside : index < store.value.length)
    (holds : onOk ⟨⟩ (store.put (store.value.set index ch) store.this.count)) :
    Ensures (storeChar index ch) store onOk onError := by
  refine Ensures.bind (Ensures.get (Ensures.ite ?_ ?_))
  · intro _
    exact onHeap_ensures (Ensures.set holds)
  · intro notInside
    exact absurd inside notInside

theorem setCount_ensures
    {count : Nat} {store : Store}
    {onOk : Unit → Store → Prop} {onError : Throwable → Store → Prop}
    (holds : onOk ⟨⟩ (store.put store.value count)) :
    Ensures (setCount count) store onOk onError := by
  rw [put_value] at holds
  exact Ensures.modify holds

/-! ## Characters written over others -/

theorem getElem?_overwrite
    {chars items : Chars} {start : Nat}
    (fits : start + items.length ≤ chars.length)
    (index : Nat) :
    (overwrite chars start items)[index]? =
      if index < start then chars[index]?
      else if index < start + items.length then items[index - start]?
      else chars[index]? := by
  have startLength : (chars.take start).length = start := by
    rw [List.length_take]
    omega
  rw [Ring.overwrite, List.append_assoc]
  by_cases before : index < start
  · rw [if_pos before, List.getElem?_append_left (by omega), List.getElem?_take, if_pos before]
  · rw [if_neg before, List.getElem?_append_right (by omega), startLength]
    by_cases within : index < start + items.length
    · rw [if_pos within, List.getElem?_append_left (by omega)]
    · rw [if_neg within, List.getElem?_append_right (by omega), List.getElem?_drop]
      congr 1
      omega

/-- Characters written behind the first ones are appended to them. -/
theorem take_overwrite_append
    {chars items : Chars} {count : Nat}
    (fits : count + items.length ≤ chars.length) :
    (overwrite chars count items).take (count + items.length) = chars.take count ++ items := by
  rw [Ring.overwrite]
  apply List.take_left'
  rw [List.length_append, List.length_take]
  omega

theorem take_overwrite_of_le
    {chars items : Chars} {count start : Nat}
    (fits : start + items.length ≤ chars.length)
    (after : count ≤ start) :
    (overwrite chars start items).take count = chars.take count := by
  rw [Ring.overwrite, List.append_assoc, List.take_append_of_le_length, List.take_take,
    Nat.min_eq_left after]
  rw [List.length_take]
  omega

theorem set_eq_overwrite
    {chars : Chars} {index : Nat} (ch : UInt16)
    (inside : index < chars.length) :
    chars.set index ch = overwrite chars index [ch] := by
  rw [List.set_eq_take_append_cons_drop, if_pos inside, Ring.overwrite, List.append_assoc]
  rfl

/-- Characters that are moved up make room for others. -/
theorem take_overwrite_insert
    {chars items : Chars} {count offset : Nat}
    (fits : count + items.length ≤ chars.length)
    (within : offset ≤ count) :
    (overwrite
        (overwrite chars (offset + items.length) ((chars.drop offset).take (count - offset)))
        offset items).take (count + items.length) =
      (chars.take count).take offset ++ items ++ (chars.take count).drop offset := by
  have movedLength : ((chars.drop offset).take (count - offset)).length = count - offset := by
    rw [List.length_take, List.length_drop]
    omega
  have firstFits : offset + items.length + ((chars.drop offset).take (count - offset)).length ≤
      chars.length := by
    omega
  apply List.ext_getElem?
  intro index
  rw [List.getElem?_take, getElem?_overwrite (by rw [overwrite_length firstFits]; omega),
    getElem?_overwrite firstFits, List.append_assoc]
  by_cases before : index < offset
  · rw [if_pos (by omega), if_pos before, if_pos (by omega), List.getElem?_append_left
      (by rw [List.length_take, List.length_take]; omega), List.getElem?_take, if_pos before,
      List.getElem?_take, if_pos (by omega)]
  · have takeLength : ((chars.take count).take offset).length = offset := by
      rw [List.length_take, List.length_take]
      omega
    rw [List.getElem?_append_right (by omega), takeLength]
    by_cases inItems : index < offset + items.length
    · rw [if_pos (by omega), if_neg before, if_pos inItems, List.getElem?_append_left (by omega)]
    · rw [List.getElem?_append_right (by omega), List.getElem?_drop, List.getElem?_take]
      by_cases inMoved : index < count + items.length
      · rw [if_pos inMoved, if_neg before, if_neg inItems, if_neg inItems, if_pos (by omega),
          if_pos (by omega), List.getElem?_take, if_pos (by omega), List.getElem?_drop]
        congr 1
        omega
      · rw [if_neg inMoved, List.getElem?_eq_none]
        rw [List.length_take]
        omega

/-- Characters that are moved down replace those before them. -/
theorem take_overwrite_delete
    {chars : Chars} {count start finish : Nat}
    (fits : count ≤ chars.length)
    (ordered : start ≤ finish)
    (within : finish ≤ count) :
    (overwrite chars start ((chars.drop finish).take (count - finish))).take
        (count - (finish - start)) =
      (chars.take count).take start ++ (chars.take count).drop finish := by
  have movedLength : ((chars.drop finish).take (count - finish)).length = count - finish := by
    rw [List.length_take, List.length_drop]
    omega
  have kept := @take_overwrite_append chars ((chars.drop finish).take (count - finish)) start
    (by omega)
  rw [movedLength] at kept
  have countEq : count - (finish - start) = start + (count - finish) := by
    omega
  rw [countEq, kept, List.take_take, Nat.min_eq_left (by omega), List.drop_take]

end PicoJvm.Text
