import PicoJvm.Text.BufferContents

/-!
# The methods of a string buffer

What each method makes of the characters of the buffer. One that fails leaves them as they were,
with one exception: `setLength` has cut them off when it finds that it cannot copy them.
-/

namespace PicoJvm.Text

open PicoJvm.Lib PicoJvm.Lib.Attempt
open PicoJvm.Lib.Machine (signed signed_of_inRange)
open PicoJvm.Lib.Ring (overwrite overwrite_length)

attribute [local irreducible] Ensures

/-- A method that changes the characters of the buffer, or fails. -/
def Changes (method : Method Unit) (before : Store) (content : Chars) : Prop :=
  Ensures method before (fun _ after => Leaves before content after) (FailsUnchanged before)

theorem FailsUnchanged.of_same
    {store after : Store} {thrown : Throwable}
    (valid : store.Valid)
    (failed : thrown ≠ .fault ∧ after = store) :
    FailsUnchanged store thrown after := by
  rw [failed.2]
  exact ⟨failed.1, .refl valid⟩

theorem signed_sum
    (count more : Nat)
    (short : count ≤ 0x08000000)
    (short' : more ≤ 0x08000000) :
    signed ((count : Int) + more) = ((count + more : Nat) : Int) := by
  rw [signed_of_inRange ⟨by omega, by omega⟩, Int.natCast_add]

/-- Characters that are written behind those of the buffer are appended. -/
theorem leaves_append
    {before middle : Store} {items : Chars}
    (made : MakesRoom before (before.this.count + items.length : Nat) middle) :
    Leaves before (before.content ++ items)
      (middle.put (overwrite middle.value before.this.count items)
        (before.this.count + items.length)) := by
  obtain ⟨leaves, countEq, room⟩ := made
  rw [← countEq] at room ⊢
  have fits : middle.this.count + items.length ≤ middle.value.length := by
    omega
  rw [← leaves.content_eq, Store.content, ← take_overwrite_append fits]
  refine Leaves.trans (leaves.content_eq ▸ leaves)
    (leaves_put leaves.valid (overwrite_length fits) fits fun _ => ⟨by omega, ?_⟩)
  rw [take_overwrite_of_le fits le_rfl, Store.content]

/-- `append(String)`. -/
theorem append_changes
    {memory : Memory} {str : JavaString} {before : Store}
    (valid : before.Valid)
    (guarded : Guarded str before)
    (short : str.count ≤ 0x08000000) :
    Changes (append memory str) before (before.content ++ str.chars before.heap) := by
  have countLe := valid.count_le
  have charsLength := JavaString.chars_length guarded.inside
  have newcount := signed_sum before.this.count _ (countLe.trans valid.short) short
  unfold append
  refine Ensures.bind (Ensures.get (Ensures.bind ?_))
  refine (ensureCapacity_ensures valid).mono ?_ fun _ _ => .of_same valid
  intro _ middle made
  rw [newcount] at made
  have countEq := made.2.1
  have sameChars := made.1.frame.chars_eq guarded
  have still := guarded.after made.1.frame
  have room := made.2.2
  refine Ensures.bind (Ensures.get (Ensures.bind (write_string_ensures still.inside ?_ ?_)))
  · omega
  · refine setCount_ensures ?_
    rw [put_put, value_put, newcount, Int.toNat_natCast, Int.toNat_natCast, sameChars,
      ← charsLength, countEq]
    rw [← charsLength] at made
    exact leaves_append made

/-- `append(char[])`. -/
theorem appendChars_changes
    {memory : Memory} {str : Chars} {before : Store}
    (valid : before.Valid)
    (short : str.length ≤ 0x08000000) :
    Changes (appendChars memory str) before (before.content ++ str) := by
  have countLe := valid.count_le
  have newcount := signed_sum before.this.count _ (countLe.trans valid.short) short
  unfold appendChars
  refine Ensures.bind (Ensures.get (Ensures.bind ?_))
  refine (ensureCapacity_ensures valid).mono ?_ fun _ _ => .of_same valid
  intro _ middle made
  rw [newcount] at made
  have countEq := made.2.1
  have room := made.2.2
  refine Ensures.bind (Ensures.get (Ensures.bind (write_ensures ?_ ?_)))
  · intro _ _
    refine setCount_ensures ?_
    rw [put_put, value_put, newcount, Int.toNat_natCast, Int.toNat_natCast, Int.toNat_zero,
      Int.toNat_natCast, List.drop_zero, List.take_length, countEq]
    exact leaves_append made
  · intro notInside
    exact absurd ⟨⟨le_rfl, by omega, by omega⟩, by omega, by omega, by omega⟩ notInside

/-- `append(char[], int, int)`. -/
theorem appendPart_changes
    {memory : Memory} {str : Chars} {offset len : Int} {before : Store}
    (valid : before.Valid)
    (short : str.length ≤ 0x08000000) :
    Changes (appendPart memory str offset len) before
      (before.content ++ (str.drop offset.toNat).take len.toNat) := by
  have countLe := valid.count_le
  have countShort := valid.short
  unfold appendPart
  refine Ensures.bind (Ensures.get (Ensures.bind ?_))
  refine (ensureCapacity_ensures valid).mono ?_ fun _ _ => .of_same valid
  intro _ middle made
  refine Ensures.bind (Ensures.get (Ensures.bind (write_ensures ?_ ?_)))
  · intro inStr inValue
    have newcount : signed ((before.this.count : Int) + len) =
        ((before.this.count + ((str.drop offset.toNat).take len.toNat).length : Nat) : Int) := by
      obtain ⟨nonneg, lenNonneg, inside⟩ := inStr
      rw [List.length_take, List.length_drop, signed_of_inRange ⟨by omega, by omega⟩]
      omega
    refine setCount_ensures ?_
    rw [put_put, value_put, Int.toNat_natCast, newcount, Int.toNat_natCast, made.2.1]
    rw [newcount] at made
    exact leaves_append made
  · intro _
    exact ⟨by decide, made.1⟩

/-- `append(char)`. -/
theorem appendChar_changes
    {memory : Memory} {c : UInt16} {before : Store}
    (valid : before.Valid) :
    Changes (appendChar memory c) before (before.content ++ [c]) := by
  have countLe := valid.count_le
  have newcount := signed_sum before.this.count 1
    (countLe.trans valid.short) (by decide)
  unfold appendChar
  refine Ensures.bind (Ensures.get (Ensures.bind ?_))
  rw [Int.natCast_one] at newcount
  refine (ensureCapacity_ensures valid).mono ?_ fun _ _ => .of_same valid
  intro _ middle made
  rw [newcount] at made
  have countEq := made.2.1
  have room := made.2.2
  refine Ensures.bind (Ensures.get (Ensures.bind (storeChar_ensures (by omega) ?_)))
  refine Ensures.bind (Ensures.get (setCount_ensures ?_))
  rw [put_put, value_put, count_put, set_eq_overwrite c (by omega), countEq]
  exact leaves_append made

/-! ## Changes of an array that is not shared -/

/-- What is written to the array of a buffer that shares it no longer is the content. -/
theorem leaves_own
    {before middle : Store} {room : Int} {chars : Chars} {count : Nat}
    (made : MakesRoom before room middle ∧ middle.this.shared = false)
    (sameLength : chars.length = middle.value.length)
    (fits : count ≤ middle.value.length) :
    Leaves before (chars.take count) (middle.put chars count) := by
  refine Leaves.trans (made.1.1.content_eq ▸ made.1.1)
    (leaves_put made.1.1.valid sameLength fits fun shared => ?_)
  rw [made.2] at shared
  cases shared

theorem content_length
    {store : Store}
    (valid : store.Valid) :
    store.content.length = store.this.count := by
  have countLe := valid.count_le
  rw [Store.content, List.length_take]
  omega

/-- Characters from one place to another are removed. -/
theorem leaves_delete
    {before middle : Store} {room : Int} {start finish : Nat}
    (made : MakesRoom before room middle ∧ middle.this.shared = false)
    (ordered : start ≤ finish)
    (within : finish ≤ before.this.count) :
    Leaves before (before.content.take start ++ before.content.drop finish)
      (middle.put
        (overwrite middle.value start
          ((middle.value.drop finish).take (before.this.count - finish)))
        (before.this.count - (finish - start))) := by
  have countLe := made.1.1.valid.count_le
  rw [← made.1.2.1] at within ⊢
  rw [← made.1.1.content_eq, Store.content, ← take_overwrite_delete countLe ordered within]
  refine leaves_own made (overwrite_length ?_) (by omega)
  rw [List.length_take, List.length_drop]
  omega

/-- `delete`. -/
theorem delete_changes
    {memory : Memory} {start finish : Int} {before : Store}
    (valid : before.Valid) :
    Changes (delete memory start finish) before
      (before.content.take start.toNat ++ before.content.drop finish.toNat) := by
  have length := content_length valid
  unfold delete
  refine Ensures.ite (fun _ => Ensures.throw ⟨by decide, .refl valid⟩) fun notNegative => ?_
  refine Ensures.bind (Ensures.get (Ensures.ite
    (fun _ => Ensures.throw ⟨by decide, .refl valid⟩) fun ordered => ?_))
  obtain ⟨first, rfl⟩ := Int.eq_ofNat_of_zero_le (not_lt.mp notNegative)
  obtain ⟨last, lastEq, within, dropEq⟩ : ∃ last : Nat,
      (if (before.this.count : Int) < finish then (before.this.count : Int) else finish) = last ∧
        last ≤ before.this.count ∧
        before.content.drop finish.toNat = before.content.drop last := by
    by_cases beyond : (before.this.count : Int) < finish
    · refine ⟨before.this.count, if_pos beyond, le_rfl, ?_⟩
      rw [List.drop_eq_nil_of_le (by omega), List.drop_eq_nil_of_le (by omega)]
    · rw [if_neg beyond] at ordered ⊢
      exact ⟨finish.toNat, by omega, by omega, rfl⟩
  rw [lastEq] at ordered
  rw [dropEq, Int.toNat_natCast]
  simp only [lastEq]
  refine Ensures.ite (fun _ => ?_) fun isEmpty => ?_
  · refine Ensures.bind ((unshare_ensures valid).mono ?_ fun _ _ => .of_same valid)
    intro _ middle made
    have countEq := made.1.2.1
    have countLe := made.1.1.valid.count_le
    refine Ensures.bind (Ensures.get (Ensures.bind (write_ensures ?_ ?_)))
    · intro _ _
      refine setCount_ensures ?_
      have source : ((first : Int) + (last - first)).toNat = last := by
        omega
      have moved : ((before.this.count : Int) - last).toNat = before.this.count - last := by
        omega
      have left : ((before.this.count : Int) - (last - first)).toNat =
          before.this.count - (last - first) := by
        omega
      rw [put_put, value_put, Int.toNat_natCast, source, moved, left]
      exact leaves_delete made (by omega) within
    · intro notInside
      exact absurd ⟨⟨by omega, by omega, by omega⟩, by omega, by omega, by omega⟩ notInside
  · have same : first = last := by
      omega
    rw [same, List.take_append_drop]
    exact Ensures.pure (.refl valid)

/-- `deleteCharAt`. -/
theorem deleteCharAt_changes
    {memory : Memory} {index : Int} {before : Store}
    (valid : before.Valid) :
    Changes (deleteCharAt memory index) before
      (before.content.take index.toNat ++ before.content.drop (index.toNat + 1)) := by
  unfold deleteCharAt
  refine Ensures.bind (Ensures.get (Ensures.ite
    (fun _ => Ensures.throw ⟨by decide, .refl valid⟩) fun inside => ?_))
  obtain ⟨place, rfl⟩ := Int.eq_ofNat_of_zero_le (show 0 ≤ index by omega)
  refine Ensures.bind ((unshare_ensures valid).mono ?_ fun _ _ => .of_same valid)
  intro _ middle made
  have countEq := made.1.2.1
  have countLe := made.1.1.valid.count_le
  refine Ensures.bind (Ensures.get (Ensures.bind (write_ensures ?_ ?_)))
  · intro _ _
    refine setCount_ensures ?_
    have source : ((place : Int) + 1).toNat = place + 1 := by
      omega
    have moved : ((before.this.count : Int) - place - 1).toNat =
        before.this.count - (place + 1) := by
      omega
    have left : before.this.count - 1 = before.this.count - (place + 1 - place) := by
      omega
    rw [put_put, value_put, Int.toNat_natCast, source, moved, left]
    exact leaves_delete made (by omega) (by omega)
  · intro notInside
    exact absurd ⟨⟨by omega, by omega, by omega⟩, by omega, by omega, by omega⟩ notInside

/-- Characters are put between others. -/
theorem leaves_insert
    {before middle : Store} {items : Chars} {offset : Nat}
    (made : MakesRoom before (before.this.count + items.length : Nat) middle ∧
      middle.this.shared = false)
    (within : offset ≤ before.this.count) :
    Leaves before (before.content.take offset ++ items ++ before.content.drop offset)
      (middle.put
        (overwrite
          (overwrite middle.value (offset + items.length)
            ((middle.value.drop offset).take (before.this.count - offset)))
          offset items)
        (before.this.count + items.length)) := by
  have countLe := made.1.1.valid.count_le
  have room := made.1.2.2
  rw [← made.1.2.1] at within room ⊢
  have fits : middle.this.count + items.length ≤ middle.value.length := by
    omega
  have firstFits : offset + items.length +
      ((middle.value.drop offset).take (middle.this.count - offset)).length ≤
        middle.value.length := by
    rw [List.length_take, List.length_drop]
    omega
  rw [← made.1.1.content_eq, Store.content, ← take_overwrite_insert fits within]
  refine leaves_own made ?_ fits
  rw [overwrite_length (by rw [overwrite_length firstFits]; omega), overwrite_length firstFits]

/-- `insert(int, char[])`. -/
theorem insertChars_changes
    {memory : Memory} {offset : Int} {str : Chars} {before : Store}
    (valid : before.Valid)
    (short : str.length ≤ 0x08000000) :
    Changes (insertChars memory offset str) before
      (before.content.take offset.toNat ++ str ++ before.content.drop offset.toNat) := by
  have newcount := signed_sum before.this.count _
    (valid.count_le.trans valid.short) short
  unfold insertChars
  refine Ensures.bind (Ensures.get (Ensures.ite
    (fun _ => Ensures.throw ⟨by decide, .refl valid⟩) fun inside => ?_))
  obtain ⟨place, rfl⟩ := Int.eq_ofNat_of_zero_le (show 0 ≤ offset by omega)
  refine Ensures.bind ((growOrUnshare_ensures valid).mono ?_ fun _ _ => .of_same valid)
  intro _ middle made
  rw [newcount] at made
  have countEq := made.1.2.1
  have room := made.1.2.2
  have countLe := made.1.1.valid.count_le
  have moved : ((before.this.count : Int) - place).toNat = before.this.count - place := by
    omega
  have target : ((place : Int) + str.length).toNat = place + str.length := by
    omega
  refine Ensures.bind (Ensures.get (Ensures.bind (write_ensures ?_ ?_)))
  · intro _ _
    rw [Int.toNat_natCast, moved, target]
    refine Ensures.bind (@write_ensures _ _ _ _ _ (middle.put _ _) _ _ ?_ ?_)
    · intro _ _
      refine setCount_ensures ?_
      rw [put_put, put_put, value_put, value_put, newcount, Int.toNat_natCast, Int.toNat_natCast,
        Int.toNat_zero, Int.toNat_natCast, List.drop_zero, List.take_length]
      exact leaves_insert made (by omega)
    · intro notInside
      refine absurd ⟨⟨le_rfl, by omega, by omega⟩, by omega, by omega, ?_⟩ notInside
      rw [value_put, overwrite_length (by rw [List.length_take, List.length_drop]; omega)]
      omega
  · intro notInside
    exact absurd ⟨⟨by omega, by omega, by omega⟩, by omega, by omega, by omega⟩ notInside

/-- `insert(int, String)`. -/
theorem insert_changes
    {memory : Memory} {offset : Int} {str : JavaString} {before : Store}
    (valid : before.Valid)
    (guarded : Guarded str before)
    (short : str.count ≤ 0x08000000) :
    Changes (insert memory offset str) before
      (before.content.take offset.toNat ++ str.chars before.heap ++
        before.content.drop offset.toNat) := by
  have charsLength := JavaString.chars_length guarded.inside
  have newcount := signed_sum before.this.count _
    (valid.count_le.trans valid.short) short
  unfold insert
  refine Ensures.bind (Ensures.get (Ensures.ite
    (fun _ => Ensures.throw ⟨by decide, .refl valid⟩) fun inside => ?_))
  obtain ⟨place, rfl⟩ := Int.eq_ofNat_of_zero_le (show 0 ≤ offset by omega)
  refine Ensures.bind ((growOrUnshare_ensures valid).mono ?_ fun _ _ => .of_same valid)
  intro _ middle made
  rw [newcount] at made
  have countEq := made.1.2.1
  have room := made.1.2.2
  have countLe := made.1.1.valid.count_le
  have still := guarded.after made.1.1.frame
  have otherArray : str.value ≠ middle.this.value := by
    intro isValue
    have shared := (still.sharing isValue).1
    rw [made.2] at shared
    cases shared
  have moved : ((before.this.count : Int) - place).toNat = before.this.count - place := by
    omega
  have target : ((place : Int) + str.count).toNat = place + str.count := by
    omega
  refine Ensures.bind (Ensures.get (Ensures.bind (write_ensures ?_ ?_)))
  · intro _ _
    rw [Int.toNat_natCast, moved, target]
    have sameArray : ∀ chars count,
        (middle.put chars count).heap.arrays str.value = middle.heap.arrays str.value :=
      fun _ _ => Function.update_of_ne otherArray _ _
    refine Ensures.bind (@write_string_ensures _ _ (middle.put _ _) _ _ ?_ ?_ ?_)
    · rw [sameArray]
      exact still.inside
    · rw [value_put, overwrite_length (by rw [List.length_take, List.length_drop]; omega)]
      omega
    · refine setCount_ensures ?_
      have sameChars : ∀ chars count,
          str.chars (middle.put chars count).heap = str.chars before.heap := by
        intro chars count
        rw [← made.1.1.frame.chars_eq guarded, JavaString.chars, JavaString.chars, sameArray]
      rw [put_put, put_put, value_put, value_put, newcount, Int.toNat_natCast, Int.toNat_natCast,
        sameChars, ← charsLength]
      rw [← charsLength] at made
      exact leaves_insert made (by omega)
  · intro notInside
    exact absurd ⟨⟨by omega, by omega, by omega⟩, by omega, by omega, by omega⟩ notInside

/-- `insert(int, char)`. -/
theorem insertChar_changes
    {memory : Memory} {offset : Int} {c : UInt16} {before : Store}
    (valid : before.Valid) :
    Changes (insertChar memory offset c) before
      (before.content.take offset.toNat ++ [c] ++ before.content.drop offset.toNat) := by
  have beforeLe := valid.count_le
  have short := valid.short
  have newcount := signed_sum before.this.count 1
    (valid.count_le.trans valid.short) (by decide)
  rw [Int.natCast_one] at newcount
  unfold insertChar
  refine Ensures.bind (Ensures.get (Ensures.bind ?_))
  refine (growOrUnshare_ensures valid).mono ?_ fun _ _ => .of_same valid
  intro _ middle made
  rw [newcount] at made
  have countEq := made.1.2.1
  have room := made.1.2.2
  have countLe := made.1.1.valid.count_le
  have middleShort := made.1.1.valid.short
  refine Ensures.bind (Ensures.get (Ensures.bind (write_ensures ?_ ?_)))
  · intro inSource inTarget
    obtain ⟨nonneg, movedNonneg, inside⟩ := inSource
    obtain ⟨place, rfl⟩ := Int.eq_ofNat_of_zero_le nonneg
    have placeLe : (place : Int) ≤ middle.value.length := by
      omega
    have moved : signed ((before.this.count : Int) - place) = before.this.count - place :=
      signed_of_inRange ⟨by omega, by omega⟩
    have next : signed ((place : Int) + 1) = ((place + 1 : Nat) : Int) :=
      signed_of_inRange ⟨by omega, by omega⟩
    rw [moved] at movedNonneg inside ⊢
    have movedNat : ((before.this.count : Int) - place).toNat = before.this.count - place := by
      omega
    have movedLength :
        ((middle.value.drop place).take (before.this.count - place)).length =
          before.this.count - place := by
      rw [List.length_take, List.length_drop]
      omega
    rw [next, Int.toNat_natCast, Int.toNat_natCast, movedNat]
    refine Ensures.bind (storeChar_ensures ?_ ?_)
    · rw [value_put, overwrite_length (by omega)]
      omega
    · refine setCount_ensures ?_
      rw [put_put, put_put, value_put, value_put, newcount, Int.toNat_natCast,
        set_eq_overwrite c (by rw [overwrite_length (by omega)]; omega)]
      exact @leaves_insert _ _ [c] _ made (by omega)
  · intro _
    exact ⟨by decide, made.1.1⟩

/-- `setCharAt`. -/
theorem setCharAt_changes
    {memory : Memory} {index : Int} {ch : UInt16} {before : Store}
    (valid : before.Valid) :
    Changes (setCharAt memory index ch) before (before.content.set index.toNat ch) := by
  unfold setCharAt
  refine Ensures.bind (Ensures.get (Ensures.ite
    (fun _ => Ensures.throw ⟨by decide, .refl valid⟩) fun inside => ?_))
  refine Ensures.bind ((unshare_ensures valid).mono ?_ fun _ _ => .of_same valid)
  intro _ middle made
  have countEq := made.1.2.1
  have countLe := made.1.1.valid.count_le
  refine storeChar_ensures (by omega) ?_
  rw [← made.1.1.content_eq, Store.content, ← List.take_set]
  exact leaves_own made List.length_set countLe

/-- `ensureCapacity`. -/
theorem ensureCapacity_changes
    {memory : Memory} {minimumCapacity : Int} {before : Store}
    (valid : before.Valid) :
    Changes (ensureCapacity memory minimumCapacity) before before.content :=
  (ensureCapacity_ensures valid).mono (fun _ _ made => made.1) fun _ _ => .of_same valid

/-! ## Setting the length -/

/-- The loop of `setLength` appends null characters. -/
theorem appendZeros_ensures
    {more : Nat} {store : Store}
    {onOk : Unit → Store → Prop} {onError : Throwable → Store → Prop}
    (room : store.this.count + more ≤ store.value.length)
    (holds : onOk ⟨⟩ (store.put
      (overwrite store.value store.this.count (List.replicate more 0)) (store.this.count + more))) :
    Ensures (appendZeros more) store onOk onError := by
  induction more generalizing store with
  | zero =>
      have same : store.put
          (overwrite store.value store.this.count (List.replicate 0 0)) (store.this.count + 0) =
            store := by
        rw [Ring.overwrite, List.replicate_zero, List.append_nil, List.length_nil, Nat.add_zero,
          List.take_append_drop, put_value]
      rw [same] at holds
      exact Ensures.pure holds
  | succ more inductionHypothesis =>
      unfold appendZeros
      refine Ensures.bind (Ensures.get (Ensures.bind (storeChar_ensures (by omega) ?_)))
      refine Ensures.bind (Ensures.get (Ensures.bind (setCount_ensures ?_)))
      rw [put_put, value_put, count_put]
      refine inductionHypothesis ?_ ?_
      · rw [count_put, value_put, List.length_set]
        omega
      · have written := @Lib.Ring.overwrite_overwrite _ store.value [(0 : UInt16)]
          (List.replicate more 0) store.this.count
          (by rw [List.length_append, List.length_replicate, List.length_singleton]; omega)
        rw [put_put, value_put, count_put, set_eq_overwrite 0 (by omega)]
        rw [List.length_singleton] at written
        rw [written, Nat.add_assoc, Nat.add_comm 1 more]
        exact holds

/-- The buffer's characters are cut off, and then cannot be copied. -/
def CutFails (memory : Memory) (store : Store) (newLength : Int) : Prop :=
  store.this.shared = true ∧ 0 ≤ newLength ∧ newLength < store.this.count ∧
    ¬ memory.Allocates (if 0 < newLength then store.value.length else 16)

instance (memory : Memory) (store : Store) (newLength : Int) :
    Decidable (CutFails memory store newLength) :=
  inferInstanceAs (Decidable (_ ∧ _))

/-- The content up to a place inside it. -/
theorem take_content
    {store : Store} {count : Nat}
    (within : count ≤ store.this.count) :
    store.content.take count = store.value.take count := by
  rw [Store.content, List.take_take, Nat.min_eq_left within]

/-- A store whose characters are cut off. It is the same as before, when none are. -/
theorem failsUnchanged_cut
    {memory : Memory} {before after : Store} {count : Nat} {thrown : Throwable}
    (valid : before.Valid)
    (shared : before.this.shared = true)
    (within : count ≤ before.this.count)
    (notCut : ¬ CutFails memory before count)
    (failed : thrown ≠ .fault ∧ after = before.put before.value count ∧
      ¬ memory.Allocates (if (0 : Int) < count then before.value.length else 16)) :
    FailsUnchanged before thrown after := by
  obtain ⟨notFault, rfl, refused⟩ := failed
  have same : count = before.this.count := by
    by_contra different
    exact notCut ⟨shared, by omega, by omega, refused⟩
  rw [same, put_value]
  exact ⟨notFault, .refl valid⟩

/-- The end of `setLength`, when it cuts characters off an array that is shared. -/
theorem cutCopied_changes
    {memory : Memory} {before : Store} {count : Nat}
    (valid : before.Valid)
    (shared : before.this.shared = true)
    (within : count ≤ before.this.count)
    (notCut : ¬ CutFails memory before count) :
    Ensures
      (if (0 : Int) < count then copy memory
      else do
        let newValue ← onHeap (newCharArray memory 16)
        modify fun store => { store with this.value := newValue, this.shared := false })
      (before.put before.value count)
      (fun _ after => Leaves before (before.content.take count) after) (FailsUnchanged before) := by
  have cutValid : (before.put before.value count).Valid := by
    rw [put_value]
    exact ⟨valid.owned, within.trans valid.count_le, valid.short⟩
  by_cases some : (0 : Int) < count
  · rw [if_pos some]
    refine (copy_ensures cutValid).mono ?_ ?_
    · intro _ after renewed
      have copied := leaves_renewed cutValid cutValid.count_le cutValid.short
      rw [← renewed] at copied
      refine ⟨copied.valid, .of_fresh copied.frame.next_le ?_ ?_, ?_⟩
      · intro array allocated
        rw [renewed, put_value]
        exact Function.update_of_ne allocated.ne _ _
      · rw [renewed]
        exact le_rfl
      · rw [copied.content_eq, take_content within, Store.content, value_put, count_put]
    · intro thrown after failed
      refine failsUnchanged_cut valid shared within notCut ?_
      rw [value_put] at failed
      rwa [if_pos some]
  · have none : count = 0 := by
      omega
    rw [if_neg some]
    refine Ensures.bind (onHeap_ensures ((newCharArray_ensures memory 16 _).mono ?_ ?_))
    · intro newValue heap allocated
      obtain ⟨-, -, rfl, rfl⟩ := allocated
      refine Ensures.modify ⟨⟨Nat.lt_succ_self _, ?_, ?_⟩, .of_fresh (Nat.le_succ _) ?_ le_rfl, ?_⟩
      · rw [count_put, none]
        exact Nat.zero_le _
      · simp only [Store.value, Function.update_self, List.length_replicate]
        decide
      · intro array allocated
        rw [put_value]
        exact Function.update_of_ne allocated.ne _ _
      · rw [none]
        rfl
    · intro thrown heap failed
      obtain ⟨notFault, rfl, refused⟩ := failed
      refine failsUnchanged_cut valid shared within notCut ⟨notFault, rfl, ?_⟩
      rwa [if_neg some]

/-- `setLength`, unless it cuts off characters that it cannot copy. -/
theorem setLength_changes
    {memory : Memory} {newLength : Int} {before : Store}
    (valid : before.Valid)
    (notCut : ¬ CutFails memory before newLength) :
    Changes (setLength memory newLength) before
      (before.content.take newLength.toNat ++
        List.replicate (newLength.toNat - before.content.length) 0) := by
  have countLe := valid.count_le
  have length := content_length valid
  unfold setLength
  refine Ensures.ite (fun _ => Ensures.throw ⟨by decide, .refl valid⟩) fun notNegative => ?_
  obtain ⟨count, rfl⟩ := Int.eq_ofNat_of_zero_le (not_lt.mp notNegative)
  rw [Int.toNat_natCast, length]
  by_cases grows : before.this.count < count
  · refine Ensures.bind ((ensureCapacity_ensures valid).mono ?_ fun _ _ => .of_same valid)
    intro _ middle made
    have countEq := made.2.1
    have room := made.2.2
    refine Ensures.bind (Ensures.get ?_)
    dsimp only
    rw [countEq, if_pos (by omega)]
    refine Ensures.bind ((unshare_ensures made.1.valid).mono ?_ ?_)
    · intro _ own unshared
      have ownRoom := unshared.1.2.2
      have both : MakesRoom before (before.this.count +
          (List.replicate (count - before.this.count) (0 : UInt16)).length : Nat) own := by
        refine ⟨(made.trans unshared.1).1, (made.trans unshared.1).2.1, ?_⟩
        rw [List.length_replicate]
        omega
      have ownCount := both.2.1
      have more : ((count : Int) - before.this.count).toNat = count - before.this.count := by
        omega
      rw [more]
      refine appendZeros_ensures (by omega) ?_
      have appended := leaves_append both
      rw [List.length_replicate] at appended
      rw [ownCount, List.take_of_length_le (by omega)]
      exact appended
    · intro thrown after failed
      rw [failed.2]
      exact ⟨failed.1, made.1⟩
  · have within : count ≤ before.this.count := by
      omega
    have noZeros : count - before.this.count = 0 := by
      omega
    rw [noZeros, List.replicate_zero, List.append_nil]
    refine Ensures.bind (ensureCapacity_enough (by omega) (Ensures.bind (Ensures.get ?_)))
    dsimp only
    rw [if_neg (by omega)]
    refine Ensures.bind (setCount_ensures (Ensures.bind (Ensures.get ?_)))
    rw [shared_put]
    by_cases shared : before.this.shared = true
    · rw [if_pos shared]
      exact cutCopied_changes valid shared within (by simpa only [Int.toNat_natCast] using notCut)
    · rw [if_neg shared]
      refine Ensures.pure ?_
      have cut := leaves_put valid rfl (within.trans countLe) fun isShared => absurd isShared shared
      rwa [← take_content within] at cut

/-! ## Reversing -/

/-- The characters as the loop of `reverse` leaves them. -/
def swaps (n : Nat) : Nat → Chars → Chars
  | 0, chars => chars
  | j + 1, chars => swaps n j ((chars.set j (chars.getD (n - j) 0)).set (n - j) (chars.getD j 0))

theorem swaps_succ (n j : Nat) (chars : Chars) :
    swaps n (j + 1) chars =
      swaps n j ((chars.set j (chars.getD (n - j) 0)).set (n - j) (chars.getD j 0)) :=
  rfl

theorem swaps_length (n : Nat) :
    ∀ (j : Nat) (chars : Chars), (swaps n j chars).length = chars.length
  | 0, _ => rfl
  | j + 1, chars => by
      rw [swaps_succ, swaps_length n j, List.length_set, List.length_set]

theorem reverseLoop_ensures
    {n j : Nat} {store : Store}
    {onOk : Unit → Store → Prop} {onError : Throwable → Store → Prop}
    (within : j ≤ n + 1)
    (inside : j = 0 ∨ n < store.value.length)
    (holds : onOk ⟨⟩ (store.put (swaps n j store.value) store.this.count)) :
    Ensures (reverseLoop n j) store onOk onError := by
  induction j generalizing store with
  | zero =>
      rw [show swaps n 0 store.value = store.value from rfl, put_value] at holds
      exact Ensures.pure holds
  | succ j inductionHypothesis =>
      have room : n < store.value.length := by
        omega
      unfold reverseLoop
      refine Ensures.bind (Ensures.get (Ensures.bind (storeChar_ensures (by omega) ?_)))
      refine Ensures.bind (storeChar_ensures ?_ ?_)
      · rw [value_put, List.length_set]
        omega
      · rw [put_put, value_put, count_put]
        refine inductionHypothesis (by omega) (.inr ?_) ?_
        · rw [value_put, List.length_set, List.length_set]
          exact room
        · rw [put_put, value_put, count_put]
          exact holds

/-- Places that the loop has come by have the character of the place at the other end. -/
theorem getElem?_swaps
    {n j : Nat} {chars : Chars}
    (half : 2 * j ≤ n + 1)
    (inside : n < chars.length)
    (index : Nat) :
    (swaps n j chars)[index]? =
      if index < j ∨ n - j < index ∧ index ≤ n then chars[n - index]? else chars[index]? := by
  induction j generalizing chars with
  | zero =>
      exact (if_neg (by omega)).symm
  | succ j inductionHypothesis =>
      have swapped (place : Nat) :
          ((chars.set j (chars.getD (n - j) 0)).set (n - j) (chars.getD j 0))[place]? =
            if place = n - j then chars[j]?
            else if place = j then chars[n - j]? else chars[place]? := by
        rw [List.getElem?_set, List.getElem?_set, List.length_set,
          List.getD_eq_getElem _ _ (by omega), List.getD_eq_getElem _ _ (by omega)]
        by_cases first : place = n - j
        · rw [if_pos first.symm, if_pos first, if_pos (by omega), List.getElem?_eq_getElem]
        · by_cases second : place = j
          · rw [if_neg (Ne.symm first), if_neg first, if_pos second.symm, if_pos second,
              if_pos (by omega), List.getElem?_eq_getElem]
          · rw [if_neg (Ne.symm first), if_neg first, if_neg (Ne.symm second), if_neg second]
      have sameLength :
          ((chars.set j (chars.getD (n - j) 0)).set (n - j) (chars.getD j 0)).length =
            chars.length := by
        rw [List.length_set, List.length_set]
      rw [swaps_succ, inductionHypothesis (by omega) (by omega), swapped, swapped]
      by_cases outer : index < j ∨ n - j < index ∧ index ≤ n
      · rw [if_pos outer, if_neg (by omega), if_neg (by omega), if_pos (by omega)]
      · rw [if_neg outer]
        by_cases upper : index = n - j
        · have mirrored : n - index = j := by
            omega
          rw [if_pos upper, if_pos (by omega), mirrored]
        · by_cases lower : index = j
          · rw [if_neg upper, if_pos lower, if_pos (by omega), lower]
          · rw [if_neg upper, if_neg lower, if_neg (by omega)]

/-- The loop starts in the middle, so that it comes by all places. -/
theorem take_swaps_reverse
    {n : Nat} {chars : Chars}
    (inside : n < chars.length) :
    (swaps n ((n + 1) / 2) chars).take (n + 1) = (chars.take (n + 1)).reverse := by
  have takeLength : (chars.take (n + 1)).length = n + 1 := by
    rw [List.length_take]
    omega
  apply List.ext_getElem?
  intro index
  rw [List.getElem?_take]
  by_cases within : index < n + 1
  · have mirrored : n + 1 - 1 - index = n - index := by
      omega
    rw [if_pos within, getElem?_swaps (by omega) inside,
      List.getElem?_reverse (by omega), takeLength, mirrored, List.getElem?_take,
      if_pos (show n - index < n + 1 by omega)]
    by_cases swapped : index < (n + 1) / 2 ∨ n - (n + 1) / 2 < index ∧ index ≤ n
    · rw [if_pos swapped]
    · have middle : n - index = index := by
        omega
      rw [if_neg swapped, middle]
  · rw [if_neg within, List.getElem?_eq_none]
    rw [List.length_reverse]
    omega

/-- `reverse`. -/
theorem reverse_changes
    {memory : Memory} {before : Store}
    (valid : before.Valid) :
    Changes (reverse memory) before before.content.reverse := by
  have countLe := valid.count_le
  refine Ensures.bind ((unshare_ensures valid).mono ?_ fun _ _ => .of_same valid)
  intro _ middle made
  have countEq := made.1.2.1
  have room := made.1.2.2
  refine Ensures.bind (Ensures.get (reverseLoop_ensures (by omega) (by omega) ?_))
  have reversed : (swaps ((middle.this.count : Int) - 1).toNat
      (((middle.this.count : Int) - 1 - 1) / 2 + 1).toNat middle.value).take middle.this.count =
        before.content.reverse := by
    rw [← made.1.1.content_eq, Store.content]
    rcases Nat.eq_zero_or_pos middle.this.count with none | some
    · rw [none, List.take_zero, List.take_zero, List.reverse_nil]
    · obtain ⟨n, countSucc⟩ := Nat.exists_eq_add_of_lt some
      rw [Nat.zero_add] at countSucc
      have last : ((middle.this.count : Int) - 1).toNat = n := by
        omega
      have half : (((middle.this.count : Int) - 1 - 1) / 2 + 1).toNat = (n + 1) / 2 := by
        omega
      rw [last, half, countSucc]
      exact take_swaps_reverse (by omega)
  rw [← reversed]
  exact leaves_own made (swaps_length _ _ _) (by omega)

end PicoJvm.Text
