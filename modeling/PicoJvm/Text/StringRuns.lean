import PicoJvm.Text.SharedStrings

/-!
# Strings never change

What every call does to the characters of a program, and from it what a whole run does.
-/

namespace PicoJvm.Text

open PicoJvm.Lib PicoJvm.Lib.Attempt
open PicoJvm.Lib.Countdown (Follows)
open PicoJvm.Lib.Machine (signed signed_of_inRange)
open PicoJvm.Lib.Ring (overwrite overwrite_length)

attribute [local irreducible] Ensures

/-! ## Methods of a buffer -/

theorem nonNull_ensures
    {referred state : Type} {reference : Option referred} {before : state}
    {onOk : referred → state → Prop} {onError : Throwable → state → Prop}
    (whenSome : ∀ value, reference = some value → onOk value before)
    (whenNone : reference = none → onError .nullPointer before) :
    Ensures (nonNull reference) before onOk onError := by
  cases reference with
  | none =>
      exact Ensures.throw (whenNone rfl)
  | some value =>
      exact Ensures.pure (whenSome value rfl)

/-- A change of a buffer that cuts off characters and cannot copy the others. -/
def Change.Cuts (memory : Memory) (store : Store) : Change → Prop
  | .setLength newLength => CutFails memory store newLength
  | _ => False

instance (memory : Memory) (store : Store) : ∀ change, Decidable (Change.Cuts memory store change)
  | .setLength newLength => inferInstanceAs (Decidable (CutFails memory store newLength))
  | .append _ | .appendChars _ | .appendPart _ _ _ | .appendChar _ | .delete _ _ | .deleteCharAt _
  | .insert _ _ | .insertChars _ _ | .insertChar _ _ | .setCharAt _ _ | .reverse
  | .ensureCapacity _ => .isFalse id

/-- Every change of a buffer does what its documentation says. -/
theorem Change.method_changes
    {memory : Memory} {string : Nat → JavaString} {text : Nat → Chars} {before : Store}
    (change : Change)
    (valid : before.Valid)
    (guarded : ∀ str, Guarded (string str) before ∧ (string str).count ≤ 0x08000000)
    (texts : ∀ str, text str = (string str).chars before.heap)
    (notCut : ¬ change.Cuts memory before) :
    Changes (change.method memory string) before (change.content text before.content) := by
  cases change with
  | append str =>
      rw [content, texts]
      exact append_changes valid (guarded str).1 (guarded str).2
  | appendChars str =>
      refine Ensures.bind (nonNull_ensures ?_ fun _ => ⟨by decide, .refl valid⟩)
      rintro array rfl
      exact appendChars_changes valid array.length_le
  | appendPart str offset len =>
      cases str with
      | none =>
          refine Ensures.bind (Ensures.get (Ensures.bind ?_))
          refine (ensureCapacity_ensures valid).mono ?_ fun _ _ => .of_same valid
          intro _ middle made
          exact Ensures.throw ⟨by decide, made.1⟩
      | some array =>
          exact appendPart_changes valid array.length_le
  | appendChar c =>
      exact appendChar_changes valid
  | delete start finish =>
      exact delete_changes valid
  | deleteCharAt index =>
      rw [content, List.eraseIdx_eq_take_drop_succ]
      exact deleteCharAt_changes valid
  | insert offset str =>
      rw [content, texts]
      exact insert_changes valid (guarded str).1 (guarded str).2
  | insertChars offset str =>
      cases str with
      | none =>
          refine Ensures.bind (Ensures.get (Ensures.ite ?_ ?_))
          · intro _
            exact Ensures.throw ⟨by decide, .refl valid⟩
          · intro _
            exact Ensures.throw ⟨by decide, .refl valid⟩
      | some array =>
          exact insertChars_changes valid array.length_le
  | insertChar offset c =>
      exact insertChar_changes valid
  | setLength newLength =>
      exact setLength_changes valid notCut
  | setCharAt index ch =>
      exact setCharAt_changes valid
  | reverse =>
      exact reverse_changes valid
  | ensureCapacity minimumCapacity =>
      exact ensureCapacity_changes valid

theorem newObject_ensures
    {memory : Memory} {heap : Heap}
    {onOk : Unit → Heap → Prop} {onError : Throwable → Heap → Prop}
    (holds : onOk ⟨⟩ heap)
    (fails : onError .outOfMemory heap) :
    Ensures (newObject memory) heap onOk onError := by
  refine Ensures.ite ?_ ?_
  · intro _
    exact Ensures.throw fails
  · intro _
    exact Ensures.pure holds

/-- The string has the characters of the buffer, which shares them from then on. -/
theorem toString_ensures
    {memory : Memory} {before : Store}
    (valid : before.Valid) :
    Ensures (toString memory) before
      (fun string after => Leaves before before.content after ∧ Guarded string after ∧
        string.count ≤ 0x08000000 ∧ string.value = after.this.value ∧
        string.chars after.heap = before.content)
      (FailsUnchanged before) := by
  have countLe := valid.count_le
  refine Ensures.bind (onHeap_ensures (newObject_ensures ?_ ⟨by decide, .refl valid⟩))
  refine Ensures.bind (Ensures.modify (Ensures.bind (Ensures.get (Ensures.pure ?_))))
  refine ⟨⟨⟨valid.owned, countLe, valid.short⟩, ⟨le_rfl, fun _ _ _ _ => rfl, ?_⟩, rfl⟩,
    ⟨valid.owned, ?_, ?_⟩, countLe.trans valid.short, rfl, ?_⟩
  · exact .inl ⟨rfl, fun _ => ⟨rfl, le_rfl⟩⟩
  · rw [Nat.zero_add]
    exact countLe
  · intro _
    exact ⟨rfl, (Nat.zero_add _).le⟩
  · rw [JavaString.chars, List.drop_zero]
    rfl

/-! ## Making strings -/

theorem Heap.Extends.refl (heap : Heap) : heap.Extends heap :=
  ⟨le_rfl, fun _ _ => rfl⟩

theorem Heap.Extends.trans
    {before middle after : Heap}
    (first : before.Extends middle)
    (second : middle.Extends after) :
    before.Extends after :=
  ⟨first.next_le.trans second.next_le, fun array allocated =>
    (second.same array (allocated.trans_le first.next_le)).trans (first.same array allocated)⟩

/-- The heap with one more array. -/
def Heap.grow (heap : Heap) (chars : Chars) : Heap where
  arrays := Function.update heap.arrays heap.next chars
  next := heap.next + 1

theorem Heap.extends_grow (heap : Heap) (chars : Chars) : heap.Extends (heap.grow chars) :=
  ⟨Nat.le_succ heap.next, fun _ allocated => Function.update_of_ne allocated.ne _ _⟩

theorem Heap.arrays_grow (heap : Heap) (chars : Chars) :
    (heap.grow chars).arrays heap.next = chars :=
  Function.update_self _ _ _

theorem Heap.grow_update (heap : Heap) (chars chars' : Chars) :
    Heap.mk (Function.update (heap.grow chars).arrays heap.next chars') (heap.grow chars).next =
      heap.grow chars' := by
  simp only [Heap.grow, Function.update_idem]

/-- A string that has all of a new array. -/
theorem allocated_grow
    {heap : Heap} {chars : Chars} {count : Nat}
    (all : chars.length = count)
    (short : count ≤ 0x08000000) :
    (JavaString.mk heap.next 0 count).Allocated (heap.grow chars) ∧
      (JavaString.mk heap.next 0 count).chars (heap.grow chars) = chars := by
  refine ⟨⟨Nat.lt_succ_self heap.next, ?_, short⟩, ?_⟩
  · simp only [Heap.arrays_grow, all, Nat.zero_add, le_refl]
  · simp only [JavaString.chars, Heap.arrays_grow, List.drop_zero, List.take_of_length_le all.le]

/-- What making a string leaves behind. A buffer that spares the strings it is made of spares it. -/
structure Makes (before : Heap) (sources : List JavaString) (chars : Chars)
    (string : JavaString) (after : Heap) : Prop where
  extended : before.Extends after
  allocated : string.Allocated after
  chars_eq : string.chars after = chars
  spares : ∀ this : StringBuffer, this.value < before.next →
    (∀ source ∈ sources, this.Spares source) → this.Spares string

/-- A failure to make a string. -/
def MakesNothing (before : Heap) (thrown : Throwable) (after : Heap) : Prop :=
  thrown ≠ .fault ∧ before.Extends after

theorem makes_grow
    {heap : Heap} {sources : List JavaString} {chars : Chars} {count : Nat}
    (all : chars.length = count)
    (short : count ≤ 0x08000000) :
    Makes heap sources chars (JavaString.mk heap.next 0 count) (heap.grow chars) where
  extended := heap.extends_grow chars
  allocated := (allocated_grow all short).1
  chars_eq := (allocated_grow all short).2
  spares := by
    intro this owned _ isValue
    exact absurd isValue owned.ne'

/-- Characters that are written over all others. -/
theorem overwrite_whole
    {chars items : Chars}
    (sameLength : chars.length = items.length) :
    overwrite chars 0 items = items := by
  rw [Ring.overwrite, List.take_zero, List.nil_append, Nat.zero_add, ← sameLength,
    List.drop_length, List.append_nil]

theorem stringOf_ensures
    {memory : Memory} {value : Chars} {heap : Heap}
    (short : value.length ≤ 0x08000000) :
    Ensures (stringOf memory value) heap (Makes heap [] value) (MakesNothing heap) := by
  refine Ensures.bind ((newCharArray_ensures memory _ heap).mono ?_ ?_)
  · intro array after allocated
    obtain ⟨-, -, rfl, rfl⟩ := allocated
    have grown := heap.arrays_grow (List.replicate value.length 0)
    refine Ensures.bind (copyInto_ensures ?_ ?_)
    · intro _ _
      refine Ensures.pure ?_
      have zeros : (List.replicate value.length (0 : UInt16)).length = value.length :=
        List.length_replicate
      have written := overwrite_whole zeros
      have copied := heap.grow_update (List.replicate value.length 0) value
      simp only [Heap.grow, Int.toNat_natCast, Int.toNat_zero, List.drop_zero, List.take_length]
        at grown copied ⊢
      rw [grown, written, copied]
      exact makes_grow rfl short
    · intro notInside
      refine absurd ⟨⟨le_rfl, by omega, by omega⟩, le_rfl, by omega, ?_⟩ notInside
      simp only [Function.update_self, List.length_replicate, Int.toNat_natCast]
      omega
  · intro thrown after failed
    rw [failed.2.1]
    exact ⟨failed.1, .refl heap⟩

theorem substring_ensures
    {memory : Memory} {string : JavaString} {beginIndex endIndex : Int} {heap : Heap}
    (allocated : string.Allocated heap) :
    Ensures (string.substring memory beginIndex endIndex) heap
      (Makes heap [string]
        (((string.chars heap).drop beginIndex.toNat).take (endIndex - beginIndex).toNat))
      (MakesNothing heap) := by
  have charsLength := JavaString.chars_length allocated.inside
  have inside := allocated.inside
  have short := allocated.short
  have thrown : MakesNothing heap .stringIndexOutOfBounds heap := ⟨by decide, .refl heap⟩
  refine Ensures.ite (fun _ => Ensures.throw thrown) fun beginNonneg => ?_
  refine Ensures.ite (fun _ => Ensures.throw thrown) fun endInside => ?_
  refine Ensures.ite (fun _ => Ensures.throw thrown) fun ordered => ?_
  refine Ensures.ite ?_ ?_
  · intro whole
    refine Ensures.pure ⟨.refl heap, allocated, ?_, fun this _ spares => spares string (by simp)⟩
    rw [whole.1, whole.2, Int.toNat_zero, List.drop_zero, List.take_of_length_le (by omega)]
  · intro _
    refine Ensures.bind (newObject_ensures (Ensures.pure ?_) ⟨by decide, .refl heap⟩)
    refine ⟨.refl heap, ⟨allocated.allocated, ?_, ?_⟩, ?_, ?_⟩
    · simp only
      omega
    · simp only
      omega
    · simp only [JavaString.chars]
      rw [List.drop_take, List.take_take, List.drop_drop, Nat.min_eq_left (by omega)]
    · intro this _ spares isValue
      have spared := spares string (by simp) isValue
      refine ⟨spared.1, ?_⟩
      simp only
      omega

theorem concat_ensures
    {memory : Memory} {string other : JavaString} {heap : Heap}
    (allocated : string.Allocated heap)
    (otherAllocated : other.Allocated heap) :
    Ensures (string.concat memory other) heap
      (Makes heap [string, other] (string.chars heap ++ other.chars heap)) (MakesNothing heap) := by
  have charsLength := JavaString.chars_length allocated.inside
  have otherLength := JavaString.chars_length otherAllocated.inside
  have short := allocated.short
  have otherShort := otherAllocated.short
  have sum := signed_sum string.count other.count short otherShort
  refine Ensures.ite ?_ ?_
  · intro none
    refine Ensures.pure ⟨.refl heap, allocated, ?_, fun this _ spares => spares string (by simp)⟩
    rw [List.eq_nil_of_length_eq_zero (otherLength.trans none), List.append_nil]
  · intro _
    rw [sum]
    refine Ensures.bind ((newCharArray_ensures memory _ heap).mono ?_ ?_)
    · intro buf after new
      obtain ⟨-, fits, rfl, rfl⟩ := new
      have zeros : (List.replicate (string.count + other.count) (0 : UInt16)).length =
          string.count + other.count := List.length_replicate
      have grown := heap.extends_grow (List.replicate (string.count + other.count) 0)
      have array := heap.arrays_grow (List.replicate (string.count + other.count) 0)
      have first := heap.grow_update (List.replicate (string.count + other.count) 0)
      rw [Int.toNat_natCast]
      change Ensures _ (heap.grow (List.replicate (string.count + other.count) 0)) _ _
      refine Ensures.bind (JavaString.getChars_ensures (allocated.extend grown).inside ?_ ?_)
      · rw [array]
        omega
      · rw [first, array, grown.chars_eq allocated, Int.toNat_zero]
        have fit : (string.chars heap ++ other.chars heap).length =
            string.count + other.count := by
          rw [List.length_append, charsLength, otherLength]
        have all := overwrite_whole (zeros.trans fit.symm)
        rw [← Ring.overwrite_overwrite (by rw [fit, zeros, Nat.zero_add]), Nat.zero_add,
          charsLength] at all
        have halfLength : (overwrite (List.replicate (string.count + other.count) 0) 0
            (string.chars heap)).length = string.count + other.count := by
          rw [overwrite_length (by omega), zeros]
        generalize overwrite (List.replicate (string.count + other.count) 0) 0
          (string.chars heap) = half at all halfLength ⊢
        have copied := heap.extends_grow half
        have otherInside := (otherAllocated.extend copied).inside
        refine Ensures.bind (JavaString.getChars_ensures otherInside ?_ ?_)
        · rw [heap.arrays_grow]
          omega
        · rw [heap.grow_update, heap.arrays_grow, copied.chars_eq otherAllocated,
            Int.toNat_natCast, all]
          refine Ensures.bind (newObject_ensures (Ensures.pure ?_) ?_)
          · exact makes_grow fit (by omega)
          · exact ⟨by decide, heap.extends_grow _⟩
    · intro thrown after failed
      rw [failed.2.1]
      exact ⟨failed.1, .refl heap⟩

/-! ## Calls -/

/-- What a call leaves behind: the strings that there were, and what the program means. -/
structure World.Leads (before : World) (contents : Contents) (after : World) : Prop where
  valid : after.Valid
  contents_eq : after.contents = contents
  kept : before.strings <+: after.strings

/-- A call that ends with an exception changes no characters. -/
def World.Fails (before : World) (thrown : Throwable) (after : World) : Prop :=
  thrown ≠ .fault ∧ before.Leads before.contents after

theorem World.Leads.refl
    {world : World}
    (valid : world.Valid) :
    world.Leads world.contents world :=
  ⟨valid, rfl, List.prefix_rfl⟩

theorem World.Fails.of_nullPointer
    {world : World}
    (valid : world.Valid) :
    world.Fails .nullPointer world :=
  ⟨by decide, .refl valid⟩

theorem World.Leads.extend
    {world : World} {heap : Heap}
    (valid : world.Valid)
    (extended : world.heap.Extends heap) :
    world.Leads world.contents { world with heap := heap } :=
  ⟨(valid.extend extended).1, (valid.extend extended).2, List.prefix_rfl⟩

theorem onArrays_ensures
    {result : Type} {attempt : EStateM Throwable Heap result} {world : World}
    {onOk : result → World → Prop} {onError : Throwable → World → Prop}
    (ensured : Ensures attempt world.heap
      (fun value heap => onOk value { world with heap := heap })
      (fun thrown heap => onError thrown { world with heap := heap })) :
    Ensures (onArrays attempt) world onOk onError := by
  unfold Ensures at ensured ⊢
  simp only [EStateM.run, onArrays] at ensured ⊢
  cases ran : attempt world.heap with
  | ok value heap =>
      rw [ran] at ensured
      exact ensured
  | error thrown heap =>
      rw [ran] at ensured
      exact ensured

theorem onBuffer_ensures
    {result : Type} {place : Nat} {method : Method result} {world : World}
    {onOk : result → World → Prop} {onError : Throwable → World → Prop}
    (whenNull : onError .nullPointer world)
    (ensured : ∀ this, world.buffers[place]? = some this →
      Ensures method (Store.mk world.heap this)
        (fun value store => onOk value (world.withStore place store))
        (fun thrown store => onError thrown (world.withStore place store))) :
    Ensures (onBuffer place method) world onOk onError := by
  refine Ensures.bind (Ensures.get (Ensures.bind (nonNull_ensures ?_ fun _ => whenNull)))
  intro this found
  have ensured := ensured this found
  unfold Ensures at ensured ⊢
  simp only [EStateM.run] at ensured ⊢
  cases ran : method (Store.mk world.heap this) with
  | ok value store =>
      rw [ran] at ensured
      exact ensured
  | error thrown store =>
      rw [ran] at ensured
      exact ensured

theorem construct_ensures
    {this : StringBuffer} {method : Method Unit} {world : World}
    {onOk : Unit → World → Prop} {onError : Throwable → World → Prop}
    (ensured : Ensures method (Store.mk world.heap this)
      (fun _ store => onOk ⟨⟩ (World.addBuffer { world with heap := store.heap } store.this))
      (fun thrown store => onError thrown { world with heap := store.heap })) :
    Ensures (construct this method) world onOk onError := by
  unfold Ensures at ensured ⊢
  simp only [EStateM.run, construct] at ensured ⊢
  cases ran : method (Store.mk world.heap this) with
  | ok value store =>
      rw [ran] at ensured
      exact ensured
  | error thrown store =>
      rw [ran] at ensured
      exact ensured

/-- A program gets a string. -/
theorem addString_ensures
    {world : World} {attempt : EStateM Throwable Heap JavaString}
    {sources : List JavaString} {chars : Chars}
    (valid : world.Valid)
    (known : ∀ source ∈ sources, source ∈ world.strings)
    (ensured : Ensures attempt world.heap (Makes world.heap sources chars)
      (MakesNothing world.heap)) :
    Ensures
      (do
        let string ← onArrays attempt
        modify (World.addString · string))
      world
      (fun _ after => world.Leads
        { world.contents with strings := world.contents.strings ++ [chars] } after)
      world.Fails := by
  refine Ensures.bind (onArrays_ensures (ensured.mono ?_ ?_))
  · intro string heap made
    have extended := valid.extend made.extended
    refine Ensures.modify ?_
    have added := extended.1.addString made.allocated fun this isBuffer =>
      made.spares this (valid.buffers this isBuffer).owned fun source isSource =>
        valid.spares this isBuffer source (known source isSource)
    rw [extended.2, made.chars_eq] at added
    exact ⟨added.1, added.2, List.prefix_append _ _⟩
  · intro thrown heap failed
    exact ⟨failed.1, .extend valid failed.2⟩

/-- The string at a place is one of the program's, with the characters of the place. -/
theorem World.text_eq
    {world : World} {place : Nat} {string : JavaString}
    (found : world.strings[place]? = some string) :
    world.contents.text place = string.chars world.heap := by
  rw [Contents.text, World.contents, List.getD_eq_getElem?_getD, List.getElem?_map, found]
  rfl

/-- What is appended for the string at a place. -/
theorem World.Valid.string_eq
    {world : World}
    (valid : world.Valid)
    (place : Nat) :
    world.string place ∈ world.strings ∧
      world.contents.text place = (world.string place).chars world.heap := by
  cases found : world.strings[place]? with
  | some string =>
      have isString : world.string place = string := by
        rw [World.string, List.getD_eq_getElem?_getD, found]
        rfl
      rw [isString]
      exact ⟨List.mem_of_getElem? found, World.text_eq found⟩
  | none =>
      have literal := valid.literal
      cases strings : world.strings with
      | nil =>
          rw [World.contents, strings] at literal
          cases literal
      | cons first rest =>
          have isFirst : world.string place = first := by
            rw [World.string, List.getD_eq_getElem?_getD, found, strings]
            rfl
          rw [isFirst]
          refine ⟨List.mem_cons_self, ?_⟩
          rw [World.contents, strings] at literal
          rw [Contents.text, World.contents, List.getD_eq_getElem?_getD, List.getElem?_map, found]
          exact (Option.some.inj literal).symm

/-- A call that cuts off characters of a buffer and cannot copy the others. -/
def Call.Cuts (memory : Memory) (world : World) : Call → Prop
  | .changeBuffer buffer change =>
      ∃ this ∈ world.buffers[buffer]?, change.Cuts memory (Store.mk world.heap this)
  | _ => False

instance (memory : Memory) (world : World) : ∀ call, Decidable (Call.Cuts memory world call)
  | .changeBuffer buffer change => inferInstanceAs (Decidable
      (∃ this ∈ world.buffers[buffer]?, change.Cuts memory (Store.mk world.heap this)))
  | .newString _ | .substring _ _ _ | .concat _ _ | .newBuffer _ | .newBufferOf _ | .toString _ =>
      .isFalse id

/-- A new buffer, before its constructor appends to it. -/
theorem newBuffer_valid
    {world : World} {length : Int}
    (short : length ≤ 0x08000000) :
    (Store.mk (world.heap.grow (List.replicate length.toNat 0))
      (StringBuffer.mk world.heap.next 0 false)).Valid := by
  refine ⟨Nat.lt_succ_self _, Nat.zero_le _, ?_⟩
  rw [Store.value, Heap.arrays_grow, List.length_replicate]
  omega

/-- The heap has new arrays only, when a constructor works on a new array. -/
theorem Frame.extends
    {heap : Heap} {chars : Chars} {after : Store}
    (frame : Frame (Store.mk (heap.grow chars) (StringBuffer.mk heap.next 0 false)) after) :
    heap.Extends after.heap ∧ heap.next ≤ after.this.value := by
  have grown := heap.extends_grow chars
  refine ⟨⟨grown.next_le.trans frame.next_le, ?_⟩, ?_⟩
  · intro array allocated
    rw [frame.arrays_eq (allocated.trans_le grown.next_le) allocated.ne, grown.same _ allocated]
  · rcases frame.owner with kept | new
    · exact kept.1.ge
    · exact grown.next_le.trans new

/-- A program gets a buffer, that the constructor made of a new array. -/
theorem construct_leads
    {world : World} {method : Method Unit} {length : Int} {content : Chars}
    (valid : world.Valid)
    (changes : Changes method
      (Store.mk (world.heap.grow (List.replicate length.toNat 0))
        (StringBuffer.mk world.heap.next 0 false)) content) :
    Ensures (construct (StringBuffer.mk world.heap.next 0 false) method)
      { world with heap := world.heap.grow (List.replicate length.toNat 0) }
      (fun _ after => world.Leads
        { world.contents with buffers := world.contents.buffers ++ [content] } after)
      world.Fails := by
  refine construct_ensures (changes.mono ?_ ?_)
  · intro _ store leaves
    have extended := leaves.frame.extends
    have onward := valid.extend extended.1
    have added := onward.1.addBuffer leaves.valid ?_ ?_
    · rw [onward.2, leaves.content_eq] at added
      exact ⟨added.1, added.2, List.prefix_rfl⟩
    · intro string isString isValue
      have allocated := (valid.strings string isString).allocated
      have newer := extended.2
      omega
    · intro this' isBuffer isValue
      have owned := (valid.buffers this' isBuffer).owned
      have newer := extended.2
      simp only at owned
      omega
  · intro thrown store failed
    exact ⟨failed.1, .extend valid failed.2.frame.extends.1⟩

theorem World.content_eq
    {world : World} {place : Nat} {this : StringBuffer}
    (found : world.buffers[place]? = some this) :
    world.contents.buffers.getD place [] = (Store.mk world.heap this).content := by
  rw [World.contents, List.getD_eq_getElem?_getD, List.getElem?_map, found]
  rfl

/-- A method of a buffer that keeps its characters. -/
theorem World.Leads.withStore
    {world : World} {place : Nat} {this : StringBuffer} {store : Store}
    (valid : world.Valid)
    (found : world.buffers[place]? = some this)
    (leaves : Leaves (Store.mk world.heap this) (Store.mk world.heap this).content store) :
    world.Leads world.contents (world.withStore place store) := by
  have onward := valid.withStore found leaves
  refine ⟨onward.1, onward.2.trans ?_, List.prefix_rfl⟩
  have same : world.contents.buffers.set place (Store.mk world.heap this).content =
      world.contents.buffers := by
    apply List.ext_getElem?
    intro place'
    rw [List.getElem?_set]
    by_cases isPlace : place = place'
    · have inside := (List.getElem?_eq_some_iff.mp found).1
      rw [if_pos isPlace, ← isPlace, World.contents, List.length_map, if_pos inside,
        List.getElem?_map, found]
      rfl
    · rw [if_neg isPlace]
  rw [same]

/-- Every call does what its documentation says, or ends with an exception. -/
theorem Call.invoke_ensures
    {memory : Memory} {world : World}
    (call : Call)
    (valid : world.Valid)
    (notCut : ¬ call.Cuts memory world) :
    Ensures (call.invoke memory) world
      (fun _ after => world.Leads (world.contents.after call) after) world.Fails := by
  have null := World.Fails.of_nullPointer valid
  have noMemory : world.Fails .outOfMemory world := ⟨by decide, .refl valid⟩
  cases call with
  | newString value =>
      refine Ensures.bind (onArrays_ensures (newObject_ensures ?_ noMemory))
      refine Ensures.bind (nonNull_ensures ?_ fun _ => null)
      rintro array rfl
      exact addString_ensures valid (by simp) (stringOf_ensures array.length_le)
  | substring string beginIndex endIndex =>
      refine Ensures.bind (Ensures.get (Ensures.bind (nonNull_ensures ?_ fun _ => null)))
      intro source found
      have isString := List.mem_of_getElem? found
      rw [Contents.after, World.text_eq found]
      exact addString_ensures valid (by simpa using isString)
        (substring_ensures (valid.strings source isString))
  | concat string str =>
      refine Ensures.bind (Ensures.get (Ensures.bind (nonNull_ensures ?_ fun _ => null)))
      intro source found
      refine Ensures.bind (Ensures.get (Ensures.bind (nonNull_ensures ?_ fun _ => null)))
      intro other found'
      have isString := List.mem_of_getElem? found
      have isString' := List.mem_of_getElem? found'
      rw [Contents.after, World.text_eq found, World.text_eq found']
      exact addString_ensures valid (by simpa using ⟨isString, isString'⟩)
        (concat_ensures (valid.strings source isString) (valid.strings other isString'))
  | newBuffer length =>
      refine Ensures.bind (onArrays_ensures (newObject_ensures ?_ noMemory))
      refine Ensures.bind (onArrays_ensures ((newCharArray_ensures memory length _).mono ?_ ?_))
      · intro value heap new
        obtain ⟨-, short, rfl, rfl⟩ := new
        exact construct_leads valid (Ensures.pure (.refl (newBuffer_valid short)))
      · intro thrown heap failed
        rw [failed.2.1]
        exact ⟨failed.1, .refl valid⟩
  | newBufferOf str =>
      refine Ensures.bind (onArrays_ensures (newObject_ensures ?_ noMemory))
      refine Ensures.bind (Ensures.get (Ensures.bind (nonNull_ensures ?_ fun _ => null)))
      intro source found
      have allocated := valid.strings source (List.mem_of_getElem? found)
      refine Ensures.bind (onArrays_ensures ((newCharArray_ensures memory _ _).mono ?_ ?_))
      · intro value heap new
        obtain ⟨-, short, rfl, rfl⟩ := new
        have grown := world.heap.extends_grow
          (List.replicate (signed ((source.count : Int) + 16)).toNat 0)
        have guarded := allocated.extend grown
        have appended := @append_changes memory _ _ (newBuffer_valid short)
          ⟨guarded.allocated, guarded.inside, fun isValue =>
            absurd isValue allocated.allocated.ne⟩ allocated.short
        rw [grown.chars_eq allocated] at appended
        rw [Contents.after, World.text_eq found]
        exact construct_leads valid appended
      · intro thrown heap failed
        rw [failed.2.1]
        exact ⟨failed.1, .refl valid⟩
  | changeBuffer buffer change =>
      refine Ensures.bind (Ensures.get (onBuffer_ensures null ?_))
      intro this found
      have isBuffer := List.mem_of_getElem? found
      have changed := @Change.method_changes memory world.string world.contents.text _ change
        (valid.buffers this isBuffer)
        (fun str => ⟨valid.guarded isBuffer (valid.string_eq str).1,
          (valid.strings _ (valid.string_eq str).1).short⟩)
        (fun str => (valid.string_eq str).2) fun cuts => notCut ⟨this, found, cuts⟩
      refine changed.mono ?_ ?_
      · intro _ store leaves
        have onward := valid.withStore found leaves
        rw [Contents.after, World.content_eq found]
        exact ⟨onward.1, onward.2, List.prefix_rfl⟩
      · intro thrown store failed
        exact ⟨failed.1, .withStore valid found failed.2⟩
  | toString buffer =>
      refine Ensures.bind (onBuffer_ensures null ?_)
      intro this found
      have isBuffer := List.mem_of_getElem? found
      refine (toString_ensures (valid.buffers this isBuffer)).mono ?_ ?_
      · intro string store made
        obtain ⟨leaves, guarded, short, isValue, chars⟩ := made
        have onward := World.Leads.withStore valid found leaves
        have foundAfter : (world.withStore buffer store).buffers[buffer]? = some store.this := by
          have inside := (List.getElem?_eq_some_iff.mp found).1
          simp [World.withStore, inside]
        have added := onward.valid.addString ⟨guarded.allocated, guarded.inside, short⟩ ?_
        · rw [onward.contents_eq] at added
          refine Ensures.modify ⟨added.1, ?_, List.prefix_append _ _⟩
          rw [added.2, Contents.after, World.content_eq found]
          exact congrArg (fun chars => Contents.mk (world.contents.strings ++ [chars]) _) chars
        · intro this' isBuffer' sameValue
          obtain ⟨place', found'⟩ := List.getElem?_of_mem isBuffer'
          have samePlace := onward.valid.distinct place' buffer this' store.this found' foundAfter
            (sameValue.symm.trans isValue)
          rw [samePlace, foundAfter] at found'
          rw [← Option.some.inj found']
          exact guarded.sharing isValue
      · intro thrown store failed
        exact ⟨failed.1, .withStore valid found failed.2⟩

end PicoJvm.Text
