import Mathlib.Data.List.Forall2
import Mathlib.Tactic.IntervalCases
import PicoJvm.Stackmaps.CompressedList

/-!
# Shifting the bcis of compressed stack maps

Rewriting a list of compressed stack maps moves the bcis from a position on, and keeps the maps. An
entry of which the bci outgrows its word gets the long form.
-/

namespace PicoJvm.Stackmaps

open PicoJvm.Lib.Attempt

/-! ## The bits of a word -/

theorem bits_of_small
    {bci : BitVec 16}
    (small : bci.toNat < 512) :
    ∀ i (below : i < 16), 9 ≤ i → bci[i] = false := by
  intro i below above
  have power : 2 ^ 9 ≤ 2 ^ i := Nat.pow_le_pow_right (by decide) above
  rw [← BitVec.getLsbD_eq_getElem]
  exact Nat.testBit_lt_two_pow (Nat.lt_of_lt_of_le small power)

/-- A word with another bci. -/
def withBci (entry : BitVec 32) (bci : BitVec 16) : BitVec 32 :=
  (entry &&& 0xFFFF007F#32) ||| (bci.setWidth 32 <<< 7)

theorem withBci_low (entry : BitVec 32) (bci : BitVec 16) :
    withBci entry bci &&& 0x7F#32 = entry &&& 0x7F#32 := by
  apply BitVec.eq_of_getLsbD_eq
  intro i below
  rw [withBci]
  interval_cases i <;> simp

theorem withBci_flag (entry : BitVec 32) (bci : BitVec 16) :
    withBci entry bci &&& 0x1#32 = entry &&& 0x1#32 := by
  apply BitVec.eq_of_getLsbD_eq
  intro i below
  rw [withBci]
  interval_cases i <;> simp

theorem withBci_height (entry : BitVec 32) (bci : BitVec 16) :
    (withBci entry bci >>> 1) &&& 0x3#32 = (entry >>> 1) &&& 0x3#32 := by
  apply BitVec.eq_of_getLsbD_eq
  intro i below
  rw [withBci]
  interval_cases i <;> simp

/-- A bci of nine bits leaves the map alone. -/
theorem withBci_map
    {bci : BitVec 16} (entry : BitVec 32)
    (small : bci.toNat < 512) :
    withBci entry bci >>> 16 = entry >>> 16 := by
  apply BitVec.eq_of_getLsbD_eq
  intro i below
  rw [withBci]
  interval_cases i <;> simp [bits_of_small small]

/-- A bci of nine bits is read again. -/
theorem withBci_bci
    {bci : BitVec 16} (entry : BitVec 32)
    (small : bci.toNat < 512) :
    ((withBci entry bci &&& 0xFFFF#32) >>> 7).setWidth 16 = bci := by
  apply BitVec.eq_of_getLsbD_eq
  intro i below
  rw [withBci]
  interval_cases i <;> simp [bits_of_small small]

/-! ## Entries -/

/-- The bits of the map of an entry. -/
def Entry.bit (entry : Entry) (index : Nat) : Bool :=
  entry.stackmap.bitmap.bit index

/-- The entry has another bci, and the same map. -/
structure Entry.Moved (bci : BitVec 16) (old new : Entry) : Prop where
  compressed : new.Compressed
  bci_eq : new.getBci = bci
  locals_eq : new.getLocals = old.getLocals
  height_eq : new.getStackHeight = old.getStackHeight
  bit_eq : ∀ index < old.getLocals.toNat + old.getStackHeight.toNat, new.bit index = old.bit index

theorem Entry.Moved.refl
    {entry : Entry}
    (compressed : entry.Compressed) :
    Entry.Moved entry.getBci entry entry :=
  ⟨compressed, rfl, rfl, rfl, fun _ _ => rfl⟩

theorem Entry.Moved.trans
    {bci bci' : BitVec 16} {old middle new : Entry}
    (first : Entry.Moved bci old middle)
    (second : Entry.Moved bci' middle new) :
    Entry.Moved bci' old new where
  compressed := second.compressed
  bci_eq := second.bci_eq
  locals_eq := second.locals_eq.trans first.locals_eq
  height_eq := second.height_eq.trans first.height_eq
  bit_eq := by
    intro index inside
    have inside' : index < middle.getLocals.toNat + middle.getStackHeight.toNat := by
      rw [first.locals_eq, first.height_eq]
      exact inside
    exact (second.bit_eq index inside').trans (first.bit_eq index inside)

theorem isShortMap_word {entry : BitVec 32} (flag : entry &&& 0x1#32 ≠ 0#32) :
    (Entry.word entry).isShortMap = true :=
  decide_eq_true flag

theorem bit_word
    {entry : BitVec 32} (flag : entry &&& 0x1#32 ≠ 0#32) (index : Nat) :
    (Entry.word entry).bit index = (Entry.word entry).getShortMap.getLsbD index := by
  rw [Entry.bit, Entry.stackmap, isShortMap_word flag]
  rfl

theorem bit_reference (longmap : List (BitVec 16)) (index : Nat) :
    (Entry.reference longmap).bit index =
      ((longmap.drop 3).getD (index / 16) 0#16).getLsbD (index % 16) := by
  have words : ((longmap.drop 3).map BitVec.toNat).getD (index / 16) (0#16).toNat =
      ((longmap.drop 3).getD (index / 16) 0#16).toNat :=
    List.getD_map _ (0#16) BitVec.toNat
  exact congrArg (fun word => Nat.testBit word (index % 16)) words

/-- A word has room for a bci of nine bits. -/
theorem setBci_word_moved
    {entry : BitVec 32} {bci : BitVec 16}
    (flag : entry &&& 0x1#32 ≠ 0#32)
    (small : bci.toNat < 512) :
    Entry.Moved bci (.word entry) ((Entry.word entry).setBci bci) := by
  have isWord : (Entry.word entry).setBci bci = .word (withBci entry bci) := rfl
  have flag' : withBci entry bci &&& 0x1#32 ≠ 0#32 := by
    rwa [withBci_flag]
  rw [isWord]
  refine ⟨flag', withBci_bci entry small, ?_, ?_, ?_⟩
  · simp only [Entry.getLocals, withBci_low]
  · simp only [Entry.getStackHeight, withBci_height]
  · intro index _
    rw [bit_word flag, bit_word flag', Entry.getShortMap, Entry.getShortMap, withBci_map entry small]

/-- An array has room for every bci. -/
theorem setBci_reference_moved
    {longmap : List (BitVec 16)} (bci : BitVec 16)
    (compressed : (Entry.reference longmap).Compressed) :
    Entry.Moved bci (.reference longmap) ((Entry.reference longmap).setBci bci) := by
  have long : 2 < longmap.length := by
    rw [compressed, arrayMax]
    omega
  have locals : (longmap.set 2 bci).getD 0 0 = longmap.getD 0 0 := by
    simp
  have height : (longmap.set 2 bci).getD 1 0 = longmap.getD 1 0 := by
    simp
  refine ⟨?_, ?_, locals, height, ?_⟩
  · rw [Entry.setBci, Entry.Compressed, locals, height, List.length_set]
    exact compressed
  · simp [Entry.setBci, Entry.getBci, long]
  · intro index _
    rw [Entry.setBci, bit_reference, bit_reference, List.drop_set_of_lt (by decide)]

/-- The array that `convert_short_to_long_map` makes of an entry. -/
def Entry.longForm (entry : Entry) : List (BitVec 16) :=
  let size := arrayMax entry.getLocals.toNat entry.getStackHeight.toNat
  let bitmap := List.replicate size 0#16
  let bitmap := if 3 < size then bitmap.set 3 entry.getShortMap else bitmap
  ((bitmap.set 0 entry.getLocals).set 1 entry.getStackHeight).set 2 entry.getBci

/-- The words of the map in the long form. -/
def Entry.mapWords (entry : Entry) : List (BitVec 16) :=
  (List.replicate ((entry.getLocals.toNat + entry.getStackHeight.toNat + 15) / 16) 0#16).set 0
    entry.getShortMap

theorem longForm_eq (entry : Entry) :
    entry.longForm =
      entry.getLocals :: entry.getStackHeight :: entry.getBci :: entry.mapWords := by
  have size : arrayMax entry.getLocals.toNat entry.getStackHeight.toNat =
      (entry.getLocals.toNat + entry.getStackHeight.toNat + 15) / 16 + 3 := rfl
  rw [Entry.longForm, Entry.mapWords]
  rcases Nat.eq_zero_or_pos ((entry.getLocals.toNat + entry.getStackHeight.toNat + 15) / 16) with
    none | some
  · rw [if_neg (by omega), size, none]
    rfl
  · obtain ⟨more, isMore⟩ := Nat.exists_eq_add_of_lt some
    rw [if_pos (by omega), size, isMore]
    rfl

/-- The numbers of locals and of the words on the stack are small in a word. -/
theorem word_small (entry : BitVec 32) :
    (Entry.word entry).getLocals.toNat < 16 ∧ (Entry.word entry).getStackHeight.toNat < 4 := by
  have locals : entry.toNat &&& 127 = entry.toNat % 128 := Nat.and_two_pow_sub_one_eq_mod _ 7
  have height : entry.toNat / 2 ^ 1 &&& 3 = entry.toNat / 2 ^ 1 % 4 :=
    Nat.and_two_pow_sub_one_eq_mod _ 2
  simp only [Entry.getLocals, Entry.getStackHeight, BitVec.toNat_setWidth,
    BitVec.toNat_ushiftRight, BitVec.toNat_and, BitVec.toNat_ofNat, Nat.shiftRight_eq_div_pow]
  have mask : 127 % 2 ^ 32 = 127 := rfl
  have mask' : 3 % 2 ^ 32 = 3 := rfl
  rw [mask, mask', locals, height]
  omega

/-- The long form has the map of the word. -/
theorem longForm_moved
    {entry : BitVec 32}
    (flag : entry &&& 0x1#32 ≠ 0#32) :
    Entry.Moved (Entry.word entry).getBci (.word entry) (.reference (Entry.word entry).longForm) := by
  have small := word_small entry
  have form := longForm_eq (Entry.word entry)
  rw [form]
  refine ⟨?_, rfl, rfl, rfl, ?_⟩
  · simp only [Entry.Compressed, List.length_cons, Entry.mapWords, List.length_set,
      List.length_replicate, arrayMax, List.getD_cons_zero, List.getD_cons_succ]
  · intro index inside
    rw [bit_word flag, bit_reference]
    simp only [List.drop_succ_cons, List.drop_zero, Entry.mapWords]
    by_cases first : index < 16
    · have word : index / 16 = 0 := by
        omega
      have some : 0 < ((Entry.word entry).getLocals.toNat +
          (Entry.word entry).getStackHeight.toNat + 15) / 16 := by
        omega
      rw [word, Nat.mod_eq_of_lt first, List.getD_eq_getElem?_getD, List.getElem?_set_self]
      · rfl
      · rwa [List.length_replicate]
    · have word : index / 16 ≠ 0 := by
        omega
      rw [BitVec.getLsbD_of_ge (Entry.word entry).getShortMap index (by omega),
        List.getD_eq_getElem?_getD, List.getElem?_set_ne (Ne.symm word), List.getElem?_replicate]
      split <;> exact BitVec.getLsbD_zero

/-! ## Rounds of the loop -/

/-- What becomes of an entry when bcis from a position on are shifted. A bci has 16 bits. -/
structure Entry.Shifted (shiftedBci bciShift : BitVec 16) (old new : Entry) : Prop where
  compressed : new.Compressed
  bci_eq : (new.getBci.toNat : Int) =
    if shiftedBci.toNat ≤ old.getBci.toNat then (old.getBci.toNat + bciShift.toInt) % 65536
    else old.getBci.toNat
  locals_eq : new.getLocals = old.getLocals
  height_eq : new.getStackHeight = old.getStackHeight
  bit_eq : ∀ index < old.getLocals.toNat + old.getStackHeight.toNat, new.bit index = old.bit index

/-- The sum that a round computes, as the number that is stored. -/
theorem sum_toNat (bci bciShift : BitVec 16) :
    ((((bci.setWidth 32 + bciShift.signExtend 32).setWidth 16).toNat : Nat) : Int) =
      (bci.toNat + bciShift.toInt) % 65536 := by
  have same : (bciShift.signExtend 32).setWidth 16 = bciShift := by
    apply BitVec.eq_of_getLsbD_eq
    intro i below
    simp only [BitVec.getLsbD_setWidth, BitVec.getLsbD_signExtend, below, decide_true,
      Bool.true_and, if_true]
    exact Bool.and_eq_right_iff_imp.mpr fun _ => decide_eq_true (by omega)
  rw [BitVec.setWidth_add _ _ (by decide), same, BitVec.setWidth_setWidth_of_le _ (by decide),
    BitVec.setWidth_eq, BitVec.toNat_add, BitVec.toInt_eq_toNat_cond]
  split <;> omega

theorem Entry.Moved.shifted
    {shiftedBci bciShift : BitVec 16} {old new : Entry}
    (moved : Entry.Moved ((old.getBci.setWidth 32 + bciShift.signExtend 32).setWidth 16) old new)
    (reached : shiftedBci.toNat ≤ old.getBci.toNat) :
    Entry.Shifted shiftedBci bciShift old new where
  compressed := moved.compressed
  bci_eq := by
    rw [if_pos reached, moved.bci_eq, sum_toNat]
  locals_eq := moved.locals_eq
  height_eq := moved.height_eq
  bit_eq := moved.bit_eq

theorem entryAt_ensures
    {before : List Entry} {entry : Entry} {after : List Entry}
    {onOk : Entry → List Entry → Prop} {onError : Thrown → List Entry → Prop}
    (holds : onOk entry (before ++ entry :: after)) :
    Ensures (entryAt before.length) (before ++ entry :: after) onOk onError := by
  refine Ensures.bind (Ensures.get (Ensures.pure ?_))
  have found : (before ++ entry :: after).getD before.length (.word 0#32) = entry := by
    simp
  rw [found]
  exact holds

theorem modify_append_cons (before : List Entry) (entry : Entry) (after : List Entry)
    (change : Entry → Entry) :
    (before ++ entry :: after).modify before.length change = before ++ change entry :: after := by
  induction before with
  | nil =>
      rfl
  | cons first rest inductionHypothesis =>
      exact congrArg (List.cons first) inductionHypothesis

theorem modifyAt_ensures
    {before : List Entry} {entry : Entry} {after : List Entry} {change : Entry → Entry}
    {onOk : Unit → List Entry → Prop} {onError : Thrown → List Entry → Prop}
    (holds : onOk ⟨⟩ (before ++ change entry :: after)) :
    Ensures (modify (·.modify before.length change)) (before ++ entry :: after) onOk onError := by
  refine Ensures.modify ?_
  rw [modify_append_cons]
  exact holds

/-- Making the long form of an entry. -/
theorem convertShortToLongMap_ensures
    {allocates : Bool} {before : List Entry} {entry : Entry} {after : List Entry} :
    Ensures (convertShortToLongMap allocates before.length) (before ++ entry :: after)
      (fun _ list => list = before ++ .reference entry.longForm :: after)
      (fun _ list => list = before ++ entry :: after) := by
  refine Ensures.bind (entryAt_ensures (Ensures.ite (fun _ => Ensures.throw rfl) fun _ => ?_))
  refine Ensures.bind (Ensures.modify ?_)
  rw [List.set_append_right _ _ (Nat.le_refl _), Nat.sub_self, List.set_cons_zero]
  exact modifyAt_ensures rfl

/-- In the short form a bci has nine bits. -/
theorem small_of_isShortmapType
    {locals stackHeight bci : BitVec 32}
    (isShort : isShortmapType locals stackHeight bci = true) :
    bci.toNat ≤ 0x1FF := by
  by_contra large
  rw [isShortmapType, if_pos (by omega)] at isShort
  cases isShort

/-- A round shifts its entry, or leaves the list alone when an array cannot be allocated. -/
theorem rewriteEntry_ensures
    {allocates : Nat → Bool} {shiftedBci bciShift : BitVec 16}
    {before : List Entry} {entry : Entry} {after : List Entry}
    (compressed : entry.Compressed) :
    Ensures (rewriteEntry allocates shiftedBci bciShift before.length) (before ++ entry :: after)
      (fun _ list => ∃ new, list = before ++ new :: after ∧
        Entry.Shifted shiftedBci bciShift entry new)
      (fun _ list => list = before ++ entry :: after) := by
  refine Ensures.bind (entryAt_ensures (Ensures.ite ?_ ?_))
  · intro reached
    have shifted (new : Entry)
        (moved : Entry.Moved
          ((entry.getBci.setWidth 32 + bciShift.signExtend 32).setWidth 16) entry new) :
        ∃ new', before ++ new :: after = before ++ new' :: after ∧
          Entry.Shifted shiftedBci bciShift entry new' :=
      ⟨new, rfl, moved.shifted reached⟩
    cases entry with
    | word entry =>
        by_cases isShort : isShortmapType ((Entry.word entry).getLocals.setWidth 32)
            ((Entry.word entry).getStackHeight.setWidth 32)
            ((Entry.word entry).getBci.setWidth 32 + bciShift.signExtend 32) = true
        · simp only [isShort, Bool.not_true, Bool.false_and, Bool.false_eq_true, if_false]
          have small := small_of_isShortmapType isShort
          refine modifyAt_ensures (shifted _ (setBci_word_moved compressed ?_))
          rw [BitVec.toNat_setWidth]
          omega
        · simp only [isShort, Bool.not_false, Bool.true_and, isShortMap_word compressed, if_true]
          refine Ensures.bind (convertShortToLongMap_ensures.mono ?_ fun _ _ same => same)
          rintro _ _ rfl
          have long := longForm_moved compressed
          exact modifyAt_ensures (shifted _ (long.trans (setBci_reference_moved _ long.compressed)))
    | reference longmap =>
        simp only [Entry.isShortMap, Bool.and_false, Bool.false_eq_true, if_false]
        exact modifyAt_ensures (shifted _ (setBci_reference_moved _ compressed))
  · intro notReached
    refine Ensures.pure ⟨entry, rfl, compressed, ?_, rfl, rfl, fun _ _ => rfl⟩
    rw [if_neg notReached]

/-! ## The whole list -/

/-- The loop shifts the entries that are left, or those up to one for which no array can be
allocated. -/
theorem rewriteFrom_ensures
    {allocates : Nat → Bool} {shiftedBci bciShift : BitVec 16} {done rest : List Entry}
    (compressed : ∀ entry ∈ rest, entry.Compressed) :
    Ensures (rewriteFrom allocates shiftedBci bciShift done.length rest.length) (done ++ rest)
      (fun _ list => ∃ rest', list = done ++ rest' ∧
        List.Forall₂ (Entry.Shifted shiftedBci bciShift) rest rest')
      (fun _ list => ∃ part part' left, rest = part ++ left ∧ list = done ++ part' ++ left ∧
        List.Forall₂ (Entry.Shifted shiftedBci bciShift) part part') := by
  induction rest generalizing done with
  | nil =>
      exact Ensures.pure ⟨[], rfl, .nil⟩
  | cons entry rest inductionHypothesis =>
      refine Ensures.bind ((rewriteEntry_ensures (compressed entry List.mem_cons_self)).mono ?_ ?_)
      · rintro _ _ ⟨new, rfl, shifted⟩
        have onward := @inductionHypothesis (done ++ [new]) fun entry' isRest =>
          compressed entry' (List.mem_cons_of_mem _ isRest)
        rw [List.length_append, List.length_singleton, List.append_assoc, List.singleton_append]
          at onward
        refine onward.mono ?_ ?_
        · rintro _ _ ⟨rest', rfl, others⟩
          refine ⟨new :: rest', ?_, .cons shifted others⟩
          rw [List.append_assoc, List.singleton_append]
        · rintro _ _ ⟨part, part', left, rfl, rfl, others⟩
          refine ⟨entry :: part, new :: part', left, rfl, ?_, .cons shifted others⟩
          rw [List.append_assoc done, List.singleton_append]
      · rintro _ _ rfl
        refine ⟨[], [], entry :: rest, rfl, ?_, .nil⟩
        rw [List.append_nil]

/-- A list with one entry, of bci 10. -/
def oneMap : CompressedMaps where
  entries := [.word 1281#32]
  compressed := by
    intro entry isEntry
    rw [List.mem_singleton.mp isEntry]
    decide

end PicoJvm.Stackmaps
