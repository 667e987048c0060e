import PicoJvm.Inflate.TableFilling

/-!
# Looking up codes

The tables of `make_code_table` answer with the symbol whose canonical code the stream continues
with.
-/

namespace PicoJvm.Inflate

open PicoJvm.Lib.BitReversal

section Alphabet

variable {alphabet : CodeLengths} {symbol : Nat}

/-! ## Reading an entry -/

theorem huff_split
    (coded : alphabet.IsCoded symbol) :
    alphabet.huff symbol &&& huffinfoLongMask = 0 ∧ alphabet.huff symbol >>> 4 = symbol ∧
      alphabet.huff symbol &&& 0xF = alphabet.length symbol := by
  have below := (huff_lt coded).2
  have lengths : alphabet.length symbol ≤ 15 := length_le symbol
  have short := mt (isLong_iff (show alphabet.huff symbol < 65536 by omega)).mp
    (Nat.not_le.mpr below)
  refine ⟨Decidable.not_not.mp short, ?_, ?_⟩
  · unfold CodeLengths.huff
    rw [Nat.shiftRight_eq_div_pow]
    omega
  · rw [show (0xF : Nat) = 2 ^ 4 - 1 from rfl, Nat.and_two_pow_sub_one_eq_mod]
    unfold CodeLengths.huff
    omega

/-- An entry of the main table that is no pointer decides. -/
theorem getHuffmanEntry_main
    {table : HuffmanCodeTable}
    {word huff : Nat}
    (found : table.entries[word % 2 ^ table.quickBits]? = some huff)
    (short : huff &&& huffinfoLongMask = 0) :
    getHuffmanEntry table word =
      if huff = 0 then .noCode else .entry (huff >>> 4) (huff &&& 0xF) := by
  unfold getHuffmanEntry nextBits
  rw [Nat.one_shiftLeft, Nat.and_two_pow_sub_one_eq_mod, found]
  dsimp only
  rw [if_neg (not_not_intro short)]
  cases huff with
  | zero => rfl
  | succ huff => rfl

/-- A pointer leads to a second table, which decides. -/
theorem getHuffmanEntry_long
    (table : HuffmanCodeTable)
    {word place huff : Nat}
    (found : table.entries[word % 2 ^ table.quickBits]? = some (pointer place))
    (fits : place < 16382)
    (found' : table.entries[place + word % 2 ^ table.maxCodeLen / 2 ^ table.quickBits]? =
      some huff) :
    getHuffmanEntry table word =
      if huff = 0 then .noCode else .entry (huff >>> 4) (huff &&& 0xF) := by
  have isLong : pointer place &&& huffinfoLongMask ≠ 0 :=
    (isLong_iff (by unfold pointer headerSize; omega)).mpr (by unfold pointer; omega)
  unfold getHuffmanEntry nextBits
  rw [Nat.one_shiftLeft, Nat.one_shiftLeft, Nat.and_two_pow_sub_one_eq_mod,
    Nat.and_two_pow_sub_one_eq_mod, Nat.shiftRight_eq_div_pow, found]
  dsimp only
  rw [if_pos isLong, longTable_pointer fits]
  dsimp only
  rw [found']
  cases huff with
  | zero => rfl
  | succ huff => rfl

/-- Whether a word begins with a code depends on as many of its bits only. -/
theorem begins_mod
    {word bits : Nat}
    (atMost : alphabet.length symbol ≤ bits) :
    alphabet.Begins (word % 2 ^ bits) symbol ↔ alphabet.Begins word symbol := by
  unfold CodeLengths.Begins
  rw [Nat.mod_mod_of_dvd _ (Nat.pow_dvd_pow 2 atMost)]

/-- A table answers a word with the symbol whose code it begins with, if there is one. -/
def Answers (alphabet : CodeLengths) (table : HuffmanCodeTable) (word : Nat) : Prop :=
  (∃ symbol, alphabet.Begins word symbol ∧
    getHuffmanEntry table word = .entry symbol (alphabet.length symbol)) ∨
  (∀ symbol, ¬ alphabet.Begins word symbol) ∧ getHuffmanEntry table word = .noCode

theorem answers_entry
    {table : HuffmanCodeTable}
    {word : Nat}
    (begins : alphabet.Begins word symbol)
    (found : getHuffmanEntry table word = if alphabet.huff symbol = 0 then .noCode
      else .entry (alphabet.huff symbol >>> 4) (alphabet.huff symbol &&& 0xF)) :
    Answers alphabet table word := by
  obtain ⟨-, name, length⟩ := huff_split begins.1
  have positive := (huff_lt begins.1).1
  rw [if_neg (by omega), name, length] at found
  exact .inl ⟨symbol, begins, found⟩

/-- A filled table answers every word. -/
theorem Filled.answers
    {quickBits : Nat}
    {sizes : Sizes}
    {filling : Filling}
    {prefixes : List Nat}
    (filled : Filled alphabet quickBits sizes alphabet.lengths.length filling prefixes)
    (layout : Layout alphabet quickBits sizes)
    (fits : Fits alphabet quickBits)
    (word : Nat) :
    Answers alphabet ⟨quickBits, alphabet.maxLength, filling.entries⟩ word := by
  have below := Nat.mod_lt word (Nat.two_pow_pos quickBits)
  obtain ⟨huff, found, entry⟩ := filled.main _ below
  cases entry with
  | short symbol _ begins atMost =>
      exact answers_entry ((begins_mod atMost).mp begins)
        (getHuffmanEntry_main found (huff_split begins.1).1)
  | none fresh free =>
      refine .inr ⟨fun symbol begins => ?_, getHuffmanEntry_main found (Nat.zero_and _)⟩
      rcases Nat.lt_or_ge quickBits (alphabet.length symbol) with longer | atMost
      · have member := filled.complete symbol begins.1.inside begins.1 longer
        rw [← begins.2, Nat.mod_mod_of_dvd _ (Nat.pow_dvd_pow 2 (Nat.le_of_lt longer))] at member
        exact fresh member
      · exact free symbol begins.1.inside atMost ((begins_mod atMost).mpr begins)
  | long index pointed =>
      obtain ⟨other, coded, longer, first⟩ := filled.pointed _ (List.mem_of_getElem? pointed)
      have fewer := Nat.lt_of_lt_of_le longer (length_le_maxLength coded)
      obtain ⟨longLength, -⟩ := layout.long fewer
      have room := filled.table_room layout fewer fits filled.distinct filled.pointed
        (List.getElem?_eq_some_iff.mp pointed).1
      have rest : word % 2 ^ alphabet.maxLength / 2 ^ quickBits < sizes.longTableLength := by
        rw [longLength, Nat.div_lt_iff_lt_mul (Nat.two_pow_pos _), ← Nat.pow_add,
          Nat.sub_add_cancel (Nat.le_of_lt fewer)]
        exact Nat.mod_lt _ (Nat.two_pow_pos _)
      have whole : word % 2 ^ quickBits +
          2 ^ quickBits * (word % 2 ^ alphabet.maxLength / 2 ^ quickBits) =
            word % 2 ^ alphabet.maxLength := by
        rw [← Nat.mod_mod_of_dvd word (Nat.pow_dvd_pow 2 (Nat.le_of_lt fewer)), Nat.mod_add_div]
      obtain ⟨huff, found', entry⟩ := filled.long index _ pointed _ rest
      rw [whole] at entry
      have result := getHuffmanEntry_long
        ⟨quickBits, alphabet.maxLength, filling.entries⟩ found room.1 found'
      cases entry with
      | coded symbol _ begins _ =>
          exact answers_entry ((begins_mod (length_le_maxLength begins.1)).mp begins) result
      | none free =>
          refine .inr ⟨fun symbol begins => ?_, result⟩
          rcases Nat.lt_or_ge quickBits (alphabet.length symbol) with longer' | atMost
          · exact free symbol begins.1.inside longer'
              ((begins_mod (length_le_maxLength begins.1)).mpr begins)
          · -- The long code that the pointer is for would begin with the short one.
            have begins' := (begins_mod atMost).mpr begins
            rw [← first] at begins'
            have same := begins_unique ((begins_mod atMost).mp begins')
              ⟨coded, Nat.mod_eq_of_lt (reversed_lt other)⟩
            subst same
            omega

/-! ## The tables of `make_code_table` -/

theorem makeCodeTable_answers (alphabet : CodeLengths) (maxQuickBits : Nat) :
    ∃ table, makeCodeTable true alphabet.lengths maxQuickBits = some table ∧
      ∀ word, Answers alphabet table word := by
  have maxLe : alphabet.maxLength ≤ 15 := maxLength_le
  obtain ⟨codesSize, -, codes⟩ := @firstCodes_eq alphabet _ maxLe
  rw [← choicesTo_first _ alphabet.maxLength] at codesSize codes
  have fits : Fits alphabet (min alphabet.maxLength
      (choices (bitLengthCount alphabet.lengths) alphabet.maxLength).optQuickBits) := by
    rcases Nat.eq_zero_or_pos alphabet.maxLength with zero | positive
    · have whole := space_maxLength alphabet
      intro before words
      rw [← whole, zero, space_zero] at words
      omega
    · obtain ⟨-, atMost, fits⟩ := choices_fits positive
      rw [Nat.min_eq_right atMost]
      exact fits
  obtain ⟨table, filling, prefixes, made, rfl, layout, filled⟩ :=
    fillTable_filled fits codesSize codes
  refine ⟨_, ?_, filled.answers layout fits⟩
  unfold makeCodeTable
  rw [if_pos rfl]
  exact made

/-- A lookup in a table that `make_code_table` makes for code lengths answers with a symbol
exactly when the stream continues with the symbol's canonical code, and with an error when it
continues with no symbol's code. -/
theorem getHuffmanEntry_iff (alphabet : CodeLengths) (maxQuickBits : Nat) :
    ∃ table, makeCodeTable true alphabet.lengths maxQuickBits = some table ∧
      ∀ inData,
        (∀ symbol length, getHuffmanEntry table inData = .entry symbol length ↔
          IsCoded alphabet.lengths symbol ∧ length = alphabet.lengths.getD symbol 0 ∧
            Continues inData (canonicalCode alphabet.lengths symbol) length) ∧
        (getHuffmanEntry table inData = .noCode ↔
          ∀ symbol, IsCoded alphabet.lengths symbol →
            ¬ Continues inData (canonicalCode alphabet.lengths symbol)
              (alphabet.lengths.getD symbol 0)) := by
  obtain ⟨table, made, answers⟩ := makeCodeTable_answers alphabet maxQuickBits
  refine ⟨table, made, fun inData => ?_⟩
  rcases answers inData with ⟨found, begins, result⟩ | ⟨none, result⟩
  · rw [result]
    refine ⟨fun symbol length => ⟨?_, ?_⟩, ?_, ?_⟩
    · intro same
      obtain ⟨rfl, rfl⟩ := Lookup.entry.inj same
      exact ⟨begins.1, rfl, (continues_iff begins.1).mpr begins⟩
    · rintro ⟨coded, rfl, continues⟩
      obtain rfl := begins_unique begins ((continues_iff coded).mp continues)
      rfl
    · intro impossible
      cases impossible
    · intro free
      exact absurd ((continues_iff begins.1).mpr begins) (free found begins.1)
  · rw [result]
    refine ⟨fun symbol length => ⟨?_, ?_⟩, ?_, ?_⟩
    · intro impossible
      cases impossible
    · rintro ⟨coded, rfl, continues⟩
      exact absurd ((continues_iff coded).mp continues) (none symbol)
    · intro _ symbol coded continues
      exact none symbol ((continues_iff coded).mp continues)
    · intro _
      rfl

/-- Two codes of two bits and two of three leave words without a code. -/
example :
    (makeCodeTable true [2, 3, 0, 2, 3] 9).map
        (fun table => [0b000, 0b001, 0b101, 0b111].map (getHuffmanEntry table)) =
      some [.entry 0 2, .entry 1 3, .entry 4 3, .noCode] := by
  decide

end Alphabet

end PicoJvm.Inflate
