import Mathlib.Data.Finset.Card
import Mathlib.Order.Interval.Finset.Nat
import PicoJvm.Inflate.TableSizes

/-!
# Filling the tables

What each place of the tables holds after some of the symbols: the code that its number begins
with, a pointer to a second table, or nothing.
-/

namespace PicoJvm.Inflate

open PicoJvm.Lib.BitReversal

/-! ## Writing -/

theorem putEntry_some
    {entries : List Nat}
    {place : Nat}
    (inside : place < entries.length)
    (huff : Nat) :
    putEntry entries place huff = some (entries.set place huff) := by
  rw [putEntry, if_pos inside]

/-- The places of a table that `putStride` writes from `j` on. -/
def Struck (base limit stride j place : Nat) : Prop :=
  base + j ≤ place ∧ place < base + limit ∧ stride ∣ place - (base + j)

theorem struck_iff
    {base limit stride j place : Nat}
    (inside : j < limit) :
    Struck base limit stride j place ↔
      place = base + j ∨ Struck base limit stride (j + stride) place := by
  unfold Struck
  constructor
  · rintro ⟨above, below, divides⟩
    by_cases first : place = base + j
    · exact .inl first
    · have atLeast := Nat.le_of_dvd (by omega) divides
      have rest : place - (base + (j + stride)) = place - (base + j) - stride := by omega
      exact .inr ⟨by omega, below, rest ▸ Nat.dvd_sub divides (Nat.dvd_refl stride)⟩
  · rintro (rfl | ⟨above, below, divides⟩)
    · exact ⟨Nat.le_refl _, by omega, by simp⟩
    · have whole : place - (base + j) = place - (base + (j + stride)) + stride := by omega
      exact ⟨by omega, below, whole ▸ Nat.dvd_add divides (Nat.dvd_refl stride)⟩

theorem putStride_spec
    (base limit : Nat)
    {stride : Nat}
    (huff : Nat)
    (positive : 0 < stride)
    (rounds j : Nat)
    (entries : List Nat)
    (fits : base + limit ≤ entries.length)
    (enough : limit ≤ j + rounds) :
    ∃ entries', putStride base limit stride huff rounds j entries = some entries' ∧
      entries'.length = entries.length ∧
      ∀ place, (Struck base limit stride j place → entries'[place]? = some huff) ∧
        (¬ Struck base limit stride j place → entries'[place]? = entries[place]?) := by
  have done : ∀ j, limit ≤ j → ∀ place, ¬ Struck base limit stride j place := by
    intro j atEnd place struck
    have above := struck.1
    have below := struck.2.1
    omega
  induction rounds generalizing j entries with
  | zero =>
      exact ⟨entries, rfl, rfl, fun place => ⟨fun struck => absurd struck (done j enough place),
        fun _ => rfl⟩⟩
  | succ rounds induction =>
      unfold putStride
      by_cases inside : j < limit
      · obtain ⟨entries', put, size, places⟩ :=
          induction (j + stride) (entries.set (base + j) huff) (by simpa using fits) (by omega)
        rw [if_pos inside, putEntry_some (by omega)]
        refine ⟨entries', put, by simpa using size, fun place => ?_⟩
        rw [struck_iff inside]
        obtain ⟨written, kept⟩ := places place
        rw [List.getElem?_set] at kept
        by_cases later : Struck base limit stride (j + stride) place
        · exact ⟨fun _ => written later, fun not => absurd (.inr later) not⟩
        · rw [kept later]
          by_cases here : base + j = place
          · rw [if_pos here, if_pos (by omega)]
            exact ⟨fun _ => rfl, fun not => absurd (.inl here.symm) not⟩
          · rw [if_neg here]
            exact ⟨fun struck => struck.elim (fun same => absurd same.symm here)
              fun struck => absurd struck later, fun _ => rfl⟩
      · rw [if_neg inside]
        exact ⟨entries, rfl, rfl, fun place => ⟨fun struck =>
          absurd struck (done j (Nat.not_lt.mp inside) place), fun _ => rfl⟩⟩

/-- The places whose number inside the table is the start, modulo the stride. -/
theorem struck_start
    (base limit : Nat)
    {stride start : Nat}
    (below : start < stride)
    (place : Nat) :
    Struck base limit stride start place ↔
      base ≤ place ∧ place < base + limit ∧ (place - base) % stride = start := by
  unfold Struck
  constructor
  · rintro ⟨above, inside, factor, distance⟩
    refine ⟨by omega, inside, ?_⟩
    have number : place - base = start + stride * factor := by omega
    rw [number, Nat.add_mul_mod_self_left, Nat.mod_eq_of_lt below]
  · rintro ⟨above, inside, same⟩
    have atLeast := Nat.mod_le (place - base) stride
    have distance : place - (base + start) = place - base - (place - base) % stride := by omega
    refine ⟨by omega, inside, distance ▸ Nat.dvd_sub_mod _⟩

/-! ## Entries -/

section Alphabet

variable {alphabet : CodeLengths} {symbol before : Nat}

/-- The entry of a symbol. -/
def CodeLengths.huff (alphabet : CodeLengths) (symbol : Nat) : Nat :=
  symbol * 16 + alphabet.length symbol

theorem symbol_lt
    (coded : alphabet.IsCoded symbol) :
    symbol < 2048 :=
  Nat.lt_of_lt_of_le coded.inside alphabet.symbols_le

theorem huff_lt
    (coded : alphabet.IsCoded symbol) :
    0 < alphabet.huff symbol ∧ alphabet.huff symbol < 0x8000 := by
  have symbols := symbol_lt coded
  have lengths : alphabet.length symbol ≤ 15 := length_le symbol
  have positive : 0 < alphabet.length symbol := coded.positive
  unfold CodeLengths.huff
  omega

/-- The entry that points to the table at a place. -/
def pointer (place : Nat) : Nat :=
  0x8000 + (headerSize + 2 * place)

theorem pointer_eq
    {place : Nat}
    (fits : place < 16382) :
    (huffinfoLongMask ||| (headerSize + 2 * place)) % 65536 = pointer place := by
  have small : headerSize + 2 * place < 2 ^ 15 := by
    unfold headerSize
    omega
  have joined := Nat.shiftLeft_add_eq_or_of_lt small 1
  rw [Nat.shiftLeft_eq, show 1 * 2 ^ 15 = huffinfoLongMask from rfl] at joined
  rw [← joined]
  unfold huffinfoLongMask pointer
  omega

theorem longTable_pointer
    {place : Nat}
    (fits : place < 16382) :
    longTable (pointer place) = some place := by
  have delta : pointer place &&& 0x7FFF = headerSize + 2 * place := by
    rw [show (0x7FFF : Nat) = 2 ^ 15 - 1 from rfl, Nat.and_two_pow_sub_one_eq_mod]
    unfold pointer headerSize
    omega
  unfold longTable headerSize at *
  rw [delta, if_neg (by omega)]
  congr 1
  omega

theorem isLong_iff
    {huff : Nat}
    (below : huff < 65536) :
    huff &&& huffinfoLongMask ≠ 0 ↔ 0x8000 ≤ huff := by
  have bit : huff &&& huffinfoLongMask = if huff.testBit 15 then 2 ^ 15 else 0 := by
    refine Nat.eq_of_testBit_eq fun index => ?_
    rw [show huffinfoLongMask = 2 ^ 15 from rfl, Nat.testBit_and, Nat.testBit_two_pow]
    by_cases here : 15 = index
    · subst here
      cases huff.testBit 15 with
      | false => rfl
      | true => rfl
    · rw [decide_eq_false here, Bool.and_false]
      split
      · rw [Nat.testBit_two_pow, decide_eq_false here]
      · rw [Nat.zero_testBit]
  rw [bit, Nat.testBit_eq_decide_div_mod_eq]
  split
  · rename_i set
    have := of_decide_eq_true set
    omega
  · rename_i clear
    have := of_decide_eq_false (Bool.eq_false_iff.mpr clear)
    omega

/-! ## The invariant -/

variable (alphabet) (quickBits : Nat)

/-- The sizes that `make_code_table` works with for quick bits that are not more than needed. -/
structure Layout (sizes : Sizes) : Prop where
  quick : sizes.quickBits = quickBits
  main : sizes.mainTableLength = 2 ^ quickBits
  long : quickBits < alphabet.maxLength →
    sizes.longTableLength = 2 ^ (alphabet.maxLength - quickBits) ∧
      sizes.numLongTables * 2 ^ (15 - quickBits) + space alphabet.lengths quickBits = 2 ^ 15

/-- What the main table holds for a number of quick bits, after the symbols before one. -/
inductive MainEntry (longLength before : Nat) (prefixes : List Nat) (bits : Nat) : Nat → Prop
  | short (symbol : Nat)
      (earlier : symbol < before)
      (begins : alphabet.Begins bits symbol)
      (atMost : alphabet.length symbol ≤ quickBits) :
      MainEntry longLength before prefixes bits (alphabet.huff symbol)
  | long (index : Nat)
      (found : prefixes[index]? = some bits) :
      MainEntry longLength before prefixes bits (pointer (2 ^ quickBits + index * longLength))
  | none
      (fresh : bits ∉ prefixes)
      (free : ∀ symbol < before, alphabet.length symbol ≤ quickBits →
        ¬ alphabet.Begins bits symbol) :
      MainEntry longLength before prefixes bits 0

/-- What a second table holds for a word. -/
inductive LongEntry (before : Nat) (word : Nat) : Nat → Prop
  | coded (symbol : Nat)
      (earlier : symbol < before)
      (begins : alphabet.Begins word symbol)
      (longer : quickBits < alphabet.length symbol) :
      LongEntry before word (alphabet.huff symbol)
  | none
      (free : ∀ symbol < before, quickBits < alphabet.length symbol →
        ¬ alphabet.Begins word symbol) :
      LongEntry before word 0

/-- The tables after the symbols before one, with the numbers that have a second table. -/
structure Filled (sizes : Sizes) (before : Nat) (filling : Filling) (prefixes : List Nat) : Prop where
  size : filling.entries.length =
    2 ^ quickBits + sizes.numLongTables * sizes.longTableLength
  codesSize : filling.codes.length = 16
  codes : ∀ bits, 0 < bits → bits ≤ alphabet.maxLength →
    filling.codes.getD bits 0 = space alphabet.lengths (bits - 1) +
      (alphabet.lengths.take before).count bits * 2 ^ (15 - bits)
  next : filling.nextLongTable = 2 ^ quickBits + prefixes.length * sizes.longTableLength
  distinct : prefixes.Nodup
  pointed : ∀ bits ∈ prefixes, ∃ symbol, alphabet.IsCoded symbol ∧
    quickBits < alphabet.length symbol ∧ alphabet.reversed symbol % 2 ^ quickBits = bits
  complete : ∀ symbol < before, alphabet.IsCoded symbol → quickBits < alphabet.length symbol →
    alphabet.reversed symbol % 2 ^ quickBits ∈ prefixes
  main : ∀ bits < 2 ^ quickBits, ∃ huff, filling.entries[bits]? = some huff ∧
    MainEntry alphabet quickBits sizes.longTableLength before prefixes bits huff
  long : ∀ index bits, prefixes[index]? = some bits → ∀ j < sizes.longTableLength,
    ∃ huff, filling.entries[2 ^ quickBits + index * sizes.longTableLength + j]? = some huff ∧
      LongEntry alphabet quickBits before (bits + 2 ^ quickBits * j) huff
  unused : ∀ place, filling.nextLongTable ≤ place → place < filling.entries.length →
    filling.entries[place]? = some 0

variable {alphabet} {quickBits} {sizes : Sizes} {filling : Filling} {prefixes : List Nat}

theorem MainEntry.skip
    {longLength bits huff : Nat}
    (entry : MainEntry alphabet quickBits longLength symbol prefixes bits huff)
    (not : alphabet.length symbol ≤ quickBits → ¬ alphabet.Begins bits symbol) :
    MainEntry alphabet quickBits longLength (symbol + 1) prefixes bits huff := by
  cases entry with
  | short other earlier begins atMost =>
      exact .short other (Nat.lt_succ_of_lt earlier) begins atMost
  | long index found => exact .long index found
  | none fresh free =>
      refine .none fresh fun other earlier atMost => ?_
      rcases Nat.lt_succ_iff_lt_or_eq.mp earlier with before | rfl
      · exact free other before atMost
      · exact not atMost

theorem LongEntry.skip
    {word huff : Nat}
    (entry : LongEntry alphabet quickBits symbol word huff)
    (not : quickBits < alphabet.length symbol → ¬ alphabet.Begins word symbol) :
    LongEntry alphabet quickBits (symbol + 1) word huff := by
  cases entry with
  | coded other earlier begins longer =>
      exact .coded other (Nat.lt_succ_of_lt earlier) begins longer
  | none free =>
      refine .none fun other earlier longer => ?_
      rcases Nat.lt_succ_iff_lt_or_eq.mp earlier with before | rfl
      · exact free other before longer
      · exact not longer

/-! ## Second tables -/

/-- The first bits of a long code, their first one highest, lie between the spaces. -/
theorem prefix_range
    (coded : alphabet.IsCoded symbol)
    (atMost : quickBits ≤ 15)
    (longer : quickBits < alphabet.length symbol) :
    space alphabet.lengths quickBits / 2 ^ (15 - quickBits) ≤
        reverse quickBits (alphabet.reversed symbol % 2 ^ quickBits) ∧
      reverse quickBits (alphabet.reversed symbol % 2 ^ quickBits) * 2 ^ (15 - quickBits) <
        space alphabet.lengths 15 := by
  have begins : alphabet.Begins (alphabet.reversed symbol) symbol :=
    ⟨coded, Nat.mod_eq_of_lt (reversed_lt symbol)⟩
  have range := (begins_iff coded).mp begins
  have words : space alphabet.lengths (alphabet.length symbol - 1) ≤
      firstWord alphabet.lengths symbol ∧
    firstWord alphabet.lengths symbol + 2 ^ (15 - alphabet.length symbol) ≤
      space alphabet.lengths (alphabet.length symbol) := firstWord_le coded (length_le symbol)
  have behind := space_mono alphabet.lengths
    (show quickBits ≤ alphabet.length symbol - 1 by omega)
  have inside := space_mono alphabet.lengths
    (show alphabet.length symbol ≤ 15 from length_le symbol)
  have first := reverse_div quickBits (15 - quickBits) (alphabet.reversed symbol)
  rw [Nat.add_sub_cancel' atMost] at first
  rw [reverse_mod, ← first]
  have whole := Nat.div_mul_le_self (reverse 15 (alphabet.reversed symbol)) (2 ^ (15 - quickBits))
  refine ⟨Nat.div_le_div_right (by omega), by omega⟩

/-- A list of different numbers in a range is no longer than the range. -/
theorem length_le_range
    {numbers : List Nat}
    (low high : Nat)
    (distinct : numbers.Nodup)
    (inside : ∀ number ∈ numbers, low ≤ number ∧ number < high) :
    numbers.length ≤ high - low := by
  rw [← List.toFinset_card_of_nodup distinct, ← Nat.card_Ico]
  refine Finset.card_le_card fun number member => ?_
  exact Finset.mem_Ico.mpr (inside number (List.mem_toFinset.mp member))

/-- Before a new second table there is room for one more, in the tables and in the offsets. -/
theorem prefixes_room
    (atMost : quickBits ≤ 15)
    (distinct : prefixes.Nodup)
    (pointed : ∀ bits ∈ prefixes, ∃ symbol, alphabet.IsCoded symbol ∧
      quickBits < alphabet.length symbol ∧ alphabet.reversed symbol % 2 ^ quickBits = bits)
    {index : Nat}
    (inside : index < prefixes.length) :
    index * 2 ^ (15 - quickBits) + space alphabet.lengths quickBits <
      space alphabet.lengths 15 := by
  obtain ⟨ranges, rangesEq⟩ := space_dvd alphabet.lengths atMost
  have positive := Nat.two_pow_pos (15 - quickBits)
  have low : space alphabet.lengths quickBits / 2 ^ (15 - quickBits) = ranges := by
    rw [rangesEq, Nat.mul_div_cancel_left _ positive]
  have reversedDistinct : (prefixes.map (reverse quickBits)).Nodup := by
    refine List.Nodup.map_on ?_ distinct
    intro bits member bits' member' same
    obtain ⟨symbol, -, -, rfl⟩ := pointed bits member
    obtain ⟨symbol', -, -, rfl⟩ := pointed bits' member'
    have again := congrArg (reverse quickBits) same
    rwa [reverse_reverse, reverse_reverse, Nat.mod_mod, Nat.mod_mod] at again
  have bound := length_le_range ranges
    ((space alphabet.lengths 15 - 1) / 2 ^ (15 - quickBits) + 1) reversedDistinct (by
      intro number member
      obtain ⟨bits, pointedBits, rfl⟩ := List.mem_map.mp member
      obtain ⟨symbol, coded, longer, rfl⟩ := pointed bits pointedBits
      have range := prefix_range coded atMost longer
      rw [low] at range
      refine ⟨range.1, Nat.lt_succ_of_le ?_⟩
      rw [Nat.le_div_iff_mul_le positive]
      omega)
  rw [List.length_map] at bound
  have upper := Nat.div_mul_le_self (space alphabet.lengths 15 - 1) (2 ^ (15 - quickBits))
  have steps : (index + ranges) * 2 ^ (15 - quickBits) ≤
      (space alphabet.lengths 15 - 1) / 2 ^ (15 - quickBits) * 2 ^ (15 - quickBits) :=
    Nat.mul_le_mul_right _ (by omega)
  have some : 0 < space alphabet.lengths 15 := by
    obtain ⟨symbol, coded, longer, -⟩ := pointed _ (List.getElem_mem inside)
    have range := prefix_range coded atMost longer
    omega
  rw [Nat.add_mul] at steps
  rw [rangesEq, Nat.mul_comm (2 ^ _) ranges]
  omega

/-! ## The next code -/

theorem Filled.code_eq
    (filled : Filled alphabet quickBits sizes symbol filling prefixes)
    (coded : alphabet.IsCoded symbol) :
    filling.codes.getD (alphabet.length symbol) 0 = firstWord alphabet.lengths symbol := by
  have first := firstWord_eq coded (length_le symbol)
  exact (filled.codes _ coded.positive (length_le_maxLength coded)).trans first.symm

theorem reverse15Bits_firstWord
    (coded : alphabet.IsCoded symbol) :
    reverse15Bits (firstWord alphabet.lengths symbol) = alphabet.reversed symbol := by
  have below := firstWord_lt coded
  have positive := Nat.two_pow_pos (15 - alphabet.length symbol)
  have width : 15 = 15 - alphabet.length symbol + alphabet.length symbol :=
    (Nat.sub_add_cancel (length_le symbol)).symm
  rw [reverse15Bits_eq (by omega), width]
  exact reverse_shifted _ _ _

theorem count_take_succ
    (inside : symbol < alphabet.lengths.length)
    (bits : Nat) :
    (alphabet.lengths.take (symbol + 1)).count bits = (alphabet.lengths.take symbol).count bits +
      if alphabet.length symbol = bits then 1 else 0 := by
  have last : alphabet.lengths[symbol] = alphabet.length symbol := by
    unfold CodeLengths.length
    rw [List.getD_eq_getElem?_getD, List.getElem?_eq_getElem inside]
    rfl
  rw [List.take_succ_eq_append_getElem inside, List.count_append, last, List.count_singleton]
  simp only [beq_iff_eq]

/-- The next code of the length of a symbol comes behind the symbol's one. -/
theorem Filled.codes_set
    (filled : Filled alphabet quickBits sizes symbol filling prefixes)
    (coded : alphabet.IsCoded symbol)
    {bits : Nat}
    (positive : 0 < bits)
    (atMost : bits ≤ alphabet.maxLength) :
    (filling.codes.set (alphabet.length symbol) (filling.codes.getD (alphabet.length symbol) 0 +
        1 <<< (maxBits - alphabet.length symbol))).getD bits 0 =
      space alphabet.lengths (bits - 1) +
        (alphabet.lengths.take (symbol + 1)).count bits * 2 ^ (15 - bits) := by
  have before := filled.codes bits positive atMost
  rw [count_take_succ coded.inside, List.getD_eq_getElem?_getD, List.getElem?_set]
  by_cases same : alphabet.length symbol = bits
  · subst same
    have inside : alphabet.length symbol < filling.codes.length := by
      have lengths : alphabet.length symbol ≤ 15 := length_le symbol
      rw [filled.codesSize]
      omega
    rw [if_pos rfl, if_pos inside, if_pos rfl, before, Nat.one_shiftLeft, Nat.succ_mul,
      ← Nat.add_assoc]
    rfl
  · rw [if_neg same, if_neg same, ← List.getD_eq_getElem?_getD, before, Nat.add_zero]

/-! ## One symbol -/

theorem Filled.skip
    (filled : Filled alphabet quickBits sizes symbol filling prefixes)
    (inside : symbol < alphabet.lengths.length)
    (none : alphabet.length symbol = 0) :
    Filled alphabet quickBits sizes (symbol + 1) filling prefixes := by
  have uncoded : ¬ alphabet.IsCoded symbol := fun coded => by
    have positive : 0 < alphabet.length symbol := coded.positive
    omega
  exact {
    size := filled.size
    codesSize := filled.codesSize
    codes := fun bits positive atMost => by
      rw [count_take_succ inside, if_neg (by omega)]
      exact filled.codes bits positive atMost
    next := filled.next
    distinct := filled.distinct
    pointed := filled.pointed
    complete := fun other earlier coded longer => by
      rcases Nat.lt_succ_iff_lt_or_eq.mp earlier with before | rfl
      · exact filled.complete other before coded longer
      · exact absurd coded uncoded
    main := fun bits below => by
      obtain ⟨huff, found, entry⟩ := filled.main bits below
      exact ⟨huff, found, entry.skip fun _ begins => uncoded begins.1⟩
    long := fun index bits found j below => by
      obtain ⟨huff, found', entry⟩ := filled.long index bits found j below
      exact ⟨huff, found', entry.skip fun _ begins => uncoded begins.1⟩
    unused := filled.unused }

/-- A short code takes the places of the main table whose number begins with it. -/
theorem Filled.short
    (filled : Filled alphabet quickBits sizes symbol filling prefixes)
    (layout : Layout alphabet quickBits sizes)
    (coded : alphabet.IsCoded symbol)
    (atMost : alphabet.length symbol ≤ quickBits) :
    ∃ filling', fillSymbol sizes symbol (alphabet.length symbol) filling = some filling' ∧
      Filled alphabet quickBits sizes (symbol + 1) filling' prefixes := by
  have positive : 0 < alphabet.length symbol := coded.positive
  have huff : (symbol <<< 4 + alphabet.length symbol) % 65536 = alphabet.huff symbol := by
    have below := (huff_lt coded).2
    unfold CodeLengths.huff at below ⊢
    rw [Nat.shiftLeft_eq]
    omega
  obtain ⟨entries, put, size, places⟩ := putStride_spec 0 (2 ^ quickBits)
    (alphabet.huff symbol) (Nat.two_pow_pos (alphabet.length symbol)) (2 ^ quickBits)
    (alphabet.reversed symbol) filling.entries (by rw [filled.size]; omega) (by omega)
  have struck := struck_start 0 (2 ^ quickBits)
    (show alphabet.reversed symbol < 2 ^ alphabet.length symbol from reversed_lt symbol)
  have kept : ∀ place, 2 ^ quickBits ≤ place → entries[place]? = filling.entries[place]? := by
    intro place above
    refine (places place).2 fun hit => ?_
    have := ((struck place).mp hit).2.1
    omega
  have mainLe : 2 ^ quickBits ≤ filling.nextLongTable := by
    rw [filled.next]
    omega
  refine ⟨{ filling with
    entries
    codes := filling.codes.set (alphabet.length symbol)
      (filling.codes.getD (alphabet.length symbol) 0 + 1 <<< (maxBits - alphabet.length symbol)) },
    ?_, ?_⟩
  · unfold fillSymbol
    dsimp only
    rw [if_neg (by omega), layout.quick, if_pos atMost, layout.main, huff, filled.code_eq coded,
      reverse15Bits_firstWord coded, Nat.one_shiftLeft, put]
    rfl
  · exact {
      size := size.trans filled.size
      codesSize := (List.length_set ..).trans filled.codesSize
      codes := fun bits positive atMost => filled.codes_set coded positive atMost
      next := filled.next
      distinct := filled.distinct
      pointed := filled.pointed
      complete := fun other earlier coded' longer => by
        rcases Nat.lt_succ_iff_lt_or_eq.mp earlier with before | rfl
        · exact filled.complete other before coded' longer
        · omega
      main := fun bits below => by
        by_cases begins : alphabet.Begins bits symbol
        · refine ⟨alphabet.huff symbol, (places bits).1 ((struck bits).mpr ?_),
            .short symbol (Nat.lt_succ_self _) begins atMost⟩
          exact ⟨Nat.zero_le _, by omega, begins.2⟩
        · obtain ⟨huff, found, entry⟩ := filled.main bits below
          refine ⟨huff, ((places bits).2 fun hit => ?_).trans found, entry.skip fun _ => begins⟩
          exact begins ⟨coded, ((struck bits).mp hit).2.2⟩
      long := fun index bits found j below => by
        obtain ⟨huff, found', entry⟩ := filled.long index bits found j below
        exact ⟨huff, (kept _ (by omega)).trans found', entry.skip fun longer => by omega⟩
      unused := fun place above below =>
        (kept place (Nat.le_trans mainLe above)).trans
          (filled.unused place above (Nat.lt_of_lt_of_eq below size)) }

/-- There is room for the second table of every number that has one. -/
theorem Filled.table_room
    (filled : Filled alphabet quickBits sizes before filling prefixes)
    (layout : Layout alphabet quickBits sizes)
    (fewer : quickBits < alphabet.maxLength)
    (fits : Fits alphabet quickBits)
    {prefixes' : List Nat}
    (distinct : prefixes'.Nodup)
    (pointed : ∀ bits ∈ prefixes', ∃ symbol, alphabet.IsCoded symbol ∧
      quickBits < alphabet.length symbol ∧ alphabet.reversed symbol % 2 ^ quickBits = bits)
    {index : Nat}
    (inside : index < prefixes'.length) :
    2 ^ quickBits + index * sizes.longTableLength < 16382 ∧
      2 ^ quickBits + index * sizes.longTableLength + sizes.longTableLength ≤
        filling.entries.length := by
  have maxLe : alphabet.maxLength ≤ 15 := maxLength_le
  obtain ⟨longLength, longTables⟩ := layout.long fewer
  have room := prefixes_room (by omega) distinct pointed inside
  refine ⟨longLength ▸ fits index (by omega), ?_⟩
  have whole := alphabet.notOversubscribed
  have fewerTables : index < sizes.numLongTables :=
    Nat.lt_of_mul_lt_mul_right (a := 2 ^ (15 - quickBits)) (by omega)
  have tables := Nat.mul_le_mul_right sizes.longTableLength fewerTables
  rw [Nat.succ_mul] at tables
  rw [filled.size]
  omega

/-- A long code finds the second table for its first bits, or gets a new one. -/
theorem Filled.thisLongTable
    (filled : Filled alphabet quickBits sizes symbol filling prefixes)
    (layout : Layout alphabet quickBits sizes)
    (fewer : quickBits < alphabet.maxLength)
    (fits : Fits alphabet quickBits)
    (coded : alphabet.IsCoded symbol)
    (longer : quickBits < alphabet.length symbol) :
    ∃ index filling' prefixes',
      thisLongTable sizes (alphabet.reversed symbol % 2 ^ quickBits) filling =
        some (2 ^ quickBits + index * sizes.longTableLength, filling') ∧
      prefixes'[index]? = some (alphabet.reversed symbol % 2 ^ quickBits) ∧
      filling'.codes = filling.codes ∧
      Filled alphabet quickBits sizes symbol filling' prefixes' := by
  have below := Nat.mod_lt (alphabet.reversed symbol) (Nat.two_pow_pos quickBits)
  obtain ⟨huff, found, entry⟩ := filled.main _ below
  generalize bitsEq : alphabet.reversed symbol % 2 ^ quickBits = bits at *
  unfold Inflate.thisLongTable
  rw [found]
  cases entry with
  | short other earlier begins atMost =>
      -- The long code would begin with the short one.
      have begins' : alphabet.Begins (alphabet.reversed symbol) other := by
        refine ⟨begins.1, ?_⟩
        rw [← begins.2, ← bitsEq, Nat.mod_mod_of_dvd _ (Nat.pow_dvd_pow 2 atMost)]
      have same := begins_unique begins' ⟨coded, Nat.mod_eq_of_lt (reversed_lt symbol)⟩
      omega
  | long index pointed =>
      obtain ⟨inside, -⟩ := List.getElem?_eq_some_iff.mp pointed
      have room := filled.table_room layout fewer fits filled.distinct filled.pointed inside
      refine ⟨index, filling, prefixes, ?_, pointed, rfl, filled⟩
      obtain ⟨rest, positive⟩ : ∃ rest,
          pointer (2 ^ quickBits + index * sizes.longTableLength) = rest + 1 :=
        ⟨_, Nat.succ_add 0x7FFF _⟩
      have target := longTable_pointer room.1
      rw [positive] at target ⊢
      change (longTable (rest + 1)).bind (fun table => some (table, filling)) = _
      rw [target]
      rfl
  | none fresh free =>
      have member : ∀ other ∈ prefixes ++ [bits], ∃ symbol, alphabet.IsCoded symbol ∧
          quickBits < alphabet.length symbol ∧
          alphabet.reversed symbol % 2 ^ quickBits = other := by
        intro other inside
        rcases List.mem_append.mp inside with old | new
        · exact filled.pointed other old
        · exact ⟨symbol, coded, longer, bitsEq.trans (List.mem_singleton.mp new).symm⟩
      have distinct : (prefixes ++ [bits]).Nodup :=
        filled.distinct.append (List.nodup_singleton bits)
          (List.disjoint_singleton.mpr fresh)
      have old : ∀ {index other : Nat}, prefixes[index]? = some other →
          (prefixes ++ [bits])[index]? = some other := by
        intro index other found
        rw [List.getElem?_append_left (List.getElem?_eq_some_iff.mp found).1, found]
      have last : (prefixes ++ [bits])[prefixes.length]? = some bits :=
        List.getElem?_concat_length
      have room := filled.table_room layout fewer fits distinct member
        (show prefixes.length < (prefixes ++ [bits]).length by simp)
      have next := filled.next
      have kept : ∀ place ≠ bits, ∀ huff,
          (filling.entries.set bits huff)[place]? = filling.entries[place]? :=
        fun place other huff => List.getElem?_set_ne (Ne.symm other)
      refine ⟨prefixes.length, { filling with
        entries := filling.entries.set bits
          (pointer (2 ^ quickBits + prefixes.length * sizes.longTableLength))
        nextLongTable := filling.nextLongTable + sizes.longTableLength },
        prefixes ++ [bits], ?_, last, rfl, ?_⟩
      · dsimp only
        rw [putEntry_some (by omega), next, pointer_eq room.1]
        rfl
      · exact {
          size := (List.length_set ..).trans filled.size
          codesSize := filled.codesSize
          codes := filled.codes
          next := by
            rw [List.length_append, List.length_singleton, Nat.succ_mul, ← Nat.add_assoc, ← next]
          distinct := distinct
          pointed := member
          complete := fun other earlier coded longer =>
            List.mem_append_left _ (filled.complete other earlier coded longer)
          main := fun place placeLt => by
            by_cases here : place = bits
            · subst here
              exact ⟨_, List.getElem?_set_self (by omega), .long prefixes.length last⟩
            · obtain ⟨huff, found', entry⟩ := filled.main place placeLt
              refine ⟨huff, (kept place here _).trans found', ?_⟩
              cases entry with
              | short other earlier begins atMost => exact .short other earlier begins atMost
              | long index pointed => exact .long index (old pointed)
              | none fresh' free' =>
                  refine .none (fun inside => ?_) free'
                  rcases List.mem_append.mp inside with old | new
                  · exact fresh' old
                  · exact here (List.mem_singleton.mp new)
          long := fun index other found' j inside => by
            rw [kept _ (by omega)]
            rcases Nat.lt_or_ge index prefixes.length with before | atLast
            · rw [List.getElem?_append_left before] at found'
              exact filled.long index other found' j inside
            · obtain ⟨indexLe, -⟩ := List.getElem?_eq_some_iff.mp found'
              rw [List.length_append, List.length_singleton] at indexLe
              obtain rfl : index = prefixes.length := by omega
              obtain rfl : bits = other := Option.some.inj (last.symm.trans found')
              refine ⟨0, filled.unused _ (by omega) (by omega), .none ?_⟩
              intro earlier before longer' begins
              refine fresh ?_
              have member := filled.complete earlier before begins.1 longer'
              rwa [← begins.2, Nat.mod_mod_of_dvd _ (Nat.pow_dvd_pow 2 (Nat.le_of_lt longer')),
                Nat.add_mul_mod_self_left, Nat.mod_eq_of_lt below] at member
          unused := fun place above inside => by
            dsimp only at above
            rw [kept _ (by omega)]
            exact filled.unused place (by omega) (by simpa using inside) }

/-- The numbers of a second table that a long code takes are the rests that begin with its rest. -/
theorem begins_rest
    (coded : alphabet.IsCoded symbol)
    (longer : quickBits < alphabet.length symbol)
    {bits j : Nat}
    (below : bits < 2 ^ quickBits) :
    alphabet.Begins (bits + 2 ^ quickBits * j) symbol ↔
      bits = alphabet.reversed symbol % 2 ^ quickBits ∧
        j % 2 ^ (alphabet.length symbol - quickBits) = alphabet.reversed symbol / 2 ^ quickBits := by
  have positive := Nat.two_pow_pos quickBits
  have split : 2 ^ alphabet.length symbol =
      2 ^ quickBits * 2 ^ (alphabet.length symbol - quickBits) := by
    rw [← Nat.pow_add, Nat.add_sub_cancel' (Nat.le_of_lt longer)]
  have word : (bits + 2 ^ quickBits * j) % 2 ^ alphabet.length symbol =
      bits + 2 ^ quickBits * (j % 2 ^ (alphabet.length symbol - quickBits)) := by
    rw [split, Nat.mod_mul, Nat.add_mul_mod_self_left, Nat.mod_eq_of_lt below,
      Nat.add_mul_div_left _ _ positive, Nat.div_eq_of_lt below, Nat.zero_add]
  rw [CodeLengths.Begins, and_iff_right coded, word]
  constructor
  · intro same
    rw [← same, Nat.add_mul_mod_self_left, Nat.mod_eq_of_lt below,
      Nat.add_mul_div_left _ _ positive, Nat.div_eq_of_lt below, Nat.zero_add]
    exact ⟨rfl, rfl⟩
  · rintro ⟨low, high⟩
    rw [low, high, Nat.mod_add_div]

/-- A long code takes the places of its second table whose number begins with its rest. -/
theorem Filled.long_step
    (filled : Filled alphabet quickBits sizes symbol filling prefixes)
    (layout : Layout alphabet quickBits sizes)
    (fits : Fits alphabet quickBits)
    (coded : alphabet.IsCoded symbol)
    (longer : quickBits < alphabet.length symbol) :
    ∃ filling' prefixes',
      fillSymbol sizes symbol (alphabet.length symbol) filling = some filling' ∧
      Filled alphabet quickBits sizes (symbol + 1) filling' prefixes' := by
  have positive : 0 < alphabet.length symbol := coded.positive
  have fewer : quickBits < alphabet.maxLength :=
    Nat.lt_of_lt_of_le longer (length_le_maxLength coded)
  have huff : (symbol <<< 4 + alphabet.length symbol) % 65536 = alphabet.huff symbol := by
    have below := (huff_lt coded).2
    unfold CodeLengths.huff at below ⊢
    rw [Nat.shiftLeft_eq]
    omega
  obtain ⟨index, filling', prefixes, this, pointed, sameCodes, filled'⟩ :=
    filled.thisLongTable layout fewer fits coded longer
  obtain ⟨indexLt, -⟩ := List.getElem?_eq_some_iff.mp pointed
  have room := filled'.table_room layout fewer fits filled'.distinct filled'.pointed indexLt
  have below := Nat.mod_lt (alphabet.reversed symbol) (Nat.two_pow_pos quickBits)
  have restLt : alphabet.reversed symbol / 2 ^ quickBits <
      2 ^ (alphabet.length symbol - quickBits) := by
    rw [Nat.div_lt_iff_lt_mul (Nat.two_pow_pos _), ← Nat.pow_add, Nat.sub_add_cancel
      (Nat.le_of_lt longer)]
    exact reversed_lt symbol
  obtain ⟨entries, put, size, places⟩ := putStride_spec
    (2 ^ quickBits + index * sizes.longTableLength) sizes.longTableLength
    (alphabet.huff symbol) (Nat.two_pow_pos (alphabet.length symbol - quickBits))
    sizes.longTableLength (alphabet.reversed symbol / 2 ^ quickBits) filling'.entries room.2
    (Nat.le_add_left _ _)
  have struck := struck_start (2 ^ quickBits + index * sizes.longTableLength)
    sizes.longTableLength restLt
  have tables := Nat.mul_le_mul_right sizes.longTableLength indexLt
  rw [Nat.succ_mul] at tables
  refine ⟨{ filling' with
    entries
    codes := filling.codes.set (alphabet.length symbol)
      (filling.codes.getD (alphabet.length symbol) 0 + 1 <<< (maxBits - alphabet.length symbol)) },
    prefixes, ?_, ?_⟩
  · unfold fillSymbol
    dsimp only
    rw [if_neg (by omega), layout.quick, if_neg (by omega), Nat.one_shiftLeft, Nat.one_shiftLeft,
      Nat.and_two_pow_sub_one_eq_mod, Nat.shiftRight_eq_div_pow, huff, filled.code_eq coded,
      reverse15Bits_firstWord coded, this]
    dsimp only [Option.bind_eq_bind, Option.bind_some]
    rw [put]
    rfl
  · exact {
      size := size.trans filled'.size
      codesSize := (List.length_set ..).trans filled.codesSize
      codes := fun bits positive atMost => filled.codes_set coded positive atMost
      next := filled'.next
      distinct := filled'.distinct
      pointed := filled'.pointed
      complete := fun other earlier coded' longer' => by
        rcases Nat.lt_succ_iff_lt_or_eq.mp earlier with before | rfl
        · exact filled'.complete other before coded' longer'
        · exact List.mem_of_getElem? pointed
      main := fun bits bitsLt => by
        obtain ⟨huff, found, entry⟩ := filled'.main bits bitsLt
        refine ⟨huff, ((places bits).2 fun hit => ?_).trans found, entry.skip fun atMost => ?_⟩
        · have := ((struck bits).mp hit).1
          omega
        · omega
      long := fun index' bits found j inside => by
        have bitsLt : bits < 2 ^ quickBits := by
          obtain ⟨other, -, -, rfl⟩ := filled'.pointed bits (List.mem_of_getElem? found)
          exact Nat.mod_lt _ (Nat.two_pow_pos quickBits)
        by_cases begins : alphabet.Begins (bits + 2 ^ quickBits * j) symbol
        · obtain ⟨low, rest⟩ := (begins_rest coded longer bitsLt).mp begins
          obtain rfl : index' = index :=
            (List.getElem?_inj (List.getElem?_eq_some_iff.mp found).1 filled'.distinct).mp
              (found.trans (low ▸ pointed.symm))
          refine ⟨alphabet.huff symbol, (places _).1 ((struck _).mpr ?_),
            .coded symbol (Nat.lt_succ_self _) begins longer⟩
          exact ⟨Nat.le_add_right _ _, by omega, by rw [Nat.add_sub_cancel_left]; exact rest⟩
        · obtain ⟨huff, found', entry⟩ := filled'.long index' bits found j inside
          refine ⟨huff, ((places _).2 fun hit => ?_).trans found', entry.skip fun _ => begins⟩
          obtain ⟨above, under, rest⟩ := (struck _).mp hit
          rcases Nat.lt_trichotomy index' index with before | rfl | behind
          · have tables := Nat.mul_le_mul_right sizes.longTableLength before
            rw [Nat.succ_mul] at tables
            omega
          · rw [Nat.add_sub_cancel_left] at rest
            have low := Option.some.inj (found.symm.trans pointed)
            exact begins ((begins_rest coded longer bitsLt).mpr ⟨low, rest⟩)
          · have tables := Nat.mul_le_mul_right sizes.longTableLength behind
            rw [Nat.succ_mul] at tables
            omega
      unused := fun place above inside => by
        have next := filled'.next
        refine ((places place).2 fun hit => ?_).trans
          (filled'.unused place above (Nat.lt_of_lt_of_eq inside size))
        have := ((struck place).mp hit).2.1
        dsimp only at above
        omega }

/-! ## All symbols -/

theorem Filled.step
    (filled : Filled alphabet quickBits sizes symbol filling prefixes)
    (layout : Layout alphabet quickBits sizes)
    (fits : Fits alphabet quickBits)
    (inside : symbol < alphabet.lengths.length) :
    ∃ filling' prefixes',
      fillSymbol sizes symbol (alphabet.length symbol) filling = some filling' ∧
      Filled alphabet quickBits sizes (symbol + 1) filling' prefixes' := by
  by_cases none : alphabet.length symbol = 0
  · refine ⟨filling, prefixes, ?_, filled.skip inside none⟩
    unfold fillSymbol
    rw [if_pos none]
  · have coded : alphabet.IsCoded symbol := ⟨inside, Nat.pos_of_ne_zero none⟩
    rcases Nat.lt_or_ge quickBits (alphabet.length symbol) with longer | atMost
    · exact filled.long_step layout fits coded longer
    · obtain ⟨filling', fill, filled'⟩ := filled.short layout coded atMost
      exact ⟨filling', prefixes, fill, filled'⟩

theorem Filled.symbols
    (filled : Filled alphabet quickBits sizes symbol filling prefixes)
    (layout : Layout alphabet quickBits sizes)
    (fits : Fits alphabet quickBits)
    (codelen : List Nat)
    (inside : symbol ≤ alphabet.lengths.length)
    (left : alphabet.lengths.drop symbol = codelen) :
    ∃ filling' prefixes',
      fillSymbols sizes symbol codelen filling = some filling' ∧
      Filled alphabet quickBits sizes alphabet.lengths.length filling' prefixes' := by
  induction codelen generalizing symbol filling prefixes with
  | nil =>
      obtain rfl : symbol = alphabet.lengths.length :=
        Nat.le_antisymm inside (List.drop_eq_nil_iff.mp left)
      exact ⟨filling, prefixes, rfl, filled⟩
  | cons bits codelen induction =>
      have inside' : symbol < alphabet.lengths.length := by
        by_contra atEnd
        rw [List.drop_eq_nil_iff.mpr (Nat.not_lt.mp atEnd)] at left
        exact List.cons_ne_nil _ _ left.symm
      rw [List.drop_eq_getElem_cons inside'] at left
      obtain ⟨first, rest⟩ := List.cons.inj left
      have length : bits = alphabet.length symbol := by
        rw [← first, CodeLengths.length, List.getD_eq_getElem?_getD,
          List.getElem?_eq_getElem inside']
        rfl
      obtain ⟨filling', prefixes', fill, filled'⟩ := filled.step layout fits inside'
      obtain ⟨filling'', prefixes'', fills, filled''⟩ := induction filled' inside' rest
      refine ⟨filling'', prefixes'', ?_, filled''⟩
      rw [fillSymbols, length, fill]
      exact fills

/-- The tables are empty at first. -/
theorem filled_start
    {codes : List Nat}
    (layout : Layout alphabet quickBits sizes)
    (codesSize : codes.length = 16)
    (first : ∀ bits, 0 < bits → bits ≤ alphabet.maxLength →
      codes.getD bits 0 = space alphabet.lengths (bits - 1)) :
    Filled alphabet quickBits sizes 0
      ⟨List.replicate (sizes.mainTableLength + sizes.numLongTables * sizes.longTableLength) 0,
        codes, sizes.mainTableLength⟩ [] := by
  have zero : ∀ place < sizes.mainTableLength + sizes.numLongTables * sizes.longTableLength,
      (List.replicate (sizes.mainTableLength +
        sizes.numLongTables * sizes.longTableLength) 0)[place]? = some 0 :=
    fun place inside => by rw [List.getElem?_replicate, if_pos inside]
  exact {
    size := by rw [List.length_replicate, layout.main]
    codesSize := codesSize
    codes := fun bits positive atMost => by
      rw [first bits positive atMost]
      simp
    next := by simp [layout.main]
    distinct := List.nodup_nil
    pointed := fun bits member => absurd member List.not_mem_nil
    complete := fun symbol earlier => absurd earlier (Nat.not_lt_zero symbol)
    main := fun bits below => by
      rw [← layout.main] at below
      exact ⟨0, zero bits (by omega), .none List.not_mem_nil
        fun symbol earlier => absurd earlier (Nat.not_lt_zero symbol)⟩
    long := fun index bits found => by simp at found
    unused := fun place above inside => zero place (by simpa using inside) }

/-- The sizes for quick bits, when the first code of each length is the one behind the shorter
ones. -/
theorem sizes_layout
    {codes : List Nat}
    (maxQuickBits : Nat)
    (first : ∀ bits, 0 < bits → bits ≤ alphabet.maxLength →
      codes.getD bits 0 = space alphabet.lengths (bits - 1)) :
    Layout alphabet (min alphabet.maxLength maxQuickBits)
      (Inflate.sizes codes alphabet.maxLength maxQuickBits) := by
  have maxLe : alphabet.maxLength ≤ 15 := maxLength_le
  unfold Inflate.sizes
  split
  · rename_i enough
    rw [Nat.min_eq_left enough]
    exact ⟨rfl, Nat.one_shiftLeft _, fun fewer => absurd fewer (Nat.lt_irrefl _)⟩
  · rename_i fewer
    rw [Nat.min_eq_right (by omega)]
    refine ⟨rfl, Nat.one_shiftLeft _, fun _ => ⟨Nat.one_shiftLeft _, ?_⟩⟩
    have bound := space_le alphabet maxQuickBits (by omega)
    dsimp only
    rw [first _ (Nat.succ_pos _) (by omega), Nat.succ_sub_one, Nat.one_shiftLeft,
      Nat.shiftRight_eq_div_pow]
    unfold maxBits
    rw [Nat.div_mul_cancel (Nat.dvd_sub (Nat.pow_dvd_pow 2 (by omega))
      (space_dvd _ (by omega)))]
    omega

/-- The table that `fillTable` makes, and what it holds. -/
theorem fillTable_filled
    {codes : List Nat}
    {maxQuickBits : Nat}
    (fits : Fits alphabet (min alphabet.maxLength maxQuickBits))
    (codesSize : codes.length = 16)
    (first : ∀ bits, 0 < bits → bits ≤ alphabet.maxLength →
      codes.getD bits 0 = space alphabet.lengths (bits - 1)) :
    ∃ table filling prefixes,
      fillTable codes alphabet.maxLength maxQuickBits alphabet.lengths = some table ∧
      table = ⟨min alphabet.maxLength maxQuickBits, alphabet.maxLength, filling.entries⟩ ∧
      Layout alphabet (min alphabet.maxLength maxQuickBits)
        (Inflate.sizes codes alphabet.maxLength maxQuickBits) ∧
      Filled alphabet (min alphabet.maxLength maxQuickBits)
        (Inflate.sizes codes alphabet.maxLength maxQuickBits) alphabet.lengths.length filling
        prefixes := by
  have layout := sizes_layout maxQuickBits first
  obtain ⟨filling, prefixes, fills, filled⟩ :=
    (filled_start layout codesSize first).symbols layout fits alphabet.lengths (Nat.zero_le _)
      List.drop_zero
  refine ⟨_, filling, prefixes, ?_, rfl, layout, filled⟩
  unfold fillTable
  dsimp only
  rw [fills, ← layout.quick]
  rfl

end Alphabet

end PicoJvm.Inflate
