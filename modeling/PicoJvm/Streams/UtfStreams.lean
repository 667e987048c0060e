import PicoJvm.Lib.Attempt
import PicoJvm.Streams.Numbers

/-!
# Strings in data streams

The bytes that `writeUTF` writes, and which bytes `readUTF` takes for a string.
-/

namespace PicoJvm.Streams

open PicoJvm.Lib.CharacterForms PicoJvm.Lib.Attempt

/-! ## Writing -/

/-- The cases of `writeUTF` are the forms of characters. -/
theorem encodeChar_cases (c : JavaChar) :
    (0x0001 ≤ c.toNat ∧ c.toNat ≤ 0x007F ∧ encodeChar c = [BitVec.ofNat 8 c.toNat]) ∨
    (¬ (0x0001 ≤ c.toNat ∧ c.toNat ≤ 0x007F) ∧ 0x07FF < c.toNat ∧
      encodeChar c = [BitVec.ofNat 8 (224 + c.toNat / 4096),
        BitVec.ofNat 8 (128 + c.toNat / 64 % 64), BitVec.ofNat 8 (128 + c.toNat % 64)]) ∨
    (¬ (0x0001 ≤ c.toNat ∧ c.toNat ≤ 0x007F) ∧ ¬ 0x07FF < c.toNat ∧
      encodeChar c = [BitVec.ofNat 8 (192 + c.toNat / 64),
        BitVec.ofNat 8 (128 + c.toNat % 64)]) := by
  rw [encodeChar]
  by_cases ascii : 1 ≤ c.toNat ∧ c.toNat < 128
  · exact .inl ⟨by omega, by omega, if_pos ascii⟩
  · rw [if_neg ascii]
    by_cases short : c.toNat < 2048
    · exact .inr (.inr ⟨by omega, by omega, if_pos short⟩)
    · exact .inr (.inl ⟨by omega, by omega, if_neg short⟩)

/-- The bytes of a character are counted as they are stored. -/
theorem countUtf_eq (utflen : Nat) (charr : List JavaChar) :
    countUtf utflen charr = utflen + (encode charr).length := by
  induction charr generalizing utflen with
  | nil =>
      rfl
  | cons c charr inductionHypothesis =>
      have more : (encode (c :: charr)).length = (encodeChar c).length + (encode charr).length := by
        rw [encode, List.flatMap_cons, List.length_append, encode]
      rw [countUtf, more]
      rcases encodeChar_cases c with ⟨low, high, bytes⟩ | ⟨notAscii, long, bytes⟩ |
        ⟨notAscii, short, bytes⟩
      · rw [if_pos ⟨low, high⟩, inductionHypothesis, bytes, Nat.add_assoc]
        rfl
      · rw [if_neg notAscii, if_pos long, inductionHypothesis, bytes, Nat.add_assoc]
        rfl
      · rw [if_neg notAscii, if_neg short, inductionHypothesis, bytes, Nat.add_assoc]
        rfl

/-- An array of which the bytes up to the place are stored. -/
def filled (done : List Byte) (room : Nat) : List Byte × Nat :=
  (done ++ List.replicate room 0, done.length)

theorem store_filled (done : List Byte) (room : Nat) (b : Byte) :
    store b (filled done (room + 1)) = .ok (⟨⟩, filled (done ++ [b]) room) := by
  have inside : done.length < (done ++ List.replicate (room + 1) (0 : Byte)).length := by
    rw [List.length_append, List.length_replicate]
    omega
  rw [store, filled, if_pos inside, filled, List.length_append, List.length_singleton,
    List.replicate_succ, List.set_append_right _ _ (Nat.le_refl _), Nat.sub_self,
    List.set_cons_zero, List.append_assoc, List.singleton_append]

theorem store_bind
    {rest : StateT (List Byte × Nat) (Except Thrown) Unit}
    {done : List Byte} {room : Nat} {b : Byte} :
    (store b >>= fun _ => rest) (filled done (room + 1)) = rest (filled (done ++ [b]) room) := by
  simp only [Bind.bind, StateT.bind, store_filled, Except.bind]

theorem toNat_wide (char : JavaChar) : (char.setWidth 32).toNat = char.toNat := by
  have small := char.isLt
  rw [BitVec.toNat_setWidth, Nat.mod_eq_of_lt (by omega)]

/-- Some bits of a character. -/
theorem toNat_charBits
    (char : JavaChar) {mask : BitVec 32} (shift width : Nat)
    (isMask : mask.toNat = 2 ^ width - 1) :
    ((char.setWidth 32 >>> shift) &&& mask).toNat = char.toNat / 2 ^ shift % 2 ^ width := by
  rw [BitVec.toNat_and, BitVec.toNat_ushiftRight, Nat.shiftRight_eq_div_pow, isMask,
    Nat.and_two_pow_sub_one_eq_mod, toNat_wide]

/-- A byte of leading bits and bits behind them. -/
theorem markedByte_eq
    {mark bits : BitVec 32} {value : Nat} (lead width : Nat)
    (isMark : mark.toNat = 2 ^ width * lead)
    (isValue : bits.toNat = value)
    (small : value < 2 ^ width) :
    (mark ||| bits).setWidth 8 = BitVec.ofNat 8 (mark.toNat + value) := by
  apply BitVec.eq_of_toNat_eq
  rw [BitVec.toNat_setWidth, BitVec.toNat_or, BitVec.toNat_ofNat, isMark, isValue,
    Nat.two_pow_add_eq_or_of_lt small]

/-- The bytes that are stored of a character. -/
theorem storeUtf_cons
    {char : JavaChar} {charr : List JavaChar} {done : List Byte} {room : Nat} :
    storeUtf (char :: charr) (filled done (room + (encodeChar char).length)) =
      storeUtf charr (filled (done ++ encodeChar char) room) := by
  have tail (shift : Nat) :
      (0x80#32 ||| ((char.setWidth 32 >>> shift) &&& 0x3F#32)).setWidth 8 =
        BitVec.ofNat 8 (128 + char.toNat / 2 ^ shift % 64) :=
    markedByte_eq 2 6 rfl (toNat_charBits char shift 6 rfl) (Nat.mod_lt _ (by decide))
  have last := tail 0
  rw [Nat.pow_zero, Nat.div_one] at last
  rw [storeUtf]
  simp only [toNat_wide]
  rcases encodeChar_cases char with ⟨low, high, bytes⟩ | ⟨notAscii, long, bytes⟩ |
    ⟨notAscii, short, bytes⟩
  · have only : (char.setWidth 32).setWidth 8 = BitVec.ofNat 8 char.toNat := by
      apply BitVec.eq_of_toNat_eq
      rw [BitVec.toNat_setWidth, toNat_wide, BitVec.toNat_ofNat]
    rw [if_pos ⟨low, high⟩, bytes, List.length_singleton, store_bind, only]
  · have lead : (0xE0#32 ||| ((char.setWidth 32 >>> 12) &&& 0x0F#32)).setWidth 8 =
        BitVec.ofNat 8 (224 + char.toNat / 4096) :=
      markedByte_eq 14 4 rfl (by rw [toNat_charBits char 12 4 rfl]; omega) (by omega)
    have places : room + [BitVec.ofNat 8 (224 + char.toNat / 4096),
        BitVec.ofNat 8 (128 + char.toNat / 64 % 64),
        BitVec.ofNat 8 (128 + char.toNat % 64)].length = room + 1 + 1 + 1 := rfl
    rw [if_neg notAscii, if_pos long, bytes, places, store_bind, store_bind, store_bind,
      lead, tail 6, last, List.append_assoc, List.append_assoc]
    rfl
  · have lead : (0xC0#32 ||| ((char.setWidth 32 >>> 6) &&& 0x1F#32)).setWidth 8 =
        BitVec.ofNat 8 (192 + char.toNat / 64) :=
      markedByte_eq 3 6 rfl (by rw [toNat_charBits char 6 5 rfl]; omega) (by omega)
    have places : room + [BitVec.ofNat 8 (192 + char.toNat / 64),
        BitVec.ofNat 8 (128 + char.toNat % 64)].length = room + 1 + 1 := rfl
    rw [if_neg notAscii, if_neg short, bytes, places, store_bind, store_bind, lead, last,
      List.append_assoc]
    rfl

/-- All characters are stored, when there is room for them. -/
theorem storeUtf_filled (charr : List JavaChar) (done : List Byte) (room : Nat) :
    storeUtf charr (filled done (room + (encode charr).length)) =
      .ok (⟨⟩, filled (done ++ encode charr) room) := by
  induction charr generalizing done room with
  | nil =>
      rw [encode, List.flatMap_nil, List.append_nil]
      rfl
  | cons char charr inductionHypothesis =>
      have more : encode (char :: charr) = encodeChar char ++ encode charr := List.flatMap_cons
      rw [more, List.length_append, Nat.add_comm (encodeChar char).length, ← Nat.add_assoc,
        storeUtf_cons, inductionHypothesis, List.append_assoc]

/-- The bytes of a string, with their number before them. -/
def utfEncoding (chars : List JavaChar) : List Byte :=
  [BitVec.ofNat 8 ((encode chars).length / 256), BitVec.ofNat 8 (encode chars).length] ++
    encode chars

/-- The array has room for the bytes of the string, and no more. -/
theorem utfBytes_eq
    {str : JavaText}
    (short : (encode str.chars).length ≤ 65535) :
    utfBytes str (encode str.chars).length = .ok (utfEncoding str.chars) := by
  have high := shiftedByte_eq (BitVec.ofNat 32 (encode str.chars).length) 8
  have low := shiftedByte_eq (BitVec.ofNat 32 (encode str.chars).length) 0
  rw [BitVec.toNat_ofNat, Nat.mod_eq_of_lt (by omega)] at high low
  rw [Nat.pow_zero, Nat.div_one] at low
  have places : (List.replicate ((encode str.chars).length + 2) (0 : Byte), 0) =
      filled [] (0 + (encode str.chars).length + 1 + 1) := by
    rw [Nat.zero_add]
    rfl
  rw [utfBytes, places]
  simp only [StateT.run]
  rw [store_bind, store_bind, high, low, storeUtf_filled]
  simp only [filled, List.replicate_zero, List.append_nil]
  rfl

/-- `writeUTF` writes the bytes of the string if they are not too many, and fails otherwise. -/
theorem writeUTF_eq (str : JavaText) (sink : List Byte) :
    (writeUTF str).run sink =
      if (encode str.chars).length ≤ 65535 then
        .ok ((encode str.chars).length + 2) (sink ++ utfEncoding str.chars)
      else
        .error .utfDataFormat sink := by
  have counted := countUtf_eq 0 str.chars
  rw [Nat.zero_add] at counted
  by_cases short : (encode str.chars).length ≤ 65535
  · rw [if_pos short]
    unfold writeUTF
    simp only [counted]
    rw [if_neg (by omega), utfBytes_eq short]
    rfl
  · rw [if_neg short]
    unfold writeUTF
    simp only [counted]
    rw [if_pos (by omega)]
    rfl

/-! ## Reading -/

/-- `readFully` takes as many bytes as it is told, however the stream gives them. -/
theorem readFullyFrom_ensures
    {len fuel : Nat} {b : List Byte} {source : Source}
    (within : b.length ≤ len)
    (enough : len - b.length < fuel) :
    Ensures (readFullyFrom len fuel b) source
      (fun bytearr after => bytearr.length = len ∧
        ∃ more, source = ⟨more ++ after.bytes, after.grant⟩ ∧ bytearr = b ++ more)
      (fun thrown after => thrown = .eof ∧ after = ⟨[], source.grant⟩ ∧
        b.length + source.bytes.length < len) := by
  induction fuel generalizing b source with
  | zero =>
      omega
  | succ fuel inductionHypothesis =>
      refine Ensures.ite ?_ ?_
      · intro missing
        refine Ensures.bind (Ensures.bind (Ensures.get (Ensures.ite ?_ ?_)))
        · intro noBytes
          refine Ensures.pure (Ensures.throw ⟨rfl, ?_, ?_⟩)
          · rw [← noBytes]
          · rw [noBytes]
            exact missing
        · intro someBytes
          have bytesLength := List.length_pos_iff.mpr someBytes
          generalize given : source.given (len - b.length) = count
          have countPos : 0 < count ∧ count ≤ len - b.length ∧ count ≤ source.bytes.length := by
            rw [← given, Source.given]
            omega
          refine Ensures.bind (Ensures.set (Ensures.pure ?_))
          have takeLength : (source.bytes.take count).length = count := by
            rw [List.length_take]
            omega
          refine (inductionHypothesis ?_ ?_).mono ?_ ?_
          · rw [List.length_append]
            omega
          · rw [List.length_append]
            omega
          · intro bytearr after read
            obtain ⟨isLength, more, left, isMore⟩ := read
            have bytes : source.bytes.drop count = more ++ after.bytes := (Source.mk.inj left).1
            have grant : source.grant = after.grant := (Source.mk.inj left).2
            refine ⟨isLength, source.bytes.take count ++ more, ?_, ?_⟩
            · rw [List.append_assoc, ← bytes, List.take_append_drop, ← grant]
            · rw [isMore, List.append_assoc]
          · intro thrown after failed
            refine ⟨failed.1, failed.2.1, ?_⟩
            have short := failed.2.2
            rw [List.length_append, List.length_drop] at short
            omega
      · intro full
        exact Ensures.pure ⟨by omega, [], rfl, (List.append_nil b).symm⟩

/-- What the masks and the shift leave of each byte. -/
theorem bits_of_byte : ∀ b : Byte,
    (b.signExtend 32 &&& 0xFF#32 = b.setWidth 32 ∧
      (b.signExtend 32 &&& 0xC0#32 = 0x80#32 ↔ IsTail b) ∧
      (b.signExtend 32 &&& 0x3F#32).toNat = b.toNat % 64) ∧
    ((b.setWidth 32).sshiftRight 4).toNat = b.toNat / 16 ∧
    (b.setWidth 32 &&& 0x1F#32).toNat = b.toNat % 32 ∧
    (b.setWidth 32 &&& 0x0F#32).toNat = b.toNat % 16 := by
  decide +kernel

theorem int_of_byte (b : Byte) : b.signExtend 32 &&& 0xFF#32 = b.setWidth 32 :=
  (bits_of_byte b).1.1

theorem isTail_iff (b : Byte) : b.signExtend 32 &&& 0xC0#32 = 0x80#32 ↔ IsTail b :=
  (bits_of_byte b).1.2.1

theorem tailBits (b : Byte) : (b.signExtend 32 &&& 0x3F#32).toNat = b.toNat % 64 :=
  (bits_of_byte b).1.2.2

theorem charBits (b : Byte) : ((b.setWidth 32).sshiftRight 4).toNat = b.toNat / 16 ∧
    (b.setWidth 32 &&& 0x1F#32).toNat = b.toNat % 32 ∧
    (b.setWidth 32 &&& 0x0F#32).toNat = b.toNat % 16 :=
  (bits_of_byte b).2

/-- Bits that are not shifted out. -/
theorem toNat_shifted
    {bits : BitVec 32} {value : Nat} (shift : Nat)
    (isValue : bits.toNat = value)
    (small : value <<< shift < 2 ^ 32) :
    (bits <<< shift).toNat = value <<< shift := by
  rw [BitVec.toNat_shiftLeft, isValue, Nat.mod_eq_of_lt small]

/-- The character of two bytes. -/
theorem twoBytes_eq (b second : Byte) :
    (((b.setWidth 32 &&& 0x1F#32) <<< 6) ||| (second.signExtend 32 &&& 0x3F#32)).setWidth 16 =
      BitVec.ofNat 16 (b.toNat % 32 * 64 + second.toNat % 64) := by
  have joined : (b.toNat % 32) <<< 6 + second.toNat % 64 =
      (b.toNat % 32) <<< 6 ||| second.toNat % 64 :=
    Nat.shiftLeft_add_eq_or_of_lt (Nat.mod_lt _ (by decide)) _
  have high := toNat_shifted 6 (charBits b).2.1 (by rw [Nat.shiftLeft_eq]; omega)
  apply BitVec.eq_of_toNat_eq
  rw [BitVec.toNat_setWidth, BitVec.toNat_or, high, tailBits, ← joined, Nat.shiftLeft_eq,
    BitVec.toNat_ofNat]

/-- The character of three bytes. -/
theorem threeBytes_eq (b second third : Byte) :
    (((b.setWidth 32 &&& 0x0F#32) <<< 12) ||| ((second.signExtend 32 &&& 0x3F#32) <<< 6) |||
      ((third.signExtend 32 &&& 0x3F#32) <<< 0)).setWidth 16 =
      BitVec.ofNat 16 ((b.toNat % 16 * 64 + second.toNat % 64) * 64 + third.toNat % 64) := by
  have upper : (b.toNat % 16) <<< 12 + (second.toNat % 64) <<< 6 =
      (b.toNat % 16) <<< 12 ||| (second.toNat % 64) <<< 6 :=
    Nat.shiftLeft_add_eq_or_of_lt (by rw [Nat.shiftLeft_eq]; omega) _
  have lower : (b.toNat % 16 * 64 + second.toNat % 64) <<< 6 + third.toNat % 64 =
      (b.toNat % 16 * 64 + second.toNat % 64) <<< 6 ||| third.toNat % 64 :=
    Nat.shiftLeft_add_eq_or_of_lt (Nat.mod_lt _ (by decide)) _
  have same : (b.toNat % 16 * 64 + second.toNat % 64) <<< 6 =
      (b.toNat % 16) <<< 12 + (second.toNat % 64) <<< 6 := by
    simp only [Nat.shiftLeft_eq]
    omega
  have first := toNat_shifted 12 (charBits b).2.2 (by rw [Nat.shiftLeft_eq]; omega)
  have next := toNat_shifted 6 (tailBits second) (by rw [Nat.shiftLeft_eq]; omega)
  apply BitVec.eq_of_toNat_eq
  rw [BitVec.shiftLeft_zero, BitVec.toNat_setWidth, BitVec.toNat_or, BitVec.toNat_or, first, next,
    tailBits, ← upper, ← same, ← lower, Nat.shiftLeft_eq, BitVec.toNat_ofNat]

/-- Reads a byte inside the array. -/
theorem byteAt_append
    {before : List Byte} {b : Byte} {after : List Byte} {index : Nat}
    (isIndex : index = before.length) :
    byteAt (before ++ b :: after) index = .ok (b.signExtend 32) := by
  have found : (before ++ b :: after)[index]? = some b := by
    rw [isIndex, List.getElem?_append_right (Nat.le_refl _), Nat.sub_self, List.getElem?_cons_zero]
  rw [byteAt, found]

theorem appendTo_ok
    {utflen : Nat} {str : List JavaChar} (c : BitVec 32)
    (room : str.length < utflen) :
    appendTo utflen str c = .ok (str ++ [c.setWidth 16]) :=
  if_pos room

/-- What the loop of `readUTF` makes of the bytes that are left. -/
def Decodes (bytes : List Byte) (str : List JavaChar) (result : Except Thrown (List JavaChar)) :
    Prop :=
  match result with
  | .ok decoded => ∃ chars, Encodes bytes chars ∧ decoded = str ++ chars
  | .error thrown => thrown = .utfDataFormat ∧ ¬ WellFormed bytes

/-- A character that was read. -/
theorem Decodes.cons
    {bytes rest : List Byte} {char : JavaChar} {str : List JavaChar}
    {result : Except Thrown (List JavaChar)}
    (decodes : Decodes rest (str ++ [char]) result)
    (forms : ∀ chars, Encodes bytes chars ↔
      ∃ chars', Encodes rest chars' ∧ chars = char :: chars') :
    Decodes bytes str result := by
  cases result with
  | ok decoded =>
      obtain ⟨chars, encodes, isDecoded⟩ := decodes
      refine ⟨char :: chars, (forms _).mpr ⟨chars, encodes, rfl⟩, ?_⟩
      rw [isDecoded, List.append_assoc, List.singleton_append]
  | error thrown =>
      obtain ⟨isFormat, notFormed⟩ := decodes
      refine ⟨isFormat, fun formed => ?_⟩
      obtain ⟨chars, encodes⟩ := formed
      obtain ⟨chars', encodes', -⟩ := (forms chars).mp encodes
      exact notFormed ⟨chars', encodes'⟩

theorem byteAt_second (done : List Byte) (b second : Byte) (rest : List Byte) :
    byteAt (done ++ b :: second :: rest) (done.length + 2 - 1) = .ok (second.signExtend 32) := by
  have split : done ++ b :: second :: rest = (done ++ [b]) ++ second :: rest := by
    rw [List.append_assoc, List.singleton_append]
  rw [split]
  exact byteAt_append (by rw [List.length_append, List.length_singleton]; omega)

theorem byteAt_third (done : List Byte) (b second third : Byte) (rest : List Byte) :
    byteAt (done ++ b :: second :: third :: rest) (done.length + 3 - 1) =
      .ok (third.signExtend 32) := by
  have split : done ++ b :: second :: third :: rest = (done ++ [b]) ++ second :: third :: rest := by
    rw [List.append_assoc, List.singleton_append]
  have index : done.length + 3 - 1 = (done ++ [b]).length + 2 - 1 := by
    rw [List.length_append, List.length_singleton]
  rw [split, index]
  exact byteAt_second _ _ _ _

/-- The loop of `readUTF` finds the characters of the bytes that are left, if there are any. -/
theorem decodeFrom_decodes
    {done bytes : List Byte} {str : List JavaChar} {fuel : Nat}
    (room : str.length ≤ done.length)
    (enough : bytes.length < fuel) :
    Decodes bytes str
      (decodeFrom (done ++ bytes) (done.length + bytes.length) fuel done.length str) := by
  induction fuel generalizing done bytes str with
  | zero =>
      omega
  | succ fuel inductionHypothesis =>
      cases bytes with
      | nil =>
          rw [decodeFrom, if_neg (by simp)]
          exact ⟨[], .nil, (List.append_nil str).symm⟩
      | cons b rest =>
          have onward (part rest' : List Byte) (char : JavaChar)
              (split : b :: rest = part ++ rest') (some : 0 < part.length) :
              Decodes rest' (str ++ [char])
                (decodeFrom (done ++ b :: rest) (done.length + (b :: rest).length) fuel
                  (done.length + part.length) (str ++ [char])) := by
            have longer : (str ++ [char]).length ≤ (done ++ part).length := by
              rw [List.length_append, List.length_append, List.length_singleton]
              omega
            have lengths := congrArg List.length split
            rw [List.length_append] at lengths
            have step := @inductionHypothesis (done ++ part) rest' (str ++ [char]) longer (by omega)
            rwa [List.append_assoc, ← split, List.length_append, Nat.add_assoc, ← lengths] at step
          have small := b.isLt
          have strRoom : str.length < done.length + (b :: rest).length := by
            rw [List.length_cons]
            omega
          rw [decodeFrom, if_pos (by simp), byteAt_append rfl]
          simp only [bind, Except.bind, int_of_byte, (charBits b).1]
          by_cases one : b.toNat / 16 ≤ 7
          · have value : (b.setWidth 32).setWidth 16 = BitVec.ofNat 16 b.toNat := by
              apply BitVec.eq_of_toNat_eq
              rw [BitVec.toNat_setWidth, BitVec.toNat_setWidth, BitVec.toNat_ofNat]
              omega
            rw [if_pos one, appendTo_ok _ strRoom]
            simp only [value]
            exact (onward [b] rest _ rfl Nat.one_pos).cons fun _ => encodes_one_iff (by omega)
          · rw [if_neg one]
            by_cases two : b.toNat / 16 = 12 ∨ b.toNat / 16 = 13
            · rw [if_pos two]
              cases rest with
              | nil =>
                  rw [if_pos (by simp)]
                  exact ⟨rfl, not_wellFormed_two (by omega) nofun⟩
              | cons second rest =>
                  rw [if_neg (by simp), byteAt_second]
                  by_cases tail : IsTail second
                  · simp only [(isTail_iff second).mpr tail, ne_eq, not_true_eq_false, if_false,
                      appendTo_ok _ strRoom, twoBytes_eq]
                    exact (onward [b, second] rest _ rfl Nat.two_pos).cons fun _ =>
                      encodes_two_iff (by omega) tail
                  · simp only [mt (isTail_iff second).mp tail, ne_eq, not_false_eq_true, if_true]
                    refine ⟨rfl, not_wellFormed_two (by omega) fun second' isSecond => ?_⟩
                    cases isSecond
                    exact tail
            · rw [if_neg two]
              by_cases three : b.toNat / 16 = 14
              · rw [if_pos three]
                cases rest with
                | nil =>
                    rw [if_pos (by simp)]
                    exact ⟨rfl, not_wellFormed_three three nofun⟩
                | cons second rest =>
                    cases rest with
                    | nil =>
                        rw [if_pos (by simp)]
                        exact ⟨rfl, not_wellFormed_three three nofun⟩
                    | cons third rest =>
                        have index : done.length + 3 - 2 = done.length + 2 - 1 := by
                          omega
                        rw [if_neg (by simp), index, byteAt_second, byteAt_third]
                        by_cases tails : IsTail second ∧ IsTail third
                        · simp only [(isTail_iff second).mpr tails.1,
                            (isTail_iff third).mpr tails.2, ne_eq, not_true_eq_false, or_self,
                            if_false, appendTo_ok _ strRoom, threeBytes_eq]
                          refine (onward [b, second, third] rest _ rfl (Nat.succ_pos 2)).cons ?_
                          exact fun _ => encodes_three_iff three tails.1 tails.2
                        · have test : second.signExtend 32 &&& 0xC0#32 ≠ 0x80#32 ∨
                              third.signExtend 32 &&& 0xC0#32 ≠ 0x80#32 := by
                            rw [ne_eq, ne_eq, isTail_iff, isTail_iff]
                            exact not_and_or.mp tails
                          simp only [if_pos test]
                          refine ⟨rfl, not_wellFormed_three three ?_⟩
                          intro second' third' rest' split
                          cases split
                          exact tails
              · rw [if_neg three]
                exact ⟨rfl, not_wellFormed_other (by omega) (by omega) three⟩

/-- The number of bytes that two bytes announce. -/
def announced (high low : Byte) : Nat :=
  high.toNat * 256 + low.toNat

theorem announced_lt (high low : Byte) : announced high low < 65536 := by
  have highSmall := high.isLt
  have lowSmall := low.isLt
  rw [announced]
  omega

/-- A number of two bytes is read, or the stream is at its end. -/
theorem readUnsignedShort_ensures (source : Source) :
    Ensures readUnsignedShort source
      (fun value after => ∃ high low, value.toNat = announced high low ∧
        source = ⟨high :: low :: after.bytes, after.grant⟩)
      (fun thrown after =>
        thrown = .eof ∧ after = ⟨[], source.grant⟩ ∧ source.bytes.length < 2) := by
  obtain ⟨bytes, grant⟩ := source
  cases bytes with
  | nil =>
      exact ⟨rfl, rfl, Nat.two_pos⟩
  | cons high rest =>
      cases rest with
      | nil =>
          have test : (high.setWidth 32 ||| -1#32).slt 0#32 = true := by
            rw [BitVec.slt_zero_eq_msb, BitVec.msb_or]
            exact Bool.or_true _
          have reduced : readUnsignedShort.run ⟨[high], grant⟩ =
              (if (high.setWidth 32 ||| -1#32).slt 0#32 = true then (throw .eof : Input (BitVec 32))
                else return (high.setWidth 32 <<< 8) + (-1#32 <<< 0)).run ⟨[], grant⟩ := rfl
          rw [test, if_pos rfl] at reduced
          exact Ensures.of_run_error reduced ⟨rfl, rfl, Nat.one_lt_two⟩
      | cons low rest =>
          have ran := readUnsignedShort_reads high low rest grant
          unfold Ensures
          rw [List.cons_append, List.cons_append, List.nil_append] at ran
          rw [ran]
          have small := announced_lt high low
          refine ⟨high, low, ?_, rfl⟩
          rw [BitVec.toNat_ofNat, ← announced, Nat.mod_eq_of_lt (by omega)]

/-- What `readUTF` does with any bytes. -/
theorem readUTF_ensures (source : Source) :
    Ensures readUTF source
      (fun str after => ∃ high low bytes,
        source = ⟨high :: low :: (bytes ++ after.bytes), after.grant⟩ ∧
          bytes.length = announced high low ∧ Encodes bytes str.chars)
      (fun thrown after =>
        thrown = .eof ∧ after = ⟨[], source.grant⟩ ∧
          (∀ high low rest, source.bytes = high :: low :: rest →
            rest.length < announced high low) ∨
        thrown = .utfDataFormat ∧ ∃ high low bytes,
          source = ⟨high :: low :: (bytes ++ after.bytes), after.grant⟩ ∧
            bytes.length = announced high low ∧ ¬ WellFormed bytes) := by
  refine Ensures.bind ((readUnsignedShort_ensures source).mono ?_ ?_)
  · intro value middle read
    obtain ⟨high, low, isAnnounced, rfl⟩ := read
    refine Ensures.bind ((readFullyFrom_ensures (Nat.zero_le _) (Nat.lt_succ_self _)).mono ?_ ?_)
    · intro bytes after full
      obtain ⟨isLength, more, left, isMore⟩ := full
      rw [List.nil_append] at isMore
      have decodes := @decodeFrom_decodes [] bytes [] (value.toNat + 1) (Nat.le_refl _) (by omega)
      rw [List.nil_append, List.length_nil, Nat.zero_add, isLength] at decodes
      have split : (⟨high :: low :: middle.bytes, middle.grant⟩ : Source) =
          ⟨high :: low :: (bytes ++ after.bytes), after.grant⟩ := by
        rw [left, isMore]
      have lengthEq := isLength.trans isAnnounced
      have small := announced_lt high low
      cases decoded : decodeFrom bytes value.toNat (value.toNat + 1) 0 [] with
      | ok str =>
          rw [decoded] at decodes
          obtain ⟨chars, encodes, isChars⟩ := decodes
          have isStr : str = chars := isChars
          have short := encodes.length_le
          have fits : str.length ≤ 0x08000000 := by
            rw [isStr]
            omega
          have ofStr : Encodes bytes str := by
            rw [isStr]
            exact encodes
          simp only [newString, dif_pos fits]
          exact Ensures.pure ⟨high, low, bytes, split, lengthEq, ofStr⟩
      | error thrown =>
          rw [decoded] at decodes
          exact Ensures.throw (.inr ⟨decodes.1, high, low, bytes, split, lengthEq, decodes.2⟩)
    · intro thrown after failed
      refine .inl ⟨failed.1, failed.2.1, ?_⟩
      intro high' low' rest isBytes
      cases isBytes
      have short := failed.2.2
      rw [List.length_nil, Nat.zero_add, isAnnounced] at short
      exact short
  · intro thrown after failed
    refine .inl ⟨failed.1, failed.2.1, ?_⟩
    intro high low rest isBytes
    have short := failed.2.2
    rw [isBytes, List.length_cons, List.length_cons] at short
    omega

end PicoJvm.Streams
