import PicoJvm.Streams.DataStreams

/-!
# Numbers in data streams

What the methods write, and that they read it again, whatever comes behind it. The bytes of a number
are the digits of its value in base 256, the highest first.
-/

namespace PicoJvm.Streams

open PicoJvm.Lib.CharacterForms (Byte)

/-! ## What methods write and read -/

/-- The method writes the bytes. -/
def Writes {result : Type} (method : Output result) (bytes : List Byte) (value : result) : Prop :=
  ∀ sink, method.run sink = .ok value (sink ++ bytes)

/-- The method reads the value from the bytes, and leaves those behind them. -/
def Reads {result : Type} (method : Input result) (bytes : List Byte) (value : result) : Prop :=
  ∀ after grant, method.run ⟨bytes ++ after, grant⟩ = .ok value ⟨after, grant⟩

theorem Writes.pure
    {result : Type} (value : result) :
    Writes (Pure.pure value) [] value := by
  intro sink
  rw [List.append_nil]
  rfl

theorem Writes.bind
    {result result' : Type} {method : Output result} {next : result → Output result'}
    {bytes bytes' : List Byte} {value : result} {value' : result'}
    (first : Writes method bytes value)
    (second : Writes (next value) bytes' value') :
    Writes (method >>= next) (bytes ++ bytes') value' := by
  intro sink
  have ran := first sink
  have onward := second (sink ++ bytes)
  simp only [EStateM.run, Bind.bind, EStateM.bind] at ran onward ⊢
  rw [ran, ← List.append_assoc]
  exact onward

theorem Reads.pure
    {result : Type} (value : result) :
    Reads (Pure.pure value) [] value := by
  intro after grant
  rfl

theorem Reads.bind
    {result result' : Type} {method : Input result} {next : result → Input result'}
    {bytes bytes' : List Byte} {value : result} {value' : result'}
    (first : Reads method bytes value)
    (second : Reads (next value) bytes' value') :
    Reads (method >>= next) (bytes ++ bytes') value' := by
  intro after grant
  have ran := first (bytes' ++ after) grant
  have onward := second after grant
  simp only [EStateM.run, Bind.bind, EStateM.bind] at ran onward ⊢
  rw [List.append_assoc, ran]
  exact onward

/-- The end of a method, which reads no more. -/
theorem Reads.last
    {result result' : Type} {method : Input result} {next : result → Input result'}
    {bytes : List Byte} {value : result} {value' : result'}
    (first : Reads method bytes value)
    (second : Reads (next value) [] value') :
    Reads (method >>= next) bytes value' := by
  have both := first.bind second
  rwa [List.append_nil] at both

/-- A result that is made of what was read. -/
theorem Reads.map
    {result result' : Type} {method : Input result} {bytes : List Byte} {value : result}
    {value' : result'}
    (reads : Reads method bytes value)
    (make : result → result')
    (made : make value = value') :
    Reads (method >>= fun value => Pure.pure (make value)) bytes value' := by
  refine reads.last ?_
  rw [made]
  exact .pure value'

theorem write_writes (b : BitVec 32) : Writes (write b) [b.setWidth 8] ⟨⟩ := by
  intro sink
  rfl

theorem read_reads (b : Byte) : Reads read [b] (b.setWidth 32) := by
  intro after grant
  rfl

/-- A byte is not the mark of the end. -/
theorem msb_byte (b : Byte) : (b.setWidth 32).msb = false := by
  rw [BitVec.msb_setWidth, BitVec.getLsbD_of_ge _ _ (by decide), Bool.and_false]

theorem slt_byte (b : Byte) : (b.setWidth 32).slt 0#32 = false := by
  rw [BitVec.slt_zero_eq_msb, msb_byte]

/-- The lowest byte of a number. -/
theorem lowByte_eq (v : BitVec 32) : (v &&& 0xFF#32).setWidth 8 = BitVec.ofNat 8 v.toNat := by
  have masked : v.toNat &&& 255 = v.toNat % 256 := Nat.and_two_pow_sub_one_eq_mod v.toNat 8
  apply BitVec.eq_of_toNat_eq
  simp only [BitVec.toNat_setWidth, BitVec.toNat_and, BitVec.toNat_ofNat, Nat.reducePow,
    Nat.reduceMod]
  omega

/-- A byte of a number. -/
theorem shiftedByte_eq (v : BitVec 32) (n : Nat) :
    ((v >>> n) &&& 0xFF#32).setWidth 8 = BitVec.ofNat 8 (v.toNat / 2 ^ n) := by
  rw [lowByte_eq, BitVec.toNat_ushiftRight, Nat.shiftRight_eq_div_pow]

theorem write_shifted_writes (v : BitVec 32) (n : Nat) :
    Writes (write ((v >>> n) &&& 0xFF#32)) [BitVec.ofNat 8 (v.toNat / 2 ^ n)] ⟨⟩ := by
  rw [← shiftedByte_eq]
  exact write_writes _

/-! ## Bytes -/

theorem writeBoolean_writes (v : Bool) :
    Writes (writeBoolean v) [if v then 1#8 else 0#8] ⟨⟩ := by
  cases v with
  | false =>
      exact write_writes 0#32
  | true =>
      exact write_writes 1#32

theorem readBoolean_reads (v : Bool) : Reads readBoolean [if v then 1#8 else 0#8] v := by
  refine (read_reads _).last ?_
  rw [slt_byte]
  cases v with
  | false =>
      exact .pure false
  | true =>
      exact .pure true

/-- The bits of a number stay, when it gets more. -/
theorem setWidth_signExtend
    {width wider : Nat} (v : BitVec width)
    (le : width ≤ wider) :
    (v.signExtend wider).setWidth width = v := by
  apply BitVec.eq_of_getLsbD_eq
  intro i small
  have small' : i < wider := by
    omega
  rw [BitVec.getLsbD_setWidth, BitVec.getLsbD_signExtend, if_pos small, decide_eq_true small,
    decide_eq_true small', Bool.true_and, Bool.true_and]

theorem writeByte_writes (v : BitVec 8) : Writes (writeByte (v.signExtend 32)) [v] ⟨⟩ := by
  have written := write_writes (v.signExtend 32)
  rwa [setWidth_signExtend v (by decide)] at written

theorem readByte_reads (v : BitVec 8) : Reads readByte [v] v := by
  refine (read_reads v).last ?_
  rw [slt_byte, if_neg Bool.false_ne_true, BitVec.setWidth_setWidth_of_le _ (by decide),
    BitVec.setWidth_eq]
  exact .pure v

/-! ## Numbers of 16 bits -/

/-- The two bytes of a number. -/
def shortBytes (v : Nat) : List Byte :=
  [BitVec.ofNat 8 (v / 256), BitVec.ofNat 8 v]

theorem writeShort_writes (v : BitVec 32) : Writes (writeShort v) (shortBytes v.toNat) ⟨⟩ := by
  have last := write_shifted_writes v 0
  rw [Nat.pow_zero, Nat.div_one] at last
  exact (write_shifted_writes v 8).bind last

theorem readUnsignedShort_reads (high low : Byte) :
    Reads readUnsignedShort [high, low] (BitVec.ofNat 32 (high.toNat * 256 + low.toNat)) := by
  have test : (high.setWidth 32 ||| low.setWidth 32).slt 0#32 = false := by
    rw [BitVec.slt_zero_eq_msb, BitVec.msb_or, msb_byte, msb_byte, Bool.or_false]
  have value : (high.setWidth 32 <<< 8) + (low.setWidth 32 <<< 0) =
      BitVec.ofNat 32 (high.toNat * 256 + low.toNat) := by
    have highSmall := high.isLt
    have lowSmall := low.isLt
    apply BitVec.eq_of_toNat_eq
    simp only [BitVec.toNat_add, BitVec.toNat_shiftLeft, BitVec.toNat_setWidth,
      BitVec.toNat_ofNat, Nat.shiftLeft_eq]
    omega
  refine (read_reads high).bind ((read_reads low).last ?_)
  rw [test, if_neg Bool.false_ne_true, value]
  exact .pure _

theorem readShort_reads (high low : Byte) :
    Reads readShort [high, low] (BitVec.ofNat 16 (high.toNat * 256 + low.toNat)) := by
  have same : (BitVec.ofNat 32 (high.toNat * 256 + low.toNat)).setWidth 16 =
      BitVec.ofNat 16 (high.toNat * 256 + low.toNat) :=
    BitVec.setWidth_ofNat_of_le (by decide) _
  exact (readUnsignedShort_reads high low).map (fun v => v.setWidth 16) same

/-- The lower 16 bits of a number are read again. -/
theorem shortBytes_reads (v : BitVec 32) :
    Reads readShort (shortBytes v.toNat) (v.setWidth 16) := by
  have same : BitVec.ofNat 16 ((BitVec.ofNat 8 (v.toNat / 256)).toNat * 256 +
      (BitVec.ofNat 8 v.toNat).toNat) = v.setWidth 16 := by
    apply BitVec.eq_of_toNat_eq
    rw [BitVec.toNat_ofNat, BitVec.toNat_ofNat, BitVec.toNat_ofNat, BitVec.toNat_setWidth]
    omega
  rw [← same]
  exact readShort_reads _ _

/-! ## Numbers of 32 and of 64 bits -/

/-- The four bytes of a number. -/
def intBytes (v : Nat) : List Byte :=
  [BitVec.ofNat 8 (v / 16777216), BitVec.ofNat 8 (v / 65536), BitVec.ofNat 8 (v / 256),
    BitVec.ofNat 8 v]

theorem writeInt_writes (v : BitVec 32) : Writes (writeInt v) (intBytes v.toNat) ⟨⟩ := by
  have last := write_shifted_writes v 0
  rw [Nat.pow_zero, Nat.div_one] at last
  exact (write_shifted_writes v 24).bind
    ((write_shifted_writes v 16).bind ((write_shifted_writes v 8).bind last))

theorem write_shiftedLong_writes (v : BitVec 64) (n : Nat) :
    Writes (write ((v >>> n).setWidth 32 &&& 0xFF#32)) [BitVec.ofNat 8 (v.toNat / 2 ^ n)] ⟨⟩ := by
  have same : BitVec.ofNat 8 ((v >>> n).setWidth 32).toNat = BitVec.ofNat 8 (v.toNat / 2 ^ n) := by
    apply BitVec.eq_of_toNat_eq
    rw [BitVec.toNat_ofNat, BitVec.toNat_ofNat, BitVec.toNat_setWidth, BitVec.toNat_ushiftRight,
      Nat.shiftRight_eq_div_pow]
    exact Nat.mod_mod_of_dvd _ (by decide)
  rw [← same, ← lowByte_eq]
  exact write_writes _

theorem writeLong_writes (v : BitVec 64) :
    Writes (writeLong v) (intBytes (v.toNat / 4294967296) ++ intBytes v.toNat) ⟨⟩ := by
  have last := write_shiftedLong_writes v 0
  rw [Nat.pow_zero, Nat.div_one] at last
  simp only [intBytes, Nat.div_div_eq_div_mul]
  exact (write_shiftedLong_writes v 56).bind ((write_shiftedLong_writes v 48).bind
    ((write_shiftedLong_writes v 40).bind ((write_shiftedLong_writes v 32).bind
      ((write_shiftedLong_writes v 24).bind ((write_shiftedLong_writes v 16).bind
        ((write_shiftedLong_writes v 8).bind last))))))

theorem readInt_reads (v : BitVec 32) : Reads readInt (intBytes v.toNat) v := by
  generalize first : BitVec.ofNat 8 (v.toNat / 16777216) = ch1
  generalize second : BitVec.ofNat 8 (v.toNat / 65536) = ch2
  generalize third : BitVec.ofNat 8 (v.toNat / 256) = ch3
  generalize fourth : BitVec.ofNat 8 v.toNat = ch4
  have test : (ch1.setWidth 32 ||| ch2.setWidth 32 ||| ch3.setWidth 32 |||
      ch4.setWidth 32).slt 0#32 = false := by
    rw [BitVec.slt_zero_eq_msb, BitVec.msb_or, BitVec.msb_or, BitVec.msb_or, msb_byte, msb_byte,
      msb_byte, msb_byte]
    rfl
  have value : (ch1.setWidth 32 <<< 24) + (ch2.setWidth 32 <<< 16) + (ch3.setWidth 32 <<< 8) +
      (ch4.setWidth 32 <<< 0) = v := by
    have small := v.isLt
    apply BitVec.eq_of_toNat_eq
    simp only [← first, ← second, ← third, ← fourth, BitVec.toNat_add, BitVec.toNat_shiftLeft,
      BitVec.toNat_setWidth, BitVec.toNat_ofNat, Nat.shiftLeft_eq]
    omega
  have bytes : intBytes v.toNat = [ch1, ch2, ch3, ch4] := by
    rw [intBytes, first, second, third, fourth]
  rw [bytes]
  refine (read_reads ch1).bind ((read_reads ch2).bind ((read_reads ch3).bind
    ((read_reads ch4).last ?_)))
  rw [test, if_neg Bool.false_ne_true, value]
  exact .pure v

/-- The bytes are those of the lower 32 bits. -/
theorem intBytes_mod (v : Nat) : intBytes (v % 4294967296) = intBytes v := by
  simp only [intBytes, List.cons.injEq, and_true, ← BitVec.toNat_inj, BitVec.toNat_ofNat]
  refine ⟨?_, ?_, ?_, ?_⟩ <;> omega

theorem toNat_signExtend_shiftLeft (v : BitVec 32) :
    (v.signExtend 64 <<< 32).toNat = v.toNat * 4294967296 := by
  have small := v.isLt
  rw [BitVec.toNat_shiftLeft, BitVec.toNat_signExtend, Nat.shiftLeft_eq, BitVec.toNat_setWidth]
  split <;> omega

theorem toNat_signExtend_and (v : BitVec 32) :
    (v.signExtend 64 &&& 0xFFFFFFFF#64).toNat = v.toNat := by
  have small := v.isLt
  have masked : (v.signExtend 64).toNat &&& 4294967295 = (v.signExtend 64).toNat % 4294967296 :=
    Nat.and_two_pow_sub_one_eq_mod _ 32
  have mask : (0xFFFFFFFF#64).toNat = 4294967295 := rfl
  rw [BitVec.toNat_and, mask, masked, BitVec.toNat_signExtend, BitVec.toNat_setWidth]
  split <;> omega

theorem readLong_reads (v : BitVec 64) :
    Reads readLong (intBytes (v.toNat / 4294967296) ++ intBytes v.toNat) v := by
  have small := v.isLt
  have high := readInt_reads (BitVec.ofNat 32 (v.toNat / 4294967296))
  have low := readInt_reads (BitVec.ofNat 32 v.toNat)
  rw [BitVec.toNat_ofNat, intBytes_mod] at high low
  have value : ((BitVec.ofNat 32 (v.toNat / 4294967296)).signExtend 64 <<< 32) +
      ((BitVec.ofNat 32 v.toNat).signExtend 64 &&& 0xFFFFFFFF#64) = v := by
    apply BitVec.eq_of_toNat_eq
    rw [BitVec.toNat_add, toNat_signExtend_shiftLeft, toNat_signExtend_and, BitVec.toNat_ofNat,
      BitVec.toNat_ofNat]
    omega
  exact high.bind (low.map
    (fun low => ((BitVec.ofNat 32 (v.toNat / 4294967296)).signExtend 64 <<< 32) +
      (low.signExtend 64 &&& 0xFFFFFFFF#64)) value)

end PicoJvm.Streams
