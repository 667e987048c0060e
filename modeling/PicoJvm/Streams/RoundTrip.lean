import PicoJvm.Streams.UtfStreams

/-!
# Data streams round trip

Values that are written are read again by the methods of their types, which take the bytes that were
written and no others.
-/

namespace PicoJvm.Streams

open PicoJvm.Lib.CharacterForms PicoJvm.Lib.Attempt

/-- A string that was written is read again. -/
theorem readUTF_reads
    {str : JavaText}
    (short : (encode str.chars).length ≤ 65535) :
    Reads readUTF (utfEncoding str.chars) str := by
  intro after grant
  have small : announced (BitVec.ofNat 8 ((encode str.chars).length / 256))
      (BitVec.ofNat 8 (encode str.chars).length) = (encode str.chars).length := by
    rw [announced, BitVec.toNat_ofNat, BitVec.toNat_ofNat]
    omega
  have encodes := encodes_encode str.chars
  have ensured := readUTF_ensures ⟨utfEncoding str.chars ++ after, grant⟩
  simp only [utfEncoding, List.cons_append, List.nil_append] at ensured ⊢
  cases ran : readUTF.run ⟨BitVec.ofNat 8 ((encode str.chars).length / 256) ::
      BitVec.ofNat 8 (encode str.chars).length :: (encode str.chars ++ after), grant⟩ with
  | ok str' left =>
      obtain ⟨high, low, bytes, split, isLength, encodes'⟩ := ensured.ok ran
      obtain ⟨sameBytes, sameGrant⟩ := Source.mk.inj split
      obtain ⟨isHigh, others⟩ := List.cons.inj sameBytes
      obtain ⟨isLow, rest⟩ := List.cons.inj others
      rw [← isHigh, ← isLow, small] at isLength
      obtain ⟨isBytes, isAfter⟩ := List.append_inj rest isLength.symm
      rw [← isBytes] at encodes'
      have sameStr : str = str' := by
        cases str
        cases str'
        cases encodes.unique encodes'
        rfl
      rw [sameStr, isAfter, sameGrant]
  | error thrown left =>
      rcases ensured.error ran with
        ⟨-, -, tooFew⟩ | ⟨-, high, low, bytes, split, isLength, notFormed⟩
      · have few := tooFew _ _ _ rfl
        rw [small, List.length_append] at few
        omega
      · obtain ⟨sameBytes, -⟩ := Source.mk.inj split
        obtain ⟨isHigh, others⟩ := List.cons.inj sameBytes
        obtain ⟨isLow, rest⟩ := List.cons.inj others
        rw [← isHigh, ← isLow, small] at isLength
        rw [← (List.append_inj rest isLength.symm).1] at notFormed
        exact absurd ⟨_, encodes⟩ notFormed

/-! ## Values -/

/-- The bytes of a value. -/
def Value.bytes : Value → List Byte
  | .boolean v => [if v then 1#8 else 0#8]
  | .byte v => [v]
  | .short v => shortBytes (v.signExtend 32).toNat
  | .char v => shortBytes (v.setWidth 32).toNat
  | .int v => intBytes v.toNat
  | .long v => intBytes (v.toNat / 4294967296) ++ intBytes v.toNat
  | .utf v => utfEncoding v.chars

/-- A string has no more bytes than two bytes can announce. -/
def Value.Fits : Value → Prop
  | .utf v => (encode v.chars).length ≤ 65535
  | .boolean _ | .byte _ | .short _ | .char _ | .int _ | .long _ => True

/-- A value is written, unless it is a string of too many bytes. -/
theorem Value.write_writes
    {value : Value}
    (fits : value.Fits) :
    Writes value.write value.bytes ⟨⟩ := by
  cases value with
  | boolean v =>
      exact writeBoolean_writes v
  | byte v =>
      exact writeByte_writes v
  | short v =>
      exact writeShort_writes (v.signExtend 32)
  | char v =>
      exact writeShort_writes (v.setWidth 32)
  | int v =>
      exact writeInt_writes v
  | long v =>
      exact writeLong_writes v
  | utf v =>
      intro sink
      have ran := writeUTF_eq v sink
      rw [Value.Fits] at fits
      rw [if_pos fits] at ran
      simp only [EStateM.run, Value.write, Bind.bind, EStateM.bind] at ran ⊢
      rw [ran]
      rfl

theorem Value.write_ensures (value : Value) (sink : List Byte) :
    Ensures value.write sink (fun _ after => value.Fits ∧ after = sink ++ value.bytes)
      (fun thrown _ => thrown = .utfDataFormat ∧ ¬ value.Fits) := by
  have whenFits (fits : value.Fits) :
      Ensures value.write sink (fun _ after => value.Fits ∧ after = sink ++ value.bytes)
        (fun thrown _ => thrown = .utfDataFormat ∧ ¬ value.Fits) := by
    unfold Ensures
    rw [Value.write_writes fits sink]
    exact ⟨fits, rfl⟩
  cases value with
  | utf v =>
      by_cases short : (encode v.chars).length ≤ 65535
      · exact whenFits short
      · have ran := writeUTF_eq v sink
        rw [if_neg short] at ran
        exact Ensures.bind (Ensures.of_run_error ran ⟨rfl, short⟩)
  | boolean | byte | short | char | int | long =>
      exact whenFits trivial

/-- A value that was written is read again. -/
theorem Value.read_reads
    {value : Value}
    (fits : value.Fits) :
    Reads value.kind.read value.bytes value := by
  cases value with
  | boolean v =>
      exact (readBoolean_reads v).map Value.boolean rfl
  | byte v =>
      exact (readByte_reads v).map Value.byte rfl
  | short v =>
      exact (shortBytes_reads (v.signExtend 32)).map Value.short
        (congrArg _ (setWidth_signExtend v (by decide)))
  | char v =>
      refine (shortBytes_reads (v.setWidth 32)).map Value.char (congrArg _ ?_)
      rw [BitVec.setWidth_setWidth_of_le _ (by decide), BitVec.setWidth_eq]
  | int v =>
      exact (readInt_reads v).map Value.int rfl
  | long v =>
      exact (readLong_reads v).map Value.long rfl
  | utf v =>
      exact (readUTF_reads fits).map Value.utf rfl

/-! ## Sequences of values -/

theorem readAll_reads
    {values : List Value}
    (fit : ∀ value ∈ values, value.Fits) :
    Reads (readAll (values.map Value.kind)) (values.flatMap Value.bytes) values := by
  induction values with
  | nil =>
      exact .pure []
  | cons value rest inductionHypothesis =>
      have first := Value.read_reads (fit value List.mem_cons_self)
      have onward := inductionHypothesis fun value' isRest =>
        fit value' (List.mem_cons_of_mem _ isRest)
      rw [List.flatMap_cons]
      exact first.bind (onward.map (List.cons value) rfl)

/-- A sequence is written whole, unless a string in it is too long. -/
theorem writeAll_ensures (values : List Value) (sink : List Byte) :
    Ensures (writeAll values) sink
      (fun _ after => (∀ value ∈ values, value.Fits) ∧ after = sink ++ values.flatMap Value.bytes)
      (fun thrown _ => thrown = .utfDataFormat ∧ ∃ value ∈ values, ¬ value.Fits) := by
  induction values generalizing sink with
  | nil =>
      exact Ensures.pure ⟨nofun, (List.append_nil sink).symm⟩
  | cons value rest inductionHypothesis =>
      refine Ensures.bind ((value.write_ensures sink).mono ?_ ?_)
      · intro _ middle written
        refine (inductionHypothesis middle).mono ?_ ?_
        · intro _ after onward
          refine ⟨?_, ?_⟩
          · intro value' isValue
            rcases List.mem_cons.mp isValue with first | later
            · rw [first]
              exact written.1
            · exact onward.1 value' later
          · rw [onward.2, written.2, List.flatMap_cons, List.append_assoc]
        · intro thrown after failed
          obtain ⟨isFormat, value', isRest, tooLong⟩ := failed
          exact ⟨isFormat, value', List.mem_cons_of_mem _ isRest, tooLong⟩
      · intro thrown after failed
        exact ⟨failed.1, value, List.mem_cons_self, failed.2⟩

/-- Data streams round trip. What is written of a sequence is read again by the methods of the same
types, whatever comes behind it and in whatever parts the stream gives it; `writeUTF` fails for
strings of too many bytes only; and `readUTF` takes the announced number of bytes, and a string for
them if and only if they are well formed. -/
theorem dataStreams_roundTrip :
    (∀ values sink, Ensures (writeAll values) sink
      (fun _ sink' => ∃ bytes, sink' = sink ++ bytes ∧ ∀ after grant,
        (readAll (values.map Value.kind)).run ⟨bytes ++ after, grant⟩ =
          .ok values ⟨after, grant⟩)
      (fun thrown _ => thrown = .utfDataFormat ∧ ∃ str, Value.utf str ∈ values ∧
        65535 < (encode str.chars).length)) ∧
    (∀ str sink, (∃ written sink', (writeUTF str).run sink = .ok written sink') ↔
      (encode str.chars).length ≤ 65535) ∧
    (∀ source, Ensures readUTF source
      (fun str after => ∃ high low bytes,
        source = ⟨high :: low :: (bytes ++ after.bytes), after.grant⟩ ∧
          bytes.length = announced high low ∧ Encodes bytes str.chars)
      (fun thrown after =>
        thrown = .eof ∧ after = ⟨[], source.grant⟩ ∧
          (∀ high low rest, source.bytes = high :: low :: rest →
            rest.length < announced high low) ∨
        thrown = .utfDataFormat ∧ ∃ high low bytes,
          source = ⟨high :: low :: (bytes ++ after.bytes), after.grant⟩ ∧
            bytes.length = announced high low ∧ ¬ WellFormed bytes)) := by
  refine ⟨?_, ?_, readUTF_ensures⟩
  · intro values sink
    refine (writeAll_ensures values sink).mono ?_ ?_
    · intro _ after written
      exact ⟨values.flatMap Value.bytes, written.2, readAll_reads written.1⟩
    · intro thrown after failed
      obtain ⟨isFormat, value, isValue, tooLong⟩ := failed
      cases value with
      | utf str =>
          exact ⟨isFormat, str, isValue, Nat.lt_of_not_le tooLong⟩
      | boolean | byte | short | char | int | long =>
          exact absurd trivial tooLong
  · intro str sink
    rw [writeUTF_eq]
    by_cases short : (encode str.chars).length ≤ 65535
    · rw [if_pos short]
      exact ⟨fun _ => short, fun _ => ⟨_, _, rfl⟩⟩
    · rw [if_neg short]
      refine ⟨fun written => ?_, fun isShort => absurd isShort short⟩
      obtain ⟨written, sink', ran⟩ := written
      cases ran

end PicoJvm.Streams
