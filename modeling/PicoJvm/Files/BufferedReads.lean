import PicoJvm.Files.BufferedFile

/-!
# Reads of a buffered file

What a seek to a place inside and a read behind it give, and that a read returns at all.
-/

namespace PicoJvm.Files

open PicoJvm.Lib.Machine

namespace BufferedFile

theorem refillBuffer_filled
    (file : BufferedFile)
    (notEof : file.atEof = false) :
    file.refillBuffer.index ≤ file.refillBuffer.count ∧
      (file.refillBuffer.atEof = false → file.refillBuffer.index < file.refillBuffer.count) := by
  unfold refillBuffer
  rw [notEof, if_neg Bool.false_ne_true]
  constructor
  · exact Int.natCast_nonneg _
  · intro more
    have some := of_decide_eq_false more
    dsimp only
    omega

/-- A read goes wrong only when the index is behind the bytes of the buffer. -/
theorem readBuffered_returns
    (rounds : Nat)
    (file : BufferedFile)
    (num : Int)
    (inside : file.index ≤ file.count)
    (some : 0 < rounds)
    (enough : 0 < num →
      num + 1 + (if file.atEof = false ∧ file.index = file.count then 1 else 0) ≤ rounds) :
    ∃ bytes last, readBuffered rounds num file = .ok (bytes, last) ∧
      last.bufferSize = file.bufferSize := by
  induction rounds generalizing file num with
  | zero =>
      omega
  | succ rounds induction =>
      unfold readBuffered
      split
      · rename_i goesOn
        obtain ⟨notEof, positive⟩ := goesOn
        have bound := enough positive
        simp only [notEof, true_and] at bound
        generalize countEq : (if num > file.count - file.index then file.count - file.index
          else num) = count
        dsimp only
        rw [if_neg (by split at countEq <;> omega)]
        by_cases rest : num - count > 0
        · have used : file.index + count = file.count := by
            split at countEq <;> omega
          obtain ⟨nextInside, filled⟩ :=
            refillBuffer_filled { file with index := file.index + count } notEof
          rw [if_pos rest]
          generalize nextEq : refillBuffer _ = next at nextInside filled ⊢
          obtain ⟨bytes, last, ran, sameSize⟩ := induction next (num - count) nextInside
            (by omega)
            (by
              intro _
              rw [if_neg (fun unread => Int.ne_of_lt (filled unread.1) unread.2)]
              split at bound <;> omega)
          rw [ran]
          refine ⟨_, _, rfl, sameSize.trans ?_⟩
          rw [← nextEq, Tracks.refillBuffer_bufferSize]
        · rw [if_neg rest]
          obtain ⟨bytes, last, ran, sameSize⟩ := induction
            { file with index := file.index + count } (num - count)
            (by dsimp only; split at countEq <;> omega) (by split at bound <;> omega)
            (fun more => absurd more rest)
          rw [ran]
          exact ⟨_, _, rfl, sameSize⟩
      · exact ⟨_, _, rfl, rfl⟩

theorem getBytes_returns
    {file : BufferedFile}
    (inside : file.index ≤ file.count)
    (num : Nat) :
    ∃ bytes last, file.getBytes num true = .ok (bytes, last) ∧
      last.bufferSize = file.bufferSize := by
  unfold getBytes
  rw [if_pos rfl]
  refine readBuffered_returns (num + 2) _ _ inside (by omega) ?_
  intro _
  split <;> omega

theorem seek_set_index (file : BufferedFile) (offset : Int) :
    (file.seek offset .set).index ≤ (file.seek offset .set).count ∧
      (0 ≤ offset → 0 ≤ (file.seek offset .set).filePos) ∧
        (file.seek offset .set).bufferSize = file.bufferSize := by
  simp only [seek]
  split
  · dsimp only
    refine ⟨?_, ?_, rfl⟩ <;> omega
  · exact ⟨Int.le_refl 0, id, rfl⟩

theorem seek_fromEnd_index
    (file : BufferedFile)
    (offset : Int)
    (back : offset ≤ 0)
    (inRange : InRange (file.fileSize + offset)) :
    (file.seek offset .fromEnd).index ≤ (file.seek offset .fromEnd).count ∧
      (0 ≤ file.fileSize + offset → (0 < file.count → file.count ≤ file.filePos) →
        0 ≤ (file.seek offset .fromEnd).filePos) ∧
        (file.seek offset .fromEnd).bufferSize = file.bufferSize := by
  simp only [seek]
  split
  · rename_i whole
    obtain ⟨positive, all, nonneg⟩ := whole
    rw [all, signed_of_inRange inRange] at nonneg ⊢
    dsimp only
    refine ⟨?_, ?_, rfl⟩ <;> omega
  · rw [signed_of_inRange inRange]
    exact ⟨Int.le_refl 0, fun nonneg _ => nonneg, rfl⟩

/-- The file reads these bytes, and has a buffer. -/
def Reads (data : List UInt8) (file : BufferedFile) : Prop :=
  0 < file.bufferSize ∧ ∃ cursor, Tracks file cursor ∧ cursor.data = data

/-- Bytes from a place on. -/
theorem Reads.at_set
    {data : List UInt8} {file : BufferedFile}
    (reads : Reads data file)
    (small : data.length < 2147483648)
    (place : Nat)
    (inside : place ≤ data.length)
    (num : Nat) :
    ∃ last, (file.seek place .set).getBytes num true =
      .ok ((data.drop place).take num, last) ∧ Reads data last := by
  obtain ⟨room, cursor, tracks, rfl⟩ := reads
  have inRange : InRange place := by
    unfold InRange
    omega
  have sought := seek_set_tracks tracks inRange
  obtain ⟨index, filePos, sameSize⟩ := file.seek_set_index place
  have supports : (file.seek place .set).Supports (.getBytes num true) := by
    intro _ _
    exact ⟨index, fun _ => ⟨by omega, filePos (Int.natCast_nonneg _)⟩⟩
  obtain ⟨last, ran, tracked⟩ := sought.getBytes_buffered small supports
  obtain ⟨bytes, last', ran', lastSize⟩ := getBytes_returns index num
  rw [ran] at ran'
  cases ran'
  have pos : (cursor.seek place .set).pos = place := by
    simp [Cursor.seek, Cursor.origin, clamp_of_le inside]
  refine ⟨last, ?_, by omega, _, tracked, rfl⟩
  rw [ran]
  unfold Cursor.read
  rw [pos]
  rfl

/-- The last bytes. -/
theorem Reads.at_end
    {data : List UInt8} {file : BufferedFile}
    (reads : Reads data file)
    (small : data.length < 2147483648)
    {num : Nat}
    (inside : num ≤ data.length) :
    ∃ last, (file.seek (-num) .fromEnd).getBytes num true =
      .ok (data.drop (data.length - num), last) ∧ Reads data last := by
  obtain ⟨room, cursor, tracks, rfl⟩ := reads
  have size := tracks.size
  have inRange : InRange (file.fileSize + -num) := by
    unfold InRange
    omega
  have sought := seek_fromEnd_tracks tracks inRange
  obtain ⟨index, filePos, sameSize⟩ := file.seek_fromEnd_index (-num) (by omega) inRange
  have supports : (file.seek (-num) .fromEnd).Supports (.getBytes num true) := by
    intro _ _
    exact ⟨index, fun _ =>
      ⟨by omega, filePos (by omega) (fun positive => (tracks.held positive).2)⟩⟩
  obtain ⟨last, ran, tracked⟩ := sought.getBytes_buffered small supports
  obtain ⟨bytes, last', ran', lastSize⟩ := getBytes_returns index num
  rw [ran] at ran'
  cases ran'
  have pos : (cursor.seek (-num) .fromEnd).pos = cursor.data.length - num := by
    have place := clamp_cast cursor.data.length (cursor.data.length + -num)
    simp only [Cursor.seek, Cursor.origin]
    omega
  refine ⟨last, ?_, by omega, _, tracked, rfl⟩
  rw [ran]
  unfold Cursor.read
  rw [pos, List.take_of_length_le]
  · rfl
  · change (cursor.data.drop _).length ≤ num
    rw [List.length_drop]
    omega

end BufferedFile

end PicoJvm.Files
