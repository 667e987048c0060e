import PicoJvm.Files.JarFileParser
import PicoJvm.Files.BufferedReads
import PicoJvm.Lib.BackwardScan
import Mathlib.Tactic.Ring

/-!
# Which end header is found

The loop is a scan backwards through a window. What it looks for is a header whose comment
reaches the end of the file.
-/

namespace PicoJvm.Files

open PicoJvm.Lib
open PicoJvm.Lib.Machine
open PicoJvm.Lib.BackwardScan

/-! ## Headers in a file -/

def littleEndian (bytes : List UInt8) : Nat :=
  bytes.foldr (fun byte rest => byte.toNat + 256 * rest) 0

/-- A number of so many bytes in a file. -/
def field (data : List UInt8) (place size : Nat) : Nat :=
  littleEndian ((data.drop place).take size)

/-- An end header whose comment ends where the file does. -/
def EndsAt (data : List UInt8) (place : Nat) : Prop :=
  (data.drop place).take 4 = [0x50, 0x4B, 5, 6] ∧
    place + endHdrSiz + field data (place + 20) 2 = data.length

instance (data : List UInt8) (place : Nat) : Decidable (EndsAt data place) :=
  inferInstanceAs (Decidable (_ ∧ _))

/-- What the end header at a place tells. -/
def entryAt (data : List UInt8) (place : Nat) : CurrentEntry :=
  let cenOffset := UInt32.ofNat place - UInt32.ofNat (field data (place + 12) 4)
  { cenOffset
    nextCenOffset := cenOffset
    locOffset := cenOffset - UInt32.ofNat (field data (place + 16) 4)
    totalEntryCount := field data (place + 10) 2 }

/-- What a header that is found does to the entry: its offsets are kept when a local header is
where they say, as far as that is inside the file. -/
def Used (data : List UInt8) (place : Nat) (entry entry' : CurrentEntry) : Prop :=
  (entry' = entry ∨ entry' = entryAt data place) ∧
    ((entryAt data place).locOffset.toNat ≤ data.length →
      entry' =
        if (data.drop (entryAt data place).locOffset.toNat).take 4 = [0x50, 0x4B, 3, 4] then
          entryAt data place
        else
          entry)

/-- The scan that the loop makes. -/
def endSearch (data : List UInt8) : Search where
  hit := fun place => decide (0 ≤ place ∧ EndsAt data place.toNat)
  skip := fun place =>
    let byte := data.getD place.toNat 0
    if byte = 6 then 3 else if byte = 5 then 2 else if byte = 0x4B then 1 else 4
  lowest := JarFileParser.minOffset data.length
  room := tmpBufferSize - endHdrSiz

/-- The scan of a whole file. -/
def endScan (data : List UInt8) : Outcome :=
  (endSearch data).scan (data.length + 2) (data.length - endHdrSiz) (data.length - endHdrSiz)

theorem EndsAt.byte
    {data : List UInt8} {place : Nat}
    (ends : EndsAt data place)
    {back : Nat}
    (inside : back < 4) :
    data.getD (place + back) 0 = [0x50, 0x4B, 5, 6].getD back 0 := by
  rw [← ends.1]
  simp [List.getD_eq_getElem?_getD, inside]

theorem endSearch_skip_le (data : List UInt8) (place : Int) : (endSearch data).skip place ≤ 4 := by
  simp only [endSearch]
  split
  · decide
  · split
    · decide
    · split <;> decide

theorem endSearch_skips (data : List UInt8) : (endSearch data).SkipsNoHit where
  positive := by
    intro place
    simp only [endSearch]
    split
    · decide
    · split
      · decide
      · split <;> decide
  between := by
    intro place missed skipped above below
    simp only [endSearch, decide_eq_false_iff_not] at above ⊢
    rintro ⟨nonneg, ends⟩
    obtain ⟨back, backEq⟩ : ∃ back : Nat, place = skipped + back :=
      ⟨(place - skipped).toNat, by omega⟩
    have byte : data.getD place.toNat 0 = [0x50, 0x4B, 5, 6].getD back 0 := by
      rw [show place.toNat = skipped.toNat + back by omega]
      refine ends.byte ?_
      split at above
      · omega
      · split at above
        · omega
        · split at above <;> omega
    rw [byte] at above
    match back with
    | 0 => omega
    | 1 => exact absurd above (by simp; omega)
    | 2 => exact absurd above (by simp; omega)
    | 3 => exact absurd above (by simp; omega)
    | back + 4 =>
        simp at above
        omega

theorem endSearch_lowest (data : List UInt8) :
    (endSearch data).lowest = max 76 ((data.length : Int) - 65557) := by
  unfold endSearch JarFileParser.minOffset locHdrSiz cenHdrSiz endHdrSiz
  dsimp only
  omega

theorem littleEndian_append (bytes more : List UInt8) :
    littleEndian (bytes ++ more) = littleEndian bytes + 256 ^ bytes.length * littleEndian more := by
  induction bytes with
  | nil =>
      simp [littleEndian]
  | cons byte bytes induction =>
      change byte.toNat + 256 * littleEndian (bytes ++ more) =
        byte.toNat + 256 * littleEndian bytes + _
      rw [induction, List.length_cons, Nat.pow_succ']
      ring

theorem littleEndian_lt (bytes : List UInt8) : littleEndian bytes < 256 ^ bytes.length := by
  induction bytes with
  | nil =>
      decide
  | cons byte bytes induction =>
      have bound := byte.toNat_lt
      change byte.toNat + 256 * littleEndian bytes < _
      rw [List.length_cons, Nat.pow_succ']
      omega

theorem field_add
    {data : List UInt8} {place : Nat}
    (size : Nat)
    (inside : place + size ≤ data.length)
    (size' : Nat) :
    field data place (size + size') =
      field data place size + 256 ^ size * field data (place + size) size' := by
  unfold field
  rw [List.take_add, littleEndian_append, List.drop_drop, List.length_take, List.length_drop,
    Nat.min_eq_left (by omega)]

theorem field_one
    {data : List UInt8} {place : Nat}
    (inside : place < data.length) :
    field data place 1 = (data.getD place 0).toNat := by
  rw [field, List.drop_eq_getElem_cons inside, List.getD_eq_getElem?_getD,
    List.getElem?_eq_getElem inside, List.take_succ_cons, List.take_zero]
  rfl

theorem field_lt (data : List UInt8) (place size : Nat) : field data place size < 256 ^ size := by
  refine Nat.lt_of_lt_of_le (littleEndian_lt _) (Nat.pow_le_pow_right (by decide) ?_)
  rw [List.length_take]
  omega

/-- Numbers side by side, the lower one first. -/
theorem or_shiftLeft
    {low size : Nat}
    (small : low < 2 ^ size)
    (high : Nat) :
    low ||| high <<< size = low + 2 ^ size * high := by
  rw [Nat.or_comm, ← Nat.shiftLeft_add_eq_or_of_lt small, Nat.shiftLeft_eq]
  exact (Nat.add_comm _ _).trans (congrArg (low + ·) (Nat.mul_comm _ _))

/-! ## The window -/

/-- The buffer holds the file from `currentOffset` on, and a header at `bp` would be whole. -/
structure Window (data : List UInt8) (search : EndSearch) : Prop where
  reads : BufferedFile.Reads data search.bufferedFile
  size : search.buffer.length = tmpBufferSize
  offset_nonneg : 0 ≤ search.currentOffset
  bp_le : search.bp ≤ 42
  endpos_le : search.endpos + 22 ≤ data.length
  contents : ∀ place : Nat, place < tmpBufferSize → search.currentOffset + place < data.length →
    search.buffer[place]? = data[(search.currentOffset + place).toNat]?

section Window

variable {data : List UInt8} {search : EndSearch}

theorem Window.inside
    (window : Window data search)
    (inside : 0 ≤ search.bp) :
    search.endpos.toNat = search.endpos ∧ search.endpos.toNat + 22 ≤ data.length := by
  have offset_nonneg := window.offset_nonneg
  have endpos_le := window.endpos_le
  unfold EndSearch.endpos at endpos_le ⊢
  omega

/-- A byte that `bp` leads to. -/
theorem Window.ch
    (window : Window data search)
    (inside : 0 ≤ search.bp)
    (place : Nat)
    (whole : place < 22) :
    ch search.buffer (search.bp + place) = .ok (data.getD (search.endpos.toNat + place) 0) := by
  have offset_nonneg := window.offset_nonneg
  have bp_le := window.bp_le
  obtain ⟨place_eq, endpos_le⟩ := window.inside inside
  have start : search.endpos = search.currentOffset + search.bp := rfl
  have contents := window.contents (search.bp + place).toNat
    (by unfold tmpBufferSize; omega) (by omega)
  have same : (search.currentOffset + (search.bp + place).toNat).toNat =
      search.endpos.toNat + place := by
    omega
  unfold Files.ch
  rw [if_neg (by omega), contents, same, List.getD_eq_getElem?_getD,
    List.getElem?_eq_getElem (by omega)]
  rfl

theorem Window.sh
    (window : Window data search)
    (inside : 0 ≤ search.bp)
    (place : Nat)
    (whole : place + 1 < 22) :
    sh search.buffer (search.bp + place) = .ok (field data (search.endpos.toNat + place) 2) := by
  have endpos_le := (window.inside inside).2
  have low := window.ch inside place (Nat.lt_of_succ_lt whole)
  have high := window.ch inside (place + 1) whole
  rw [Int.natCast_add, ← Int.add_assoc, Int.natCast_one] at high
  unfold Files.sh
  rw [low, high, field_add 1 (by omega) 1, field_one (by omega), field_one (by omega)]
  apply congrArg Except.ok
  rw [or_shiftLeft (UInt8.toNat_lt _), ← Nat.add_assoc]
  rfl

theorem Window.lg
    (window : Window data search)
    (inside : 0 ≤ search.bp)
    (place : Nat)
    (whole : place + 3 < 22) :
    lg search.buffer (search.bp + place) =
      .ok (UInt32.ofNat (field data (search.endpos.toNat + place) 4)) := by
  have endpos_le := (window.inside inside).2
  have low := window.sh inside place (by omega)
  have high := window.sh inside (place + 2) (by omega)
  rw [Int.natCast_add, ← Int.add_assoc] at high
  have bound := field_lt data (search.endpos.toNat + place) 2
  unfold Files.lg
  rw [low, show search.bp + (place : Int) + 2 = search.bp + place + (2 : Nat) from rfl, high,
    field_add 2 (by omega) 2, Nat.add_assoc]
  apply congrArg fun value => Except.ok (UInt32.ofNat value)
  rw [or_shiftLeft bound]
  rfl

/-- Bytes behind `bp` are compared as those of the file. -/
theorem Window.beginsWith
    (window : Window data search)
    (inside : 0 ≤ search.bp)
    (bytes : List UInt8)
    (place : Nat)
    (whole : place + bytes.length ≤ 22) :
    beginsWith search.buffer (search.bp + place) bytes =
      .ok (decide ((data.drop (search.endpos.toNat + place)).take bytes.length = bytes)) := by
  have endpos_le := (window.inside inside).2
  induction bytes generalizing place with
  | nil =>
      simp [Files.beginsWith]
  | cons byte rest induction =>
      rw [List.length_cons] at whole
      have next := induction (place + 1) (by omega)
      rw [Int.natCast_add, ← Int.add_assoc, Int.natCast_one] at next
      have first : (data.drop (search.endpos.toNat + place)).take (rest.length + 1) =
          data.getD (search.endpos.toNat + place) 0 ::
            (data.drop (search.endpos.toNat + (place + 1))).take rest.length := by
        rw [List.drop_eq_getElem_cons (by omega), List.take_succ_cons,
          List.getD_eq_getElem?_getD, List.getElem?_eq_getElem (by omega)]
        rfl
      unfold Files.beginsWith
      rw [window.ch inside place (by omega)]
      dsimp only
      rw [next, List.length_cons, first]
      by_cases same : data.getD (search.endpos.toNat + place) 0 = byte
      · simp only [same, if_true, List.cons_eq_cons, true_and]
      · simp only [same, if_false, List.cons_eq_cons, false_and, decide_false]

/-- What the switch does is what the scan does at its place. -/
theorem Window.lookAt
    (window : Window data search)
    (small : data.length < 2147483648)
    (inside : 0 ≤ search.bp) :
    search.lookAt data.length =
      .ok (if (endSearch data).hit search.endpos then
        none
      else
        some ((endSearch data).skip search.endpos)) := by
  obtain ⟨place_eq, endpos_le⟩ := window.inside inside
  have byte := window.ch inside 0 (by decide)
  have rest := window.beginsWith inside [0x4B, 5, 6] 1 (by decide)
  have comment := window.sh inside 20 (by decide)
  rw [Int.natCast_zero, Int.add_zero, Nat.add_zero] at byte
  have hit : (endSearch data).hit search.endpos = decide (EndsAt data search.endpos.toNat) := by
    have nonneg : 0 ≤ search.endpos := by omega
    simp only [endSearch, nonneg, true_and]
  have ends : EndsAt data search.endpos.toNat ↔ data.getD search.endpos.toNat 0 = 0x50 ∧
      (data.drop (search.endpos.toNat + 1)).take 3 = [0x4B, 5, 6] ∧
        search.endpos.toNat + endHdrSiz + field data (search.endpos.toNat + 20) 2 =
          data.length := by
    unfold EndsAt
    rw [List.drop_eq_getElem_cons (by omega), List.take_succ_cons, List.cons_eq_cons,
      List.getD_eq_getElem?_getD, List.getElem?_eq_getElem (by omega), and_assoc]
    rfl
  have reaches : signed (search.endpos + endHdrSiz + field data (search.endpos.toNat + 20) 2) =
      data.length ↔ search.endpos.toNat + endHdrSiz + field data (search.endpos.toNat + 20) 2 =
        data.length := by
    have bound := field_lt data (search.endpos.toNat + 20) 2
    unfold signed endHdrSiz
    rw [Int.bmod]
    split <;> omega
  unfold EndSearch.lookAt
  rw [byte, hit]
  simp only [endSearch, ends, decide_eq_true_eq]
  generalize data.getD search.endpos.toNat 0 = first
  by_cases isSix : first = 6
  · simp [isSix]
  by_cases isFive : first = 5
  · simp [isFive]
  by_cases isK : first = 0x4B
  · simp [isK]
  by_cases isP : first = 0x50
  · rw [show search.bp + (1 : Nat) = search.bp + 1 from rfl] at rest
    rw [show search.bp + (20 : Nat) = search.bp + 20 from rfl] at comment
    simp only [isP, rest, comment]
    by_cases signature : (data.drop (search.endpos.toNat + 1)).take 3 = [0x4B, 5, 6]
    · simp [signature, reaches]
      split <;> rfl
    · simp [signature]
  · simp [isSix, isFive, isK, isP]

theorem Window.withBp
    (window : Window data search)
    {back : Int}
    (positive : 0 < back) :
    Window data { search with bp := search.bp - back } where
  reads := window.reads
  size := window.size
  offset_nonneg := window.offset_nonneg
  bp_le := by
    have bp_le := window.bp_le
    dsimp only
    omega
  endpos_le := by
    have endpos_le := window.endpos_le
    unfold EndSearch.endpos at endpos_le ⊢
    dsimp only
    omega
  contents := window.contents

theorem Window.use
    (window : Window data search)
    (small : data.length < 2147483648)
    (inside : 0 ≤ search.bp)
    (entry : CurrentEntry) :
    ∃ last, search.use entry = .ok (true, last) ∧
      Used data search.endpos.toNat entry last.currentEntry := by
  obtain ⟨place_eq, endpos_le⟩ := window.inside inside
  have siz := window.lg inside 12 (by decide)
  have off := window.lg inside 16 (by decide)
  have tot := window.sh inside 10 (by decide)
  rw [show ((12 : Nat) : Int) = 12 from rfl] at siz
  rw [show ((16 : Nat) : Int) = 16 from rfl] at off
  rw [show ((10 : Nat) : Int) = 10 from rfl] at tot
  have place : UInt32.ofInt search.endpos = UInt32.ofNat search.endpos.toNat := by
    unfold UInt32.ofInt
    congr 1
    omega
  unfold EndSearch.use
  rw [siz, off, tot, place]
  dsimp only [bind, Except.bind, pure, Except.pure, Except.mapError]
  rw [show UInt32.ofNat search.endpos.toNat - UInt32.ofNat (field data (search.endpos.toNat + 12) 4) -
      UInt32.ofNat (field data (search.endpos.toNat + 16) 4) =
        (entryAt data search.endpos.toNat).locOffset from rfl]
  by_cases local' : (entryAt data search.endpos.toNat).locOffset.toNat ≤ data.length
  · obtain ⟨last, ran, _⟩ := window.reads.at_set small _ local' 4
    rw [signed_of_inRange (by unfold InRange; omega), ran]
    dsimp only
    split
    · rename_i signature
      refine ⟨_, rfl, .inr rfl, fun _ => ?_⟩
      rw [if_pos signature]
      rfl
    · rename_i signature
      refine ⟨_, rfl, .inl rfl, fun _ => ?_⟩
      rw [if_neg signature]
  · obtain ⟨sig, last, ran, _⟩ := BufferedFile.getBytes_returns
      (search.bufferedFile.seek_set_index
        (signed (entryAt data search.endpos.toNat).locOffset.toNat)).1 4
    rw [ran]
    dsimp only
    split
    · exact ⟨_, rfl, .inr rfl, fun inside => absurd inside local'⟩
    · exact ⟨_, rfl, .inl rfl, fun inside => absurd inside local'⟩

/-- The window moves as that of the scan does. -/
theorem Window.moveBack
    (window : Window data search)
    (small : data.length < 2147483648)
    (near : -4 ≤ search.bp)
    (outside : search.bp < 0)
    (above : (endSearch data).lowest < search.currentOffset) :
    ∃ next, search.moveBack (endSearch data).lowest = .ok (some next) ∧ Window data next ∧
      next.endpos = search.endpos ∧
        next.currentOffset = (endSearch data).moved search.currentOffset search.endpos := by
  have offset_nonneg := window.offset_nonneg
  have endpos_le := window.endpos_le
  have start : search.endpos = search.currentOffset + search.bp := rfl
  have lowest := endSearch_lowest data
  obtain ⟨count, countEq⟩ : ∃ count : Nat, (count : Int) =
      if search.currentOffset - (endSearch data).lowest >
          (tmpBufferSize : Int) - endHdrSiz + -search.bp then
        (tmpBufferSize : Int) - endHdrSiz + -search.bp
      else
        search.currentOffset - (endSearch data).lowest :=
    ⟨_, Int.toNat_of_nonneg (by unfold tmpBufferSize endHdrSiz; split <;> omega)⟩
  have countLe : (count : Int) ≤ 42 - search.bp ∧
      count ≤ search.currentOffset - (endSearch data).lowest := by
    unfold tmpBufferSize endHdrSiz at countEq
    split at countEq <;> omega
  obtain ⟨place, placeEq⟩ : ∃ place : Nat, (place : Int) = search.currentOffset - count :=
    ⟨_, Int.toNat_of_nonneg (by omega)⟩
  obtain ⟨last, ran, reads⟩ := window.reads.at_set small place (by omega) count
  have bytesLength : ((data.drop place).take count).length = count := by
    rw [List.length_take, List.length_drop]
    omega
  have size := window.size
  unfold tmpBufferSize at size
  have refilled : Ring.overwrite (Ring.overwrite search.buffer count
      (search.buffer.take (tmpBufferSize - count))) 0 ((data.drop place).take count) =
      (data.drop place).take count ++ search.buffer.take (tmpBufferSize - count) := by
    unfold Ring.overwrite tmpBufferSize
    rw [List.take_zero, List.nil_append, bytesLength, Nat.zero_add, List.length_take, size,
      List.drop_of_length_le (l := search.buffer) (by omega), List.append_nil,
      List.drop_left' (by rw [List.length_take]; omega)]
  unfold EndSearch.moveBack
  rw [if_pos outside]
  dsimp only
  rw [if_neg (by omega), ← countEq, if_neg (by unfold tmpBufferSize; omega), ← placeEq,
    Int.toNat_natCast, ran]
  dsimp only
  rw [if_pos bytesLength, refilled]
  refine ⟨_, rfl, ⟨reads, ?_, Int.natCast_nonneg _, ?_, ?_, ?_⟩, ?_, ?_⟩
  · dsimp only
    rw [List.length_append, bytesLength, List.length_take, size]
    unfold tmpBufferSize
    omega
  · dsimp only
    omega
  · unfold EndSearch.endpos
    dsimp only
    omega
  · intro index inside before
    dsimp only at before ⊢
    rcases Nat.lt_or_ge index count with fresh | kept
    · rw [List.getElem?_append_left (by omega), List.getElem?_take_of_lt fresh,
        List.getElem?_drop]
      congr 1
    · unfold tmpBufferSize at inside ⊢
      rw [List.getElem?_append_right (by omega), bytesLength, List.getElem?_take_of_lt (by omega),
        window.contents (index - count) (by unfold tmpBufferSize; omega) (by omega)]
      congr 1
      omega
  · unfold EndSearch.endpos
    dsimp only
    omega
  · dsimp only
    unfold Search.moved
    rw [placeEq, countEq]
    unfold endSearch
    dsimp only
    omega

/-- The loop goes the way of the scan: a step off the window is a read outside the buffer. -/
theorem Window.run
    (small : data.length < 2147483648)
    (entry : CurrentEntry)
    (rounds : Nat)
    (window : Window data search)
    (near : -4 ≤ search.bp) :
    match (endSearch data).scan rounds search.currentOffset search.endpos with
    | .found place =>
        0 ≤ place ∧ ∃ last, EndSearch.run data.length (endSearch data).lowest entry rounds search =
          .ok (true, last) ∧ Used data place.toNat entry last.currentEntry
    | .exhausted =>
        ∃ last, EndSearch.run data.length (endSearch data).lowest entry rounds search =
          .ok (false, last) ∧ last.currentEntry = entry
    | .overstepped =>
        EndSearch.run data.length (endSearch data).lowest entry rounds search =
          .error .outsideBuffer
    | .unfinished => True := by
  induction rounds generalizing search with
  | zero =>
      trivial
  | succ rounds induction =>
      have start : search.endpos = search.currentOffset + search.bp := rfl
      unfold Search.scan EndSearch.run
      by_cases outside : search.bp < 0
      · rw [if_pos (by omega)]
        dsimp only
        unfold EndSearch.lookAt Files.ch
        rw [if_pos outside]
      · have inside : 0 ≤ search.bp := by omega
        have offset_nonneg := window.offset_nonneg
        rw [if_neg (by omega), window.lookAt small inside]
        cases hit : (endSearch data).hit search.endpos with
        | true =>
            obtain ⟨last, used, entryUsed⟩ := window.use small inside entry
            exact ⟨by omega, last, used, entryUsed⟩
        | false =>
            have positive := (endSearch_skips data).positive search.endpos
            have atMost := endSearch_skip_le data search.endpos
            generalize (endSearch data).skip search.endpos = back at positive atMost ⊢
            have moved := window.withBp positive
            have movedStart : ({ search with bp := search.bp - back } : EndSearch).endpos =
                search.endpos - back := by
              unfold EndSearch.endpos
              dsimp only
              omega
            simp only [Bool.false_eq_true, if_false]
            rw [← movedStart]
            generalize nextEq : ({ search with bp := search.bp - back } : EndSearch) = next
              at moved movedStart ⊢
            have nextBp : next.bp = search.bp - back := by
              rw [← nextEq]
            have nextOffset : search.currentOffset = next.currentOffset := by
              rw [← nextEq]
            have nextEndpos : next.endpos = next.currentOffset + next.bp := rfl
            rw [nextOffset]
            by_cases leaves : next.bp < 0
            · rw [if_pos (by omega)]
              by_cases usedUp : next.currentOffset ≤ (endSearch data).lowest
              · have nothing : next.moveBack (endSearch data).lowest = .ok none := by
                  unfold EndSearch.moveBack
                  rw [if_pos leaves]
                  dsimp only
                  rw [if_pos (by omega)]
                rw [if_pos usedUp, nothing]
                exact ⟨_, rfl, rfl⟩
              · obtain ⟨last, ran, lastWindow, lastEndpos, lastOffset⟩ :=
                  moved.moveBack small (by omega) leaves (by omega)
                rw [if_neg usedUp, ran, ← lastOffset, ← lastEndpos]
                have lastStart : last.endpos = last.currentOffset + last.bp := rfl
                have room : (endSearch data).room = 42 := rfl
                have lower := (endSearch data).moved_le_start next.currentOffset next.endpos
                  (by omega) (by omega)
                exact induction lastWindow (by omega)
            · have stays : next.moveBack (endSearch data).lowest = .ok (some next) := by
                unfold EndSearch.moveBack
                rw [if_neg leaves]
              rw [if_neg (by omega), stays]
              exact induction moved (by omega)

end Window

/-! ## Short files -/

section Inside

variable (buffer : List UInt8) (place : Int)

theorem ch_returns
    (nonneg : 0 ≤ place)
    (inside : place < buffer.length) :
    ∃ byte, ch buffer place = .ok byte := by
  unfold ch
  rw [if_neg (by omega), List.getElem?_eq_getElem (by omega)]
  exact ⟨_, rfl⟩

theorem sh_returns
    (nonneg : 0 ≤ place)
    (inside : place + 1 < buffer.length) :
    ∃ value, sh buffer place = .ok value := by
  obtain ⟨low, lowEq⟩ := ch_returns buffer place nonneg (by omega)
  obtain ⟨high, highEq⟩ := ch_returns buffer (place + 1) (by omega) inside
  unfold sh
  rw [lowEq, highEq]
  exact ⟨_, rfl⟩

theorem lg_returns
    (nonneg : 0 ≤ place)
    (inside : place + 3 < buffer.length) :
    ∃ value, lg buffer place = .ok value := by
  obtain ⟨low, lowEq⟩ := sh_returns buffer place nonneg (by omega)
  obtain ⟨high, highEq⟩ := sh_returns buffer (place + 2) (by omega) (by omega)
  unfold lg
  rw [lowEq, highEq]
  exact ⟨_, rfl⟩

theorem beginsWith_returns
    (bytes : List UInt8)
    (nonneg : 0 ≤ place)
    (inside : place + bytes.length ≤ buffer.length) :
    ∃ begins, beginsWith buffer place bytes = .ok begins := by
  induction bytes generalizing place with
  | nil =>
      exact ⟨true, rfl⟩
  | cons byte rest induction =>
      rw [List.length_cons] at inside
      obtain ⟨found, foundEq⟩ := ch_returns buffer place nonneg (by omega)
      unfold beginsWith
      rw [foundEq]
      dsimp only
      split
      · exact induction (place + 1) (by omega) (by omega)
      · exact ⟨false, rfl⟩

end Inside

section Short

variable (search : EndSearch)

theorem lookAt_returns
    (inside : 0 ≤ search.bp)
    (whole : search.bp + 22 ≤ search.buffer.length)
    (length : Int) :
    ∃ back, search.lookAt length = .ok back ∧ ∀ places, back = some places → 0 < places := by
  obtain ⟨byte, byteEq⟩ := ch_returns search.buffer search.bp inside (by omega)
  obtain ⟨begins, beginsEq⟩ := beginsWith_returns search.buffer (search.bp + 1)
    [0x4B, 5, 6] (by omega)
    (by simp only [List.length_cons, List.length_nil]; omega)
  obtain ⟨comment, commentEq⟩ := sh_returns search.buffer (search.bp + 20)
    (by omega) (by omega)
  unfold EndSearch.lookAt
  rw [byteEq, beginsEq, commentEq]
  have goesBack : ∀ places : Int, 0 < places →
      ∃ back, (.ok (some places) : Except SearchFault (Option Int)) = .ok back ∧
        ∀ places, back = some places → 0 < places := by
    intro places positive
    exact ⟨_, rfl, fun _ same => Option.some.inj same ▸ positive⟩
  dsimp only
  split
  · exact goesBack 3 (by decide)
  split
  · exact goesBack 2 (by decide)
  split
  · exact goesBack 1 (by decide)
  split
  · cases begins with
    | false => exact goesBack 4 (by decide)
    | true =>
        dsimp only
        split
        · exact ⟨none, rfl, fun _ same => nomatch same⟩
        · exact goesBack 4 (by decide)
  · exact goesBack 4 (by decide)

theorem use_returns
    (inside : 0 ≤ search.bp)
    (whole : search.bp + 22 ≤ search.buffer.length)
    (entry : CurrentEntry) :
    ∃ last, search.use entry = .ok (true, last) := by
  obtain ⟨siz, sizEq⟩ := lg_returns search.buffer (search.bp + 12)
    (by omega) (by omega)
  obtain ⟨off, offEq⟩ := lg_returns search.buffer (search.bp + 16)
    (by omega) (by omega)
  obtain ⟨tot, totEq⟩ := sh_returns search.buffer (search.bp + 10)
    (by omega) (by omega)
  obtain ⟨sig, last, ran, _⟩ := BufferedFile.getBytes_returns
    (search.bufferedFile.seek_set_index
      (signed (UInt32.ofInt search.endpos - siz - off).toNat)).1 4
  unfold EndSearch.use
  rw [sizEq, offEq, totEq]
  dsimp only
  rw [ran]
  dsimp only
  split
  · exact ⟨_, rfl⟩
  · exact ⟨_, rfl⟩

end Short

/-- A file that is shorter than an end header is searched in one round. -/
theorem findEndOfCentralHeader_short
    {data : List UInt8}
    (short : data.length < endHdrSiz)
    {bufferSize : Nat}
    (entry : CurrentEntry)
    {buffer : List UInt8}
    (size : buffer.length = tmpBufferSize) :
    ∃ found last, JarFileParser.findEndOfCentralHeader ⟨.opened data bufferSize, entry⟩ buffer =
      .ok (found, last) := by
  unfold endHdrSiz at short
  unfold tmpBufferSize at size
  have lowest := endSearch_lowest data
  obtain ⟨bytes, file, ran, _⟩ := BufferedFile.getBytes_returns
    (((BufferedFile.opened data bufferSize).seek_fromEnd_index (-endHdrSiz) (by decide)
      (by unfold InRange endHdrSiz BufferedFile.opened; dsimp only; omega)).1) endHdrSiz
  have fileSize : (BufferedFile.opened data bufferSize).fileSize = data.length := rfl
  unfold JarFileParser.findEndOfCentralHeader
  dsimp only
  rw [ran, fileSize]
  dsimp only
  by_cases whole : bytes.length = endHdrSiz
  · rw [if_pos whole]
    unfold endHdrSiz at whole
    have length : (Ring.overwrite buffer 0 bytes).length = 64 :=
      (Ring.overwrite_length (by omega)).trans size
    generalize searchEq : EndSearch.mk file (Ring.overwrite buffer 0 bytes)
      ((data.length : Int) - endHdrSiz) 0 = search
    have bp : search.bp = 0 := by
      rw [← searchEq]
    have bufferEq : search.buffer.length = 64 := by
      rw [← searchEq]
      exact length
    have offset : search.currentOffset = (data.length : Int) - 22 := by
      rw [← searchEq]
      rfl
    obtain ⟨back, looked, positive⟩ := lookAt_returns search (by omega) (by omega)
      data.length
    unfold EndSearch.run
    rw [looked]
    cases back with
    | none =>
        obtain ⟨last, used⟩ := use_returns search (by omega) (by omega) entry
        exact ⟨true, last, used⟩
    | some places =>
        have positive := positive places rfl
        dsimp only
        unfold EndSearch.moveBack
        dsimp only
        rw [if_pos (by omega), if_pos]
        · exact ⟨_, _, rfl⟩
        · change search.currentOffset - (endSearch data).lowest ≤ 0
          omega
  · rw [if_neg whole]
    exact ⟨_, _, rfl⟩

/-! ## The search -/

/-- The answer of a search, and what it does to the entry. A header at the end of the file is
found wherever it is, another one only behind a local header and a central one. -/
def Answers (data : List UInt8) (entry : CurrentEntry) (found : Bool) (entry' : CurrentEntry) :
    Prop :=
  let headers := {place | EndsAt data place ∧
    (place + endHdrSiz = data.length ∨ locHdrSiz + cenHdrSiz ≤ place)}
  (∃ place, IsGreatest headers place ∧ found = true ∧ Used data place entry entry') ∨
    (headers = ∅ ∧ found = false ∧ entry' = entry)

/-- The window at first. -/
theorem Window.atEnd
    {data : List UInt8}
    (long : 22 ≤ data.length)
    {bufferedFile : BufferedFile}
    (reads : BufferedFile.Reads data bufferedFile)
    {buffer : List UInt8}
    (size : buffer.length = tmpBufferSize) :
    Window data
      { bufferedFile, buffer := Ring.overwrite buffer 0 (data.drop (data.length - 22))
        currentOffset := data.length - endHdrSiz, bp := 0 } where
  reads := reads
  size := by
    unfold tmpBufferSize at size ⊢
    refine (Ring.overwrite_length ?_).trans size
    rw [List.length_drop]
    omega
  offset_nonneg := by
    unfold endHdrSiz
    dsimp only
    omega
  bp_le := (by decide : (0 : Int) ≤ 42)
  endpos_le := by
    unfold EndSearch.endpos endHdrSiz
    dsimp only
    omega
  contents := by
    intro place inside before
    unfold endHdrSiz at before ⊢
    dsimp only at before ⊢
    unfold Ring.overwrite
    rw [List.take_zero, List.nil_append, List.getElem?_append_left (by rw [List.length_drop]; omega),
      List.getElem?_drop]
    congr 1
    omega

/-- The loop answers as the scan ends. -/
theorem findEndOfCentralHeader_scan
    {data : List UInt8}
    (small : data.length < 2147483648)
    (long : endHdrSiz ≤ data.length)
    (parser : JarFileParser)
    (reads : BufferedFile.Reads data parser.bufferedFile)
    {buffer : List UInt8}
    (size : buffer.length = tmpBufferSize) :
    match endScan data with
    | .found place =>
        0 ≤ place ∧ ∃ last, parser.findEndOfCentralHeader buffer = .ok (true, last) ∧
          Used data place.toNat parser.currentEntry last.currentEntry
    | .exhausted =>
        ∃ last, parser.findEndOfCentralHeader buffer = .ok (false, last) ∧
          last.currentEntry = parser.currentEntry
    | .overstepped => parser.findEndOfCentralHeader buffer = .error .outsideBuffer
    | .unfinished => True := by
  have fileSize : parser.bufferedFile.fileSize = data.length := by
    obtain ⟨_, cursor, tracks, rfl⟩ := reads
    exact tracks.size
  obtain ⟨last, ran, lastReads⟩ := reads.at_end small long
  have window := Window.atEnd long lastReads size
  have bytesLength : (data.drop (data.length - endHdrSiz)).length = endHdrSiz := by
    rw [List.length_drop]
    omega
  have found : parser.findEndOfCentralHeader buffer =
      EndSearch.run data.length (endSearch data).lowest parser.currentEntry (data.length + 2)
        { bufferedFile := last
          buffer := Ring.overwrite buffer 0 (data.drop (data.length - endHdrSiz))
          currentOffset := data.length - endHdrSiz, bp := 0 } := by
    unfold JarFileParser.findEndOfCentralHeader
    rw [ran, fileSize]
    dsimp only
    rw [if_pos bytesLength]
    rfl
  have ended := window.run small parser.currentEntry (data.length + 2) (by decide : (-4 : Int) ≤ 0)
  rw [found]
  unfold EndSearch.endpos at ended
  rw [Int.add_zero] at ended
  exact ended

/-- Headers are where the scan looks for them. -/
theorem EndsAt.candidate
    {data : List UInt8} {place : Nat}
    (ends : EndsAt data place) :
    (place : Int) ≤ data.length - endHdrSiz ∧
      (place + endHdrSiz = data.length ∨ locHdrSiz + cenHdrSiz ≤ place ↔
        (place : Int) = data.length - endHdrSiz ∨ (endSearch data).lowest ≤ place) := by
  have lowest := endSearch_lowest data
  have reaches := ends.2
  have bound := field_lt data (place + 20) 2
  unfold endHdrSiz locHdrSiz cenHdrSiz at *
  omega

/-- The greatest header is found, unless the scan looks in front of its window. A file that is
shorter than a header is answered in any case. -/
theorem findEndOfCentralHeader_answers
    (data : List UInt8)
    (small : data.length < 2147483648)
    (bufferSize : Nat)
    (room : 0 < bufferSize)
    (entry : CurrentEntry)
    (buffer : List UInt8)
    (size : buffer.length = tmpBufferSize)
    (within : endScan data ≠ .overstepped) :
    ∃ found last, JarFileParser.findEndOfCentralHeader ⟨.opened data bufferSize, entry⟩ buffer =
        .ok (found, last) ∧
      (endHdrSiz ≤ data.length → Answers data entry found last.currentEntry) := by
  by_cases long : endHdrSiz ≤ data.length
  · have reads : BufferedFile.Reads data (.opened data bufferSize) :=
      ⟨room, _, BufferedFile.opened_tracks data bufferSize, rfl⟩
    have searched := findEndOfCentralHeader_scan small long
      ⟨.opened data bufferSize, entry⟩ reads size
    have lowest := endSearch_lowest data
    unfold endHdrSiz at long
    rcases Search.scan_greatest (endSearch_skips data) (data.length + 2)
      ((data.length : Int) - endHdrSiz) (by unfold endHdrSiz; omega) within with
      ⟨place, ended, greatest⟩ | ⟨ended, none⟩
    · have found : endScan data = .found place := ended
      rw [found] at searched
      obtain ⟨nonneg, last, ran, used⟩ := searched
      refine ⟨true, last, ran, fun _ => .inl ⟨place.toNat, ⟨?_, ?_⟩, rfl, used⟩⟩
      · obtain ⟨hit, atMost, candidate⟩ := greatest.1
        simp only [endSearch, decide_eq_true_eq] at hit
        refine ⟨hit.2, hit.2.candidate.2.mpr ?_⟩
        rw [Int.toNat_of_nonneg nonneg]
        exact candidate
      · rintro other ⟨ends, candidate⟩
        obtain ⟨atMost, candidate_iff⟩ := ends.candidate
        have hit : (endSearch data).hit other = true := by
          simp only [endSearch, decide_eq_true_eq]
          exact ⟨Int.natCast_nonneg _, ends⟩
        have above := greatest.2 ⟨hit, atMost, candidate_iff.mp candidate⟩
        omega
    · have exhausted : endScan data = .exhausted := ended
      rw [exhausted] at searched
      obtain ⟨last, ran, same⟩ := searched
      refine ⟨false, last, ran, fun _ => .inr ⟨?_, rfl, same⟩⟩
      refine Set.eq_empty_of_forall_notMem ?_
      rintro place ⟨ends, candidate⟩
      have missed := none place ends.candidate.1 (ends.candidate.2.mp candidate)
      simp only [endSearch, decide_eq_false_iff_not] at missed
      exact missed ⟨Int.natCast_nonneg _, ends⟩
  · obtain ⟨found, last, ran⟩ := findEndOfCentralHeader_short (Nat.not_le.mp long) entry size
    exact ⟨found, last, ran, fun long' => absurd long' long⟩

/-- An archive with a comment that begins as a header does. -/
def commentedArchive : List UInt8 :=
  List.replicate 76 0 ++ [0x50, 0x4B, 5, 6] ++ List.replicate 16 0 ++ [6, 0] ++
    [0x50, 0x4B, 5, 6, 0, 0]

theorem commentedArchive_answers :
    ∃ found last, JarFileParser.findEndOfCentralHeader ⟨.opened commentedArchive 512, ⟨0, 0, 0, 0⟩⟩
        (List.replicate 64 0) = .ok (found, last) ∧
      (endHdrSiz ≤ commentedArchive.length →
        Answers commentedArchive ⟨0, 0, 0, 0⟩ found last.currentEntry) :=
  findEndOfCentralHeader_answers commentedArchive (by decide) 512 (by decide) ⟨0, 0, 0, 0⟩
    (List.replicate 64 0) (by decide) (by decide)

/-- An empty archive with a comment of one byte is not found. -/
theorem emptyArchive_missed :
    EndsAt ([0x50, 0x4B, 5, 6] ++ List.replicate 16 0 ++ [1, 0, 33]) 0 ∧
      (JarFileParser.findEndOfCentralHeader
          ⟨.opened ([0x50, 0x4B, 5, 6] ++ List.replicate 16 0 ++ [1, 0, 33]) 512, ⟨0, 0, 0, 0⟩⟩
          (List.replicate 64 0)).map Prod.fst = .ok false := by
  decide

/-- With one place left in front of the window, a step of four goes in front of it. -/
theorem zeros_outside :
    (JarFileParser.findEndOfCentralHeader ⟨.opened (List.replicate 99 0) 512, ⟨0, 0, 0, 0⟩⟩
      (List.replicate 64 0)).map Prod.fst = .error .outsideBuffer := by
  decide

end PicoJvm.Files
