import PicoJvm.Files.EndHeader
import PicoJvm.Files.EntryEnumeration
import PicoJvm.Lib.Fallible
import PicoJvm.Lib.Trail

/-!
# The central directory of an archive

The headers of the directory stand one behind the other. Reading the next entry is looking at the
header where the parser stands.
-/

namespace PicoJvm.Files

open PicoJvm.Lib
open PicoJvm.Lib.Machine
open PicoJvm.Lib.Fallible

/-! ## Archives -/

/-- A header of the directory is at a place. -/
def HeaderAt (data : List UInt8) (place : Nat) : Prop :=
  field data place 4 = 0x02014B50 ∧ place + cenHdrSiz ≤ data.length

instance (data : List UInt8) (place : Nat) : Decidable (HeaderAt data place) :=
  inferInstanceAs (Decidable (_ ∧ _))

def nameLength (data : List UInt8) (place : Nat) : Nat :=
  field data (place + 28) 2

/-- The name of the entry whose header is at a place. -/
def nameAt (data : List UInt8) (place : Nat) : List UInt8 :=
  (data.drop (place + cenHdrSiz)).take (nameLength data place)

/-- The place behind a header: its name, its extra field and its comment are skipped. -/
def headerEnd (data : List UInt8) (place : Nat) : Nat :=
  place + (cenHdrSiz + nameLength data place + field data (place + 30) 2 +
    field data (place + 32) 2)

/-- From a header that is whole to the place behind it. -/
def NextHeader (data : List UInt8) (place next : Nat) : Prop :=
  HeaderAt data place ∧ next = headerEnd data place ∧ next ≤ data.length

instance (data : List UInt8) (place next : Nat) : Decidable (NextHeader data place next) :=
  inferInstanceAs (Decidable (_ ∧ _ ∧ _))

/-- A JAR file with its directory. What is told to be a local header is not before the file. -/
structure Archive where
  data : List UInt8
  cenOffset : Nat
  locOffset : UInt32
  places : List Nat
  last : Nat
  small : data.length < 2147483648
  directory : Trail (NextHeader data) cenOffset places last
  ends : ¬ HeaderAt data last
  inside : last ≤ data.length
  localHeaders : ∀ place ∈ places,
    (locOffset + UInt32.ofNat (field data (place + 42) 4)).toNat < 2147483648

theorem nextHeader_forward (data : List UInt8) : Forward (NextHeader data) := by
  intro here next step
  rw [step.2.1, headerEnd, cenHdrSiz]
  omega

namespace Archive

variable (archive : Archive)

/-- A parser of the archive, wherever it stands. -/
structure Opened (parser : EntryParser) : Prop where
  held : BufferedFile.Held archive.data parser.bufferedFile
  locOffset : parser.currentEntry.locOffset = archive.locOffset

/-- It stands at the beginning of the directory, as a parser does that is made. -/
structure Fresh (parser : EntryParser) : Prop extends Opened archive parser where
  atFirst : parser.currentEntry.nextCenOffset.toNat = archive.cenOffset

/-- It has read a header whose local header is not before the file. -/
structure AtEntry (parser : EntryParser) : Prop extends Opened archive parser where
  localHeader : (archive.locOffset +
    UInt32.ofNat (field parser.centralHeader.bytes 42 4)).toNat < 2147483648

end Archive

/-! ## Fields of a header -/

theorem ch_inside
    {buffer : List UInt8} {place : Nat}
    (inside : place < buffer.length) :
    ch buffer place = .ok (buffer.getD place 0) := by
  rw [ch, if_neg (by omega), Int.toNat_natCast, List.getD_eq_getElem?_getD,
    List.getElem?_eq_getElem inside]
  rfl

theorem sh_inside
    {buffer : List UInt8}
    (place : Int)
    (offset : Nat)
    (same : place = offset)
    (inside : offset + 2 ≤ buffer.length) :
    sh buffer place = .ok (field buffer offset 2) := by
  have low := ch_inside (show offset < buffer.length by omega)
  have high := ch_inside (show offset + 1 < buffer.length by omega)
  rw [Int.natCast_add, Int.natCast_one] at high
  rw [same, sh, low, high, field_add 1 (by omega) 1, field_one (by omega), field_one (by omega)]
  apply congrArg Except.ok
  rw [or_shiftLeft (UInt8.toNat_lt _)]
  rfl

theorem lg_inside
    {buffer : List UInt8}
    (place : Int)
    (offset : Nat)
    (same : place = offset)
    (inside : offset + 4 ≤ buffer.length) :
    lg buffer place = .ok (UInt32.ofNat (field buffer offset 4)) := by
  have low := sh_inside place offset same (show offset + 2 ≤ buffer.length by omega)
  have high := sh_inside (place + 2) (offset + 2) (by omega) inside
  have bound := field_lt buffer offset 2
  rw [lg, low, high, field_add 2 (by omega) 2]
  apply congrArg fun value => Except.ok (UInt32.ofNat value)
  rw [or_shiftLeft bound]
  rfl

/-- Numbers of a piece of a file. -/
theorem field_cut
    {place size num : Nat}
    (data : List UInt8)
    (start : Nat)
    (inside : place + size ≤ num) :
    field ((data.drop start).take num) place size = field data (start + place) size := by
  rw [field, List.drop_take, List.take_take, Nat.min_eq_left (by omega), List.drop_drop, field]

theorem CentralHeader.fill_bytes
    (header : CentralHeader)
    {bytes : List UInt8}
    (whole : bytes.length = cenHdrSiz) :
    (header.fill bytes).bytes = bytes := by
  have nothing : header.bytes.drop (0 + bytes.length) = [] := by
    apply List.drop_of_length_le
    rw [header.size, whole, Nat.zero_add]
  simp only [fill, Ring.overwrite, nothing, List.take_zero, List.nil_append, List.append_nil]
  exact List.take_of_length_le (Nat.le_of_eq whole)

theorem readBytes_of_getBytes
    {file last : BufferedFile} {num : Nat} {bytes : List UInt8}
    (ran : file.getBytes num true = .ok (bytes, last)) :
    readBytes file num = .ok (bytes, last) := by
  rw [readBytes, ran]
  rfl

/-! ## Reading the next entry -/

section Reading

variable {archive : Archive} {parser : EntryParser} {place : Nat}

/-- At a header that is not whole, or at something else, nothing is found. -/
theorem findEntry_notFound
    (opened : archive.Opened parser)
    (atPlace : parser.currentEntry.nextCenOffset.toNat = place)
    (inside : place ≤ archive.data.length)
    (noHeader : ¬ HeaderAt archive.data place) :
    ∃ parser', parser.findEntry = .ok (false, parser') ∧ archive.Opened parser' ∧
      parser'.currentEntry = parser.currentEntry := by
  have small := archive.small
  obtain ⟨last, ran, heldAt⟩ := opened.held.at_set small
    (show place < 2147483648 by omega) cenHdrSiz
  have inRange : signed (place : Int) = place := by
    apply signed_of_inRange
    unfold InRange
    omega
  have sought : parser.findEntry = _ >>= _ := rfl
  rw [atPlace, inRange, readBytes_of_getBytes ran, ok_bind] at sought
  dsimp only at sought
  by_cases short : ((archive.data.drop place).take cenHdrSiz).length ≠ cenHdrSiz
  · rw [if_pos short] at sought
    exact ⟨_, sought, ⟨heldAt.held, opened.locOffset⟩, rfl⟩
  · have whole := not_not.mp short
    have length : place + cenHdrSiz ≤ archive.data.length := by
      rw [List.length_take, List.length_drop] at whole
      unfold cenHdrSiz at whole ⊢
      omega
    have sig : field archive.data place 4 ≠ 0x02014B50 := by
      intro sig
      exact noHeader ⟨sig, length⟩
    have otherSig : UInt32.ofNat (field archive.data place 4) ≠ cenSig := by
      intro same
      apply sig
      have bound := field_lt archive.data place 4
      have number := congrArg UInt32.toNat same
      rw [UInt32.toNat_ofNat_of_lt' bound] at number
      exact number
    rw [if_neg short, CentralHeader.fill_bytes _ whole,
      lg_inside 0 0 rfl (by rw [whole]; decide), ok_bind,
      field_cut _ _ (by decide), Nat.add_zero, if_pos otherSig] at sought
    exact ⟨_, sought, ⟨heldAt.held, opened.locOffset⟩, rfl⟩

theorem findEntry_found
    (opened : archive.Opened parser)
    (atPlace : parser.currentEntry.nextCenOffset.toNat = place)
    (header : HeaderAt archive.data place) :
    ∃ parser', parser.findEntry = .ok (true, parser') ∧
      BufferedFile.HeldAt archive.data parser'.bufferedFile (place + cenHdrSiz) ∧
        parser'.currentEntry = parser.currentEntry ∧
          parser'.centralHeader.bytes = (archive.data.drop place).take cenHdrSiz := by
  have small := archive.small
  obtain ⟨sig, length⟩ := header
  obtain ⟨last, ran, heldAt⟩ := opened.held.at_set small
    (show place < 2147483648 by omega) cenHdrSiz
  have inRange : signed (place : Int) = place := by
    apply signed_of_inRange
    unfold InRange
    omega
  have whole : ((archive.data.drop place).take cenHdrSiz).length = cenHdrSiz := by
    rw [List.length_take, List.length_drop]
    omega
  have sameSig : UInt32.ofNat (field archive.data place 4) = cenSig := congrArg UInt32.ofNat sig
  have sought : parser.findEntry = _ >>= _ := rfl
  rw [atPlace, inRange, readBytes_of_getBytes ran, ok_bind] at sought
  dsimp only at sought
  rw [if_neg (not_not.mpr whole), CentralHeader.fill_bytes _ whole,
    lg_inside 0 0 rfl (by rw [whole]; decide), ok_bind, field_cut _ _ (by decide), Nat.add_zero,
    if_neg (not_not.mpr sameSig), lg_inside 24 24 rfl (by rw [whole]; decide),
    ok_bind] at sought
  rw [whole, Nat.min_eq_left (by omega)] at heldAt
  exact ⟨_, sought, heldAt, rfl, CentralHeader.fill_bytes _ whole⟩

/-- What is read at a header: its name and the place behind it, unless the name is too long. -/
theorem readNext_header
    (opened : archive.Opened parser)
    (atPlace : parser.currentEntry.nextCenOffset.toNat = place)
    {next : Nat}
    (step : NextHeader archive.data place next)
    (localHeader : (archive.locOffset +
      UInt32.ofNat (field archive.data (place + 42) 4)).toNat < 2147483648) :
    ∃ parser' found, parser.readNext = .ok (found, parser') ∧ archive.AtEntry parser' ∧
      (found = .unreadable ∧ maxEntryName ≤ nameLength archive.data place ∨
        found = .entry (nameAt archive.data place) (UInt32.ofNat next)) := by
  have small := archive.small
  obtain ⟨header, nextEq, nextInside⟩ := step
  obtain ⟨parser', found, heldAt, sameEntry, bytes⟩ := findEntry_found opened atPlace header
  have headerSize := parser'.centralHeader.size
  have sixteen : ∀ offset : Nat, offset + 2 ≤ 46 →
      sh parser'.centralHeader.bytes offset = .ok (field archive.data (place + offset) 2) := by
    intro offset fits
    rw [sh_inside offset offset rfl (by rw [headerSize]; exact fits), bytes,
      field_cut archive.data place (show offset + 2 ≤ cenHdrSiz from fits)]
  have atEntry : archive.AtEntry parser' := by
    refine ⟨⟨heldAt.held, ?_⟩, ?_⟩
    · rw [sameEntry]
      exact opened.locOffset
    · rw [bytes, field_cut _ _ (by decide)]
      exact localHeader
  have sameLength : field archive.data (place + 28) 2 = nameLength archive.data place := rfl
  have read : parser.readNext = _ >>= _ := rfl
  rw [found, ok_bind] at read
  dsimp only at read
  rw [if_pos rfl, show (28 : Int) = (28 : Nat) from rfl, sixteen 28 (by decide), ok_bind,
    sameLength] at read
  by_cases long : nameLength archive.data place ≥ maxEntryName
  · rw [if_pos long] at read
    exact ⟨parser', .unreadable, read, atEntry, .inl ⟨rfl, long⟩⟩
  · obtain ⟨last, ran, lastAt⟩ := heldAt.getBytes small (.inr (by unfold cenHdrSiz; omega))
      (nameLength archive.data place)
    have whole : (nameAt archive.data place).length = nameLength archive.data place := by
      rw [headerEnd] at nextEq
      rw [nameAt, List.length_take, List.length_drop]
      omega
    have behind : parser'.currentEntry.nextCenOffset + UInt32.ofNat
        (cenHdrSiz + nameLength archive.data place + field archive.data (place + 30) 2 +
          field archive.data (place + 32) 2) = UInt32.ofNat next := by
      have start : parser'.currentEntry.nextCenOffset = UInt32.ofNat place := by
        rw [sameEntry, ← atPlace, UInt32.ofNat_toNat]
      rw [nextEq, headerEnd, UInt32.ofNat_add place, start]
    rw [if_neg long, show (30 : Int) = (30 : Nat) from rfl, sixteen 30 (by decide), ok_bind,
      show (32 : Int) = (32 : Nat) from rfl, sixteen 32 (by decide), ok_bind,
      readBytes_of_getBytes ran, ok_bind] at read
    dsimp only at read
    rw [← nameAt, if_neg (not_not.mpr whole), behind] at read
    exact ⟨_, _, read, ⟨⟨lastAt.held, atEntry.locOffset⟩, atEntry.localHeader⟩, .inr rfl⟩

theorem readNext_end
    (opened : archive.Opened parser)
    (atPlace : parser.currentEntry.nextCenOffset.toNat = place)
    (inside : place ≤ archive.data.length)
    (noHeader : ¬ HeaderAt archive.data place) :
    ∃ parser', parser.readNext = .ok (.notFound, parser') ∧ archive.Opened parser' := by
  obtain ⟨parser', found, opened', sameEntry⟩ :=
    findEntry_notFound opened atPlace inside noHeader
  refine ⟨parser', ?_, opened'⟩
  rw [EntryParser.readNext, found]
  rfl

end Reading

/-! ## Loading an entry -/

section Loading

variable {archive : Archive} {parser : EntryParser}

theorem openEntry_returns (atEntry : archive.AtEntry parser) :
    ∃ decoder parser', parser.openEntry = .ok (decoder, parser') ∧ archive.AtEntry parser' := by
  have small := archive.small
  have headerSize := parser.centralHeader.size
  have opening : parser.openEntry = _ >>= _ := rfl
  rw [sh_inside 8 8 rfl (by rw [headerSize]; decide), ok_bind] at opening
  by_cases encrypted : field parser.centralHeader.bytes 8 2 &&& 1 = 1
  · rw [if_pos encrypted] at opening
    exact ⟨none, parser, opening, atEntry⟩
  · obtain ⟨place, placeEq, fits⟩ : ∃ place : UInt32,
        parser.localPlace = .ok place ∧ place.toNat < 2147483648 := by
      refine ⟨_, ?_, atEntry.localHeader⟩
      rw [EntryParser.localPlace, lg_inside 42 42 rfl (by rw [headerSize]; decide), ok_bind,
        atEntry.locOffset]
    have inRange : signed (place.toNat : Int) = place.toNat := by
      apply signed_of_inRange
      unfold InRange
      omega
    obtain ⟨last, ran, heldAt⟩ := atEntry.held.at_set small fits locHdrSiz
    rw [if_neg encrypted, placeEq, ok_bind, inRange, readBytes_of_getBytes ran, ok_bind] at opening
    dsimp only at opening
    by_cases short : ((archive.data.drop place.toNat).take locHdrSiz).length ≠ locHdrSiz
    · rw [if_pos short] at opening
      exact ⟨none, _, opening, ⟨heldAt.held, atEntry.locOffset⟩, atEntry.localHeader⟩
    · have whole := not_not.mp short
      rw [if_neg short, sh_inside 26 26 rfl (by rw [whole]; decide), ok_bind,
        sh_inside 28 28 rfl (by rw [whole]; decide), ok_bind] at opening
      generalize skippedEq : last.seek _ .cur = skipped at opening
      have skippedHeld : BufferedFile.Held archive.data skipped := by
        rw [← skippedEq]
        exact heldAt.held.seek_cur _
      obtain ⟨decoder, switched⟩ : ∃ decoder, EntryParser.decoderFor
          { parser with bufferedFile := skipped } = .ok decoder := by
        unfold EntryParser.decoderFor
        dsimp only
        rw [lg_inside 24 24 rfl (by rw [headerSize]; decide), ok_bind,
          lg_inside 20 20 rfl (by rw [headerSize]; decide), ok_bind,
          sh_inside 10 10 rfl (by rw [headerSize]; decide), ok_bind,
          lg_inside 16 16 rfl (by rw [headerSize]; decide), ok_bind]
        split
        · exact ⟨_, rfl⟩
        · split
          · exact ⟨_, rfl⟩
          · exact ⟨_, rfl⟩
      rw [switched, ok_bind] at opening
      exact ⟨decoder, _, opening, ⟨skippedHeld, atEntry.locOffset⟩, atEntry.localHeader⟩

/-- Loading leaves the parser at its entry, wherever the decoder leaves the handle. -/
theorem loadEntry_returns
    (decode : Decode)
    (pending : Bool)
    (atEntry : archive.AtEntry parser) :
    ∃ loaded parser', parser.loadEntry decode pending = .ok (loaded, parser') ∧
      archive.AtEntry parser' := by
  obtain ⟨decoder, parser', opening, atEntry'⟩ := openEntry_returns atEntry
  have loading : parser.loadEntry decode pending = _ >>= _ := rfl
  rw [opening, ok_bind] at loading
  dsimp only at loading
  cases pending with
  | true =>
      exact ⟨_, _, loading, atEntry'⟩
  | false =>
      cases decoder with
      | none =>
          exact ⟨_, _, loading, atEntry'⟩
      | some decoder =>
          refine ⟨_, _, loading, ⟨?_, atEntry'.locOffset⟩, atEntry'.localHeader⟩
          exact atEntry'.held.withPointer _

end Loading

end PicoJvm.Files
