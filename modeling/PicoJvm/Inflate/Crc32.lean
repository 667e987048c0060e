import PicoJvm.Lib.CyclicRedundancy

/-!
# The check of an inflated entry

The sum over the bytes of an entry, bit by bit and from a table, and what it finds out about the
bytes that were inflated.
-/

namespace PicoJvm.Inflate

open PicoJvm.Lib

/-! ## The sum -/

/-- The polynomial of `Inflater::crc32`. -/
def crcPolynomial : BitVec 32 := 0xedb88320#32

/-- `_fast_crc32_table`. -/
def fastCrc32Table : List (BitVec 32) :=
  [0x00000000#32, 0x77073096#32, 0xEE0E612C#32, 0x990951BA#32, 0x076DC419#32, 0x706AF48F#32,
   0xE963A535#32, 0x9E6495A3#32, 0x0EDB8832#32, 0x79DCB8A4#32, 0xE0D5E91E#32, 0x97D2D988#32,
   0x09B64C2B#32, 0x7EB17CBD#32, 0xE7B82D07#32, 0x90BF1D91#32, 0x1DB71064#32, 0x6AB020F2#32,
   0xF3B97148#32, 0x84BE41DE#32, 0x1ADAD47D#32, 0x6DDDE4EB#32, 0xF4D4B551#32, 0x83D385C7#32,
   0x136C9856#32, 0x646BA8C0#32, 0xFD62F97A#32, 0x8A65C9EC#32, 0x14015C4F#32, 0x63066CD9#32,
   0xFA0F3D63#32, 0x8D080DF5#32, 0x3B6E20C8#32, 0x4C69105E#32, 0xD56041E4#32, 0xA2677172#32,
   0x3C03E4D1#32, 0x4B04D447#32, 0xD20D85FD#32, 0xA50AB56B#32, 0x35B5A8FA#32, 0x42B2986C#32,
   0xDBBBC9D6#32, 0xACBCF940#32, 0x32D86CE3#32, 0x45DF5C75#32, 0xDCD60DCF#32, 0xABD13D59#32,
   0x26D930AC#32, 0x51DE003A#32, 0xC8D75180#32, 0xBFD06116#32, 0x21B4F4B5#32, 0x56B3C423#32,
   0xCFBA9599#32, 0xB8BDA50F#32, 0x2802B89E#32, 0x5F058808#32, 0xC60CD9B2#32, 0xB10BE924#32,
   0x2F6F7C87#32, 0x58684C11#32, 0xC1611DAB#32, 0xB6662D3D#32, 0x76DC4190#32, 0x01DB7106#32,
   0x98D220BC#32, 0xEFD5102A#32, 0x71B18589#32, 0x06B6B51F#32, 0x9FBFE4A5#32, 0xE8B8D433#32,
   0x7807C9A2#32, 0x0F00F934#32, 0x9609A88E#32, 0xE10E9818#32, 0x7F6A0DBB#32, 0x086D3D2D#32,
   0x91646C97#32, 0xE6635C01#32, 0x6B6B51F4#32, 0x1C6C6162#32, 0x856530D8#32, 0xF262004E#32,
   0x6C0695ED#32, 0x1B01A57B#32, 0x8208F4C1#32, 0xF50FC457#32, 0x65B0D9C6#32, 0x12B7E950#32,
   0x8BBEB8EA#32, 0xFCB9887C#32, 0x62DD1DDF#32, 0x15DA2D49#32, 0x8CD37CF3#32, 0xFBD44C65#32,
   0x4DB26158#32, 0x3AB551CE#32, 0xA3BC0074#32, 0xD4BB30E2#32, 0x4ADFA541#32, 0x3DD895D7#32,
   0xA4D1C46D#32, 0xD3D6F4FB#32, 0x4369E96A#32, 0x346ED9FC#32, 0xAD678846#32, 0xDA60B8D0#32,
   0x44042D73#32, 0x33031DE5#32, 0xAA0A4C5F#32, 0xDD0D7CC9#32, 0x5005713C#32, 0x270241AA#32,
   0xBE0B1010#32, 0xC90C2086#32, 0x5768B525#32, 0x206F85B3#32, 0xB966D409#32, 0xCE61E49F#32,
   0x5EDEF90E#32, 0x29D9C998#32, 0xB0D09822#32, 0xC7D7A8B4#32, 0x59B33D17#32, 0x2EB40D81#32,
   0xB7BD5C3B#32, 0xC0BA6CAD#32, 0xEDB88320#32, 0x9ABFB3B6#32, 0x03B6E20C#32, 0x74B1D29A#32,
   0xEAD54739#32, 0x9DD277AF#32, 0x04DB2615#32, 0x73DC1683#32, 0xE3630B12#32, 0x94643B84#32,
   0x0D6D6A3E#32, 0x7A6A5AA8#32, 0xE40ECF0B#32, 0x9309FF9D#32, 0x0A00AE27#32, 0x7D079EB1#32,
   0xF00F9344#32, 0x8708A3D2#32, 0x1E01F268#32, 0x6906C2FE#32, 0xF762575D#32, 0x806567CB#32,
   0x196C3671#32, 0x6E6B06E7#32, 0xFED41B76#32, 0x89D32BE0#32, 0x10DA7A5A#32, 0x67DD4ACC#32,
   0xF9B9DF6F#32, 0x8EBEEFF9#32, 0x17B7BE43#32, 0x60B08ED5#32, 0xD6D6A3E8#32, 0xA1D1937E#32,
   0x38D8C2C4#32, 0x4FDFF252#32, 0xD1BB67F1#32, 0xA6BC5767#32, 0x3FB506DD#32, 0x48B2364B#32,
   0xD80D2BDA#32, 0xAF0A1B4C#32, 0x36034AF6#32, 0x41047A60#32, 0xDF60EFC3#32, 0xA867DF55#32,
   0x316E8EEF#32, 0x4669BE79#32, 0xCB61B38C#32, 0xBC66831A#32, 0x256FD2A0#32, 0x5268E236#32,
   0xCC0C7795#32, 0xBB0B4703#32, 0x220216B9#32, 0x5505262F#32, 0xC5BA3BBE#32, 0xB2BD0B28#32,
   0x2BB45A92#32, 0x5CB36A04#32, 0xC2D7FFA7#32, 0xB5D0CF31#32, 0x2CD99E8B#32, 0x5BDEAE1D#32,
   0x9B64C2B0#32, 0xEC63F226#32, 0x756AA39C#32, 0x026D930A#32, 0x9C0906A9#32, 0xEB0E363F#32,
   0x72076785#32, 0x05005713#32, 0x95BF4A82#32, 0xE2B87A14#32, 0x7BB12BAE#32, 0x0CB61B38#32,
   0x92D28E9B#32, 0xE5D5BE0D#32, 0x7CDCEFB7#32, 0x0BDBDF21#32, 0x86D3D2D4#32, 0xF1D4E242#32,
   0x68DDB3F8#32, 0x1FDA836E#32, 0x81BE16CD#32, 0xF6B9265B#32, 0x6FB077E1#32, 0x18B74777#32,
   0x88085AE6#32, 0xFF0F6A70#32, 0x66063BCA#32, 0x11010B5C#32, 0x8F659EFF#32, 0xF862AE69#32,
   0x616BFFD3#32, 0x166CCF45#32, 0xA00AE278#32, 0xD70DD2EE#32, 0x4E048354#32, 0x3903B3C2#32,
   0xA7672661#32, 0xD06016F7#32, 0x4969474D#32, 0x3E6E77DB#32, 0xAED16A4A#32, 0xD9D65ADC#32,
   0x40DF0B66#32, 0x37D83BF0#32, 0xA9BCAE53#32, 0xDEBB9EC5#32, 0x47B2CF7F#32, 0x30B5FFE9#32,
   0xBDBDF21C#32, 0xCABAC28A#32, 0x53B39330#32, 0x24B4A3A6#32, 0xBAD03605#32, 0xCDD70693#32,
   0x54DE5729#32, 0x23D967BF#32, 0xB3667A2E#32, 0xC4614AB8#32, 0x5D681B02#32, 0x2A6F2B94#32,
   0xB40BBE37#32, 0xC30C8EA1#32, 0x5A05DF1B#32, 0x2D02EF8D#32]

/-- A round of the loop of `Inflater::crc32` without the table. -/
def crcByte (crc : BitVec 32) (data : BitVec 8) : BitVec 32 :=
  (fun crc => if crc &&& 1#32 ≠ 0#32 then (crc >>> 1) ^^^ crcPolynomial else crc >>> 1)^[8]
    (crc ^^^ data.setWidth 32)

/-- `Inflater::crc32`, compiled without `ENABLE_FAST_CRC32`. -/
def plainCrc32 (data : List (BitVec 8)) : BitVec 32 :=
  ~~~(data.foldl crcByte 0xFFFFFFFF#32)

/-- One of the four statements of the unrolled loop. -/
def fastCrcByte (crc : BitVec 32) (data : BitVec 8) : BitVec 32 :=
  fastCrc32Table.getD ((crc ^^^ data.setWidth 32) &&& 0xFF#32).toNat 0 ^^^ (crc >>> 8)

/-- The loop from its top. There is no result when it reads behind the end. -/
def crcRounds (crc : BitVec 32) : List (BitVec 8) → Option (BitVec 32)
  | [] => some crc
  | first :: second :: third :: fourth :: rest =>
      crcRounds (fastCrcByte (fastCrcByte (fastCrcByte (fastCrcByte crc first) second) third)
        fourth) rest
  | _ => none

/-- `Inflater::crc32`. The loop is entered at the statement that leaves whole rounds. -/
def crc32 (data : List (BitVec 8)) : Option (BitVec 32) :=
  let first := data.take (data.length % 4)
  (crcRounds (first.foldl fastCrcByte 0xFFFFFFFF#32) (data.drop (data.length % 4))).map (~~~ ·)

/-! ## The table -/

theorem crcByte_eq : crcByte = takeByte crcPolynomial := by
  have same : (fun crc : BitVec 32 =>
      if crc &&& 1#32 ≠ 0#32 then (crc >>> 1) ^^^ crcPolynomial else crc >>> 1) =
        shiftBit crcPolynomial := by
    funext crc
    have lowest : (crc &&& 1#32 ≠ 0#32) ↔ crc.getLsbD 0 = true := by
      rw [BitVec.and_one_eq_setWidth_ofBool_getLsbD]
      cases crc.getLsbD 0 <;> decide
    simp only [shiftBit, lowest]
  funext crc data
  rw [crcByte, same, takeByte]

theorem fastCrc32Table_eq :
    fastCrc32Table =
      (List.range 256).map fun index => (shiftBit crcPolynomial)^[8] (BitVec.ofNat 32 index) := by
  decide +kernel

theorem fastCrc32Table_getD
    {index : Nat}
    (inside : index < 256) :
    fastCrc32Table.getD index 0 = (shiftBit crcPolynomial)^[8] (BitVec.ofNat 32 index) := by
  rw [fastCrc32Table_eq, List.getD_eq_getElem _ _ (by simpa using inside), List.getElem_map,
    List.getElem_range]

theorem fastCrcByte_eq : fastCrcByte = takeByte crcPolynomial := by
  funext crc data
  let taken := crc ^^^ data.setWidth 32
  have lowByte : taken &&& 0xFF#32 = (taken.setWidth 8).setWidth 32 := by
    apply BitVec.eq_of_toNat_eq
    have mask : (0xFF#32).toNat = 2 ^ 8 - 1 := rfl
    rw [BitVec.toNat_and, mask, Nat.and_two_pow_sub_one_eq_mod, BitVec.toNat_setWidth,
      BitVec.toNat_setWidth]
    omega
  have inTable : (taken &&& 0xFF#32).toNat < 256 := by
    rw [lowByte, BitVec.toNat_setWidth]
    have isByte := (taken.setWidth 8).isLt
    omega
  have above : taken >>> 8 = crc >>> 8 := by
    apply BitVec.eq_of_getLsbD_eq
    intro index inside
    simp [taken]
  calc fastCrcByte crc data
      = fastCrc32Table.getD (taken &&& 0xFF#32).toNat 0 ^^^ (crc >>> 8) := rfl
    _ = (shiftBit crcPolynomial)^[8] ((taken.setWidth 8).setWidth 32) ^^^ (taken >>> 8) := by
        rw [fastCrc32Table_getD inTable, BitVec.ofNat_toNat, BitVec.setWidth_eq, lowByte, above]
    _ = takeByte crcPolynomial crc data := (shiftBits_eight taken).symm

theorem crcRounds_eq
    (data : List (BitVec 8))
    (whole : data.length % 4 = 0)
    (crc : BitVec 32) :
    crcRounds crc data = some (data.foldl fastCrcByte crc) := by
  fun_induction crcRounds crc data with
  | case1 crc =>
      rfl
  | case2 crc first second third fourth rest inductionHypothesis =>
      apply inductionHypothesis
      simp only [List.length_cons] at whole
      omega
  | case3 data crc notEmpty short =>
      rcases data with _ | ⟨first, _ | ⟨second, _ | ⟨third, _ | ⟨fourth, rest⟩⟩⟩⟩
      · exact absurd rfl notEmpty
      · simp at whole
      · simp at whole
      · simp at whole
      · exact absurd rfl (short first second third fourth rest)

/-- The sum is the remainder of the message. -/
theorem crc32_eq_remainder (data : List (BitVec 8)) :
    crc32 data = some (~~~remainderOf crcPolynomial 0xFFFFFFFF#32 data) := by
  have whole : (data.drop (data.length % 4)).length % 4 = 0 := by
    rw [List.length_drop]
    omega
  rw [crc32, crcRounds_eq _ whole, ← List.foldl_append, List.take_append_drop, fastCrcByte_eq]
  rfl

/-- The unrolled loop never reads behind the end, and comes to the sum of the plain one. -/
theorem crc32_eq_plain (data : List (BitVec 8)) :
    crc32 data = some (plainCrc32 data) := by
  rw [crc32_eq_remainder, plainCrc32, crcByte_eq]
  rfl

/-! ## Reading an entry -/

/-- The end of `do_inflate`. -/
inductive InflateStatus
  | error
  | complete
  deriving DecidableEq

/-- What the last `do_inflate` leaves. -/
structure Inflated where
  status : InflateStatus
  outOffset : Nat
  outBuffer : List (BitVec 8)

/-- `Inflater::read_completely`, after its loop. An entry of the image has no file and no sum. -/
def readCompletely (fileHandle : Bool) (fileSize : Nat) (expectedCrc : BitVec 32)
    (inflated : Inflated) : Option (List (BitVec 8)) :=
  if inflated.status = .error ∨ inflated.outOffset ≠ fileSize then none
  else if fileHandle then
    match crc32 (inflated.outBuffer.take fileSize) with
    | none => none
    | some actualCrc => if actualCrc ≠ expectedCrc then none else some inflated.outBuffer
  else some inflated.outBuffer

/-- An entry of a file that was inflated with other bytes than its content, all within four in a
row, is not delivered. -/
theorem readCompletely_detects
    {front window window' back : List (BitVec 8)} {expectedCrc : BitVec 32} {inflated : Inflated}
    (isSum : crc32 (front ++ window ++ back) = some expectedCrc)
    (complete : inflated.status = .complete)
    (atEnd : inflated.outOffset = (front ++ window ++ back).length)
    (isInflated : inflated.outBuffer.take (front ++ window ++ back).length =
      front ++ window' ++ back)
    (sameLength : window.length = window'.length)
    (short : window.length ≤ 4) :
    readCompletely true (front ++ window ++ back).length expectedCrc inflated =
      if window' = window then some inflated.outBuffer else none := by
  have reaches : ¬(inflated.status = .error ∨
      inflated.outOffset ≠ (front ++ window ++ back).length) := by
    simp [complete, atEnd]
  have sameSum : ~~~remainderOf crcPolynomial 0xFFFFFFFF#32 (front ++ window' ++ back) =
      expectedCrc ↔ window' = window := by
    rw [crc32_eq_remainder, Option.some.injEq] at isSum
    rw [← isSum, BitVec.not_inj]
    constructor
    · intro same
      have top : crcPolynomial.msb = true := by decide
      exact remainderOf_window top (by omega) sameLength.symm same
    · rintro rfl
      rfl
  rw [readCompletely, if_neg reaches, if_pos rfl, isInflated, crc32_eq_remainder]
  simp only [sameSum, ne_eq, ite_not]

/-- The entry "123456789", with a digit that was inflated as another. -/
theorem readCompletely_detects_digit :
    readCompletely true 9 0xCBF43926#32
      { status := .complete
        outOffset := 9
        outBuffer := [0x31#8, 0x32#8, 0x33#8, 0x34#8, 0x36#8, 0x36#8, 0x37#8, 0x38#8, 0x39#8] } =
      none :=
  @readCompletely_detects [0x31#8, 0x32#8, 0x33#8, 0x34#8] [0x35#8] [0x36#8]
    [0x36#8, 0x37#8, 0x38#8, 0x39#8] 0xCBF43926#32 _ (by decide) rfl rfl rfl rfl
    (by decide)

end PicoJvm.Inflate
