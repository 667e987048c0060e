import PicoJvm.Files.BufferedFile
import PicoJvm.Lib.Fallible

/-!
# Finding the end of a central directory

A JAR file ends with a header of the central directory and a comment. The parser looks for
the header from the end of the file backwards, in a buffer that it refills from the front.
-/

namespace PicoJvm.Files

open PicoJvm.Lib
open PicoJvm.Lib.Machine

/-! ## Bytes of a header -/

/-- `TMPBUFFERSIZE`. -/
def tmpBufferSize : Nat := 64

/-- `LOCHDRSIZ`. -/
def locHdrSiz : Nat := 30

/-- `CENHDRSIZ`. -/
def cenHdrSiz : Nat := 46

/-- `ENDHDRSIZ`. -/
def endHdrSiz : Nat := 22

/-- How a search goes wrong: a place outside the buffer is read or written, the file is not
read properly, or the loop has no end. -/
inductive SearchFault
  | outsideBuffer
  | file (fault : Fault)
  | unfinished
  deriving DecidableEq, Repr

/-- `CH`: the byte at a place, counted from the beginning of the buffer. -/
def ch (buffer : List UInt8) (place : Int) : Except SearchFault UInt8 :=
  if place < 0 then
    .error .outsideBuffer
  else
    match buffer[place.toNat]? with
    | some byte => .ok byte
    | none => .error .outsideBuffer

/-- `SH`. -/
def sh (buffer : List UInt8) (place : Int) : Except SearchFault Nat :=
  match ch buffer place, ch buffer (place + 1) with
  | .ok low, .ok high => .ok (low.toNat ||| high.toNat <<< 8)
  | .error fault, _ => .error fault
  | _, .error fault => .error fault

/-- `LG`. -/
def lg (buffer : List UInt8) (place : Int) : Except SearchFault UInt32 :=
  match sh buffer place, sh buffer (place + 2) with
  | .ok low, .ok high => .ok (UInt32.ofNat (low ||| high <<< 16))
  | .error fault, _ => .error fault
  | _, .error fault => .error fault

/-- Whether bytes stand at a place; it reads no further than they agree. -/
def beginsWith (buffer : List UInt8) (place : Int) : List UInt8 → Except SearchFault Bool
  | [] => .ok true
  | byte :: rest =>
      match ch buffer place with
      | .ok found => if found = byte then beginsWith buffer (place + 1) rest else .ok false
      | .error fault => .error fault

/-! ## The parser -/

/-- What `JarInfoEntry` says about the directory as a whole. -/
structure CurrentEntry where
  cenOffset : UInt32
  nextCenOffset : UInt32
  locOffset : UInt32
  totalEntryCount : Nat
  deriving DecidableEq, Repr

/-- The file of a `JarFileParser` and `raw_current_entry`. -/
structure JarFileParser where
  bufferedFile : BufferedFile
  currentEntry : CurrentEntry
  deriving DecidableEq

/-- The variables of the loop. The buffer holds the file from `currentOffset` on, and `bp` is
counted from the beginning of the buffer. -/
structure EndSearch where
  bufferedFile : BufferedFile
  buffer : List UInt8
  currentOffset : Int
  bp : Int
  deriving DecidableEq

namespace EndSearch

/-- The place in the file that is looked at. -/
def endpos (search : EndSearch) : Int :=
  search.currentOffset + search.bp

/-- The switch of the loop: nothing if this is the header, or how far the header starts back
at least. -/
def lookAt (length : Int) (search : EndSearch) : Except SearchFault (Option Int) :=
  match ch search.buffer search.bp with
  | .error fault => .error fault
  | .ok byte =>
      if byte = 6 then .ok (some 3)
      else if byte = 5 then .ok (some 2)
      else if byte = 0x4B then .ok (some 1)
      else if byte = 0x50 then
        match beginsWith search.buffer (search.bp + 1) [0x4B, 5, 6] with
        | .error fault => .error fault
        | .ok false => .ok (some 4)
        | .ok true =>
            match sh search.buffer (search.bp + 20) with
            | .error fault => .error fault
            | .ok comment =>
                if signed (search.endpos + endHdrSiz + comment) = length then
                  .ok none
                else
                  .ok (some 4)
      else .ok (some 4)

/-- The header is found: the offsets it tells are kept if a local header is there. -/
def use (entry : CurrentEntry) (search : EndSearch) :
    Except SearchFault (Bool × JarFileParser) :=
  match lg search.buffer (search.bp + 12), lg search.buffer (search.bp + 16),
      sh search.buffer (search.bp + 10) with
  | .ok siz, .ok off, .ok tot =>
      let cenOffset := UInt32.ofInt search.endpos - siz
      let locOffset := cenOffset - off
      match (search.bufferedFile.seek (signed locOffset.toNat) .set).getBytes 4 true with
      | .error fault => .error (.file fault)
      | .ok (sig, bufferedFile) =>
          if sig = [0x50, 0x4B, 3, 4] then
            let currentEntry :=
              { cenOffset, nextCenOffset := cenOffset, locOffset, totalEntryCount := tot }
            .ok (true, { bufferedFile, currentEntry })
          else
            .ok (true, { bufferedFile, currentEntry := entry })
  | _, _, _ => .error .outsideBuffer

/-- The window moves backwards when `bp` has left it; there is nothing when the file is used
up or cannot be read. -/
def moveBack (minOffset : Int) (search : EndSearch) : Except SearchFault (Option EndSearch) :=
  if search.bp < 0 then
    let left := search.currentOffset - minOffset
    if left ≤ 0 then
      .ok none
    else
      let available := tmpBufferSize - endHdrSiz + -search.bp
      let count := if left > available then available else left
      if count > tmpBufferSize then
        .error .outsideBuffer
      else
        let currentOffset := search.currentOffset - count
        let kept := search.buffer.take (tmpBufferSize - count.toNat)
        let moved := Ring.overwrite search.buffer count.toNat kept
        match (search.bufferedFile.seek currentOffset .set).getBytes count.toNat true with
        | .error fault => .error (.file fault)
        | .ok (bytes, bufferedFile) =>
            if bytes.length = count.toNat then
              .ok (some
                { bufferedFile, currentOffset, buffer := Ring.overwrite moved 0 bytes
                  bp := search.bp + count })
            else
              .ok none
  else
    .ok (some search)

/-- The loop, for so many rounds. -/
def run (length minOffset : Int) (entry : CurrentEntry) :
    Nat → EndSearch → Except SearchFault (Bool × JarFileParser)
  | 0, _ => .error .unfinished
  | rounds + 1, search =>
      match search.lookAt length with
      | .error fault => .error fault
      | .ok none => search.use entry
      | .ok (some back) =>
          let next := { search with bp := search.bp - back }
          match next.moveBack minOffset with
          | .error fault => .error fault
          | .ok none => .ok (false, ⟨next.bufferedFile, entry⟩)
          | .ok (some next) => run length minOffset entry rounds next

end EndSearch

namespace JarFileParser

/-- The smallest offset of the end header. -/
def minOffset (length : Int) : Int :=
  let offset := length - (0xFFFF + endHdrSiz)
  if offset < locHdrSiz + cenHdrSiz then locHdrSiz + cenHdrSiz else offset

/-- `find_end_of_central_header`, with what happens to be in the buffer at first. -/
def findEndOfCentralHeader (parser : JarFileParser) (buffer : List UInt8) :
    Except SearchFault (Bool × JarFileParser) :=
  let length := parser.bufferedFile.fileSize
  match (parser.bufferedFile.seek (-endHdrSiz) .fromEnd).getBytes endHdrSiz true with
  | .error fault => .error (.file fault)
  | .ok (bytes, bufferedFile) =>
      if bytes.length = endHdrSiz then
        EndSearch.run length (minOffset length) parser.currentEntry (length.toNat + 2)
          { bufferedFile, buffer := Ring.overwrite buffer 0 bytes
            currentOffset := length - endHdrSiz, bp := 0 }
      else
        .ok (false, { parser with bufferedFile })

end JarFileParser

end PicoJvm.Files
