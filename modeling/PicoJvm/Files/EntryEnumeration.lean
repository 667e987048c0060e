import PicoJvm.Files.JarFileParser
import PicoJvm.Files.SharedHandle

/-!
# Going through the entries of a JAR file

The central directory is walked in calls with a bound on the sizes of the entries. A call returns
where the next one starts: zero at the end of the directory, or `-1` when an entry fails.
-/

namespace PicoJvm.Files

open PicoJvm.Lib
open PicoJvm.Lib.Machine

/-! ## The parser and the entry it is at -/

/-- `centralHeader`. -/
structure CentralHeader where
  bytes : List UInt8
  size : bytes.length = cenHdrSiz
  deriving DecidableEq

theorem length_take_overwrite
    {header : List UInt8}
    (size : header.length = cenHdrSiz)
    (bytes : List UInt8) :
    ((Ring.overwrite header 0 bytes).take cenHdrSiz).length = cenHdrSiz := by
  simp only [Ring.overwrite, List.length_take, List.length_append, List.length_drop]
  omega

/-- Bytes are read into the header, from its beginning on. -/
def CentralHeader.fill (header : CentralHeader) (bytes : List UInt8) : CentralHeader where
  bytes := (Ring.overwrite header.bytes 0 bytes).take cenHdrSiz
  size := length_take_overwrite header.size bytes

/-- A `JarFileParser` with the rest of `raw_current_entry`. -/
structure EntryParser extends JarFileParser where
  centralHeader : CentralHeader
  length : Int
  deriving DecidableEq

/-- `CENSIG`. -/
def cenSig : UInt32 := 0x02014B50

/-- `MAX_ENTRY_NAME`. -/
def maxEntryName : Nat := 256

/-- `STORED`. -/
def storedMethod : Nat := 0

/-- `DEFLATED`. -/
def deflatedMethod : Nat := 8

/-- A `FileDecoder` or an `Inflater` as it is allocated. -/
inductive FileDecoder
  | fileDecoder (pos : Int) (decompLen : UInt32)
  | inflater (pos : Int) (decompLen compLen expectedCRC : UInt32)
  deriving DecidableEq, Repr

/-- What becomes of an entry that is loaded. -/
inductive Loaded
  | buffer (contents : List UInt8)
  | null
  | thrown
  deriving DecidableEq, Repr

/-- Allocating a decoder and reading completely. It uses the handle of the buffered file, and the
number tells where it leaves it. -/
abbrev Decode := FileDecoder → OsFile → Loaded × Int

def readBytes (file : BufferedFile) (num : Nat) : Except SearchFault (List UInt8 × BufferedFile) :=
  (file.getBytes num true).mapError .file

namespace EntryParser

/-- `find_entry`, without a name. -/
def findEntry (parser : EntryParser) : Except SearchFault (Bool × EntryParser) :=
  let offset := signed parser.currentEntry.nextCenOffset.toNat
  readBytes (parser.bufferedFile.seek offset .set) cenHdrSiz >>= fun (bytes, bufferedFile) =>
    let parser := { parser with bufferedFile, centralHeader := parser.centralHeader.fill bytes }
    if bytes.length ≠ cenHdrSiz then
      .ok (false, parser)
    else
      lg parser.centralHeader.bytes 0 >>= fun sig =>
        if sig ≠ cenSig then
          .ok (false, parser)
        else
          lg parser.centralHeader.bytes 24 >>= fun length =>
            .ok (true, { parser with length := signed length.toNat })

/-- `locOffset + CENOFF`. -/
def localPlace (parser : EntryParser) : Except SearchFault UInt32 :=
  lg parser.centralHeader.bytes 42 >>= fun offset => .ok (parser.currentEntry.locOffset + offset)

/-- The switch of `open_entry`. -/
def decoderFor (parser : EntryParser) : Except SearchFault (Option FileDecoder) :=
  let header := parser.centralHeader.bytes
  let pos := parser.bufferedFile.lastUnreadFilePos
  lg header 24 >>= fun decompLen =>
  lg header 20 >>= fun compLen =>
  sh header 10 >>= fun method =>
  lg header 16 >>= fun expectedCRC =>
    if method = storedMethod then
      .ok (if compLen ≠ decompLen then none else some (.fileDecoder pos decompLen))
    else if method = deflatedMethod then
      .ok (some (.inflater pos decompLen compLen expectedCRC))
    else
      .ok none

/-- `open_entry`. -/
def openEntry (parser : EntryParser) : Except SearchFault (Option FileDecoder × EntryParser) :=
  sh parser.centralHeader.bytes 8 >>= fun flags =>
    if flags &&& 1 = 1 then
      .ok (none, parser)
    else
      parser.localPlace >>= fun place =>
      readBytes (parser.bufferedFile.seek (signed place.toNat) .set) locHdrSiz >>=
          fun (bytes, bufferedFile) =>
        if bytes.length ≠ locHdrSiz then
          .ok (none, { parser with bufferedFile })
        else
          sh bytes 26 >>= fun name =>
          sh bytes 28 >>= fun ext =>
            let parser := { parser with bufferedFile := bufferedFile.seek (name + ext : Nat) .cur }
            parser.decoderFor >>= fun decoder => .ok (decoder, parser)

/-- `load_entry`, with an exception pending or not. -/
def loadEntry (decode : Decode) (pending : Bool) (parser : EntryParser) :
    Except SearchFault (Loaded × EntryParser) :=
  parser.openEntry >>= fun (decoder, parser) =>
    if pending then
      .ok (.thrown, parser)
    else
      match decoder with
      | none => .ok (.null, parser)
      | some decoder =>
          let (loaded, place) := decode decoder parser.bufferedFile.filePointer
          .ok (loaded, { parser with bufferedFile := parser.bufferedFile.withPointer place })

/-- The next entry as the loop reads it: none is found, it fails, or this is its name and the
place behind its header. -/
inductive Next
  | notFound
  | unreadable
  | entry (name : List UInt8) (nextCenOffset : UInt32)
  deriving DecidableEq, Repr

/-- The loop up to the name of the entry. -/
def readNext (parser : EntryParser) : Except SearchFault (Next × EntryParser) :=
  parser.findEntry >>= fun (found, parser) =>
    if found then
      sh parser.centralHeader.bytes 28 >>= fun nameLength =>
        if nameLength ≥ maxEntryName then
          .ok (.unreadable, parser)
        else
          sh parser.centralHeader.bytes 30 >>= fun ext =>
          sh parser.centralHeader.bytes 32 >>= fun com =>
          readBytes parser.bufferedFile nameLength >>= fun (name, bufferedFile) =>
            let next := parser.currentEntry.nextCenOffset +
              UInt32.ofNat (cenHdrSiz + nameLength + ext + com)
            if name.length ≠ nameLength then
              .ok (.unreadable, { parser with bufferedFile })
            else
              .ok (.entry name next, { parser with bufferedFile })
    else
      .ok (.notFound, parser)

def withNextCenOffset (parser : EntryParser) (nextCenOffset : UInt32) : EntryParser :=
  { parser with currentEntry := { parser.currentEntry with nextCenOffset } }

end EntryParser

/-! ## Callbacks -/

/-- What a callback returns, and whether it leaves an exception pending. -/
structure Reply where
  result : Bool
  pending : Bool
  deriving DecidableEq, Repr

/-- `entry_filter_proc` and `do_jar_entry_proc`. They have the data of the caller and may use the
parser. -/
structure Callbacks (caller : Type) where
  entryFilterProc : Option (List UInt8 → caller × EntryParser → Reply × caller × EntryParser)
  doJarEntryProc :
    Option (List UInt8 → List UInt8 → caller × EntryParser → Reply × caller × EntryParser)

/-- An entry that is looked at: whether it passes the filter, the contents that are handed over,
whether it goes on, and whether there is an exception. -/
structure Seen where
  name : List UInt8
  passed : Bool
  contents : Option (List UInt8)
  goesOn : Bool
  raised : Bool
  deriving DecidableEq, Repr

/-- The variables of the loop, and the entries looked at. -/
structure Walk (caller : Type) where
  data : caller
  parser : EntryParser
  totalSize : Int
  seen : List Seen
  deriving DecidableEq

/-- The ways out of the function: `return -1`, `JVM_CHECK_0`, `return 0` and the end. -/
inductive Exit
  | failed
  | interrupted
  | stopped
  | finished
  deriving DecidableEq, Repr

section Loop

variable {caller : Type}

/-- `entry_filter_proc`, if there is one. -/
def Callbacks.filter (callbacks : Callbacks caller) (name : List UInt8)
    (state : caller × EntryParser) : Reply × caller × EntryParser :=
  match callbacks.entryFilterProc with
  | none => ({ result := true, pending := false }, state)
  | some proc => proc name state

namespace Walk

/-- An entry is noted. -/
def note (walk : Walk caller) (entry : Seen) (state : caller × EntryParser) : Walk caller :=
  { walk with data := state.1, parser := state.2, seen := walk.seen ++ [entry] }

/-- The end of a round. -/
def advance (nextCenOffset : UInt32) (pending : Bool) (walk : Walk caller) :
    Walk caller × Option Exit :=
  let walk := { walk with totalSize := signed (walk.totalSize + walk.parser.length) }
  if pending then
    (walk, some .failed)
  else
    ({ walk with parser := walk.parser.withNextCenOffset nextCenOffset }, none)

/-- An entry is loaded and handed over. -/
def handOver (decode : Decode)
    (proc : List UInt8 → List UInt8 → caller × EntryParser → Reply × caller × EntryParser)
    (name : List UInt8) (nextCenOffset : UInt32) (pending : Bool) (state : caller × EntryParser)
    (walk : Walk caller) : Except SearchFault (Walk caller × Option Exit) :=
  state.2.loadEntry decode pending >>= fun (loaded, parser) =>
    match loaded with
    | .thrown =>
        .ok (walk.note ⟨name, true, none, true, true⟩ (state.1, parser), some .interrupted)
    | .null =>
        .ok (walk.note ⟨name, true, none, true, false⟩ (state.1, parser), some .failed)
    | .buffer contents =>
        let (reply, state) := proc name contents (state.1, parser)
        let walk := walk.note ⟨name, true, some contents, reply.result, reply.pending⟩ state
        if reply.result = false then
          .ok (walk, some .stopped)
        else
          .ok (walk.advance nextCenOffset reply.pending)

/-- The entry of a round is filtered, and handed over if it passes. -/
def handle (decode : Decode) (callbacks : Callbacks caller) (name : List UInt8)
    (nextCenOffset : UInt32) (walk : Walk caller) :
    Except SearchFault (Walk caller × Option Exit) :=
  let (reply, state) := callbacks.filter name (walk.data, walk.parser)
  match reply.result, callbacks.doJarEntryProc with
  | true, some proc => walk.handOver decode proc name nextCenOffset reply.pending state
  | passed, _ =>
      .ok ((walk.note ⟨name, passed, none, true, reply.pending⟩ state).advance nextCenOffset
        reply.pending)

/-- A round of the loop, and how the function is left by it. -/
def round (decode : Decode) (callbacks : Callbacks caller) (walk : Walk caller) :
    Except SearchFault (Walk caller × Option Exit) :=
  walk.parser.readNext >>= fun (next, parser) =>
    match next with
    | .notFound => .ok ({ walk with parser }, some .finished)
    | .unreadable => .ok ({ walk with parser }, some .failed)
    | .entry name nextCenOffset =>
        { walk with parser }.handle decode callbacks name nextCenOffset

/-- The loop, for so many rounds. -/
def run (decode : Decode) (callbacks : Callbacks caller) (maxSize : Int) :
    Nat → Walk caller → Except SearchFault (Walk caller × Exit)
  | 0, _ => .error .unfinished
  | rounds + 1, walk =>
      if walk.totalSize < maxSize then
        walk.round decode callbacks >>= fun (walk, exit) =>
          match exit with
          | some exit => .ok (walk, exit)
          | none => run decode callbacks maxSize rounds walk
      else
        .ok (walk, .finished)

/-- What is returned. -/
def returned (maxSize : Int) (walk : Walk caller) : Exit → Int
  | .failed => -1
  | .interrupted => 0
  | .stopped => 0
  | .finished =>
      if walk.totalSize < maxSize then 0
      else signed walk.parser.currentEntry.nextCenOffset.toNat

end Walk

/-- `filtered_do_next_entries`, with the walk it makes. -/
def filteredDoNextEntries (decode : Decode) (callbacks : Callbacks caller)
    (entryId maxSize : Int) (state : caller × EntryParser) :
    Except SearchFault (Int × Walk caller) :=
  let maxSize := if maxSize ≤ 0 then 2147483647 else maxSize
  let parser :=
    if entryId > 0 then state.2.withNextCenOffset (UInt32.ofInt entryId) else state.2
  Walk.run decode callbacks maxSize (parser.bufferedFile.fileSize.toNat + 2)
      { data := state.1, parser, totalSize := 0, seen := [] } >>= fun (walk, exit) =>
    .ok (walk.returned maxSize exit, walk)

/-! ## Calls that resume -/

/-- A call: its bound, and the parser when the file is opened again for it. -/
structure Resumption where
  maxSize : Int
  reopened : Option EntryParser

/-- Calls, each with the id that the one before returned, as long as it is one. -/
def enumerate (decode : Decode) (callbacks : Callbacks caller) :
    List Resumption → Int → caller × EntryParser → Except SearchFault (List Seen × Int)
  | [], id, _ => .ok ([], id)
  | call :: calls, id, (data, parser) =>
      filteredDoNextEntries decode callbacks id call.maxSize
          (data, call.reopened.getD parser) >>= fun (id, walk) =>
        if id > 0 then
          enumerate decode callbacks calls id (walk.data, walk.parser) >>= fun (seen, last) =>
            .ok (walk.seen ++ seen, last)
        else
          .ok (walk.seen, id)

end Loop

end PicoJvm.Files
