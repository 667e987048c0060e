import Mathlib.Data.List.Basic

/-!
# Code tables

`make_code_table` makes a table of a vector of code lengths, and `GET_HUFFMAN_ENTRY` looks up the
next bits of the stream in it. Codes that are longer than the quick bits are found through a
pointer to a second table behind the first one.
-/

namespace PicoJvm.Inflate

/-- `MAX_BITS`. -/
def maxBits : Nat := 15

/-- `HUFFINFO_LONG_MASK`. -/
def huffinfoLongMask : Nat := 0x8000

/-- The size of a `HuffmanCodeTableHeader`. -/
def headerSize : Nat := 4

/-- `reverse5`. -/
def reverse5 : List Nat :=
  [0x0, 0x10, 0x8, 0x18, 0x4, 0x14, 0xc, 0x1c,
   0x2, 0x12, 0xa, 0x1a, 0x6, 0x16, 0xe, 0x1e,
   0x1, 0x11, 0x9, 0x19, 0x5, 0x15, 0xd, 0x1d,
   0x3, 0x13, 0xb, 0x1b, 0x7, 0x17, 0xf, 0x1f]

/-- `reverse_15bits`. -/
def reverse15Bits (code : Nat) : Nat :=
  (reverse5.getD (code &&& 0x1F) 0 <<< 10) |||
    (reverse5.getD ((code >>> 5) &&& 0x1F) 0 <<< 5) |||
    reverse5.getD (code >>> 10) 0

/-! ## The sizes of the tables -/

/-- The number of codes of each length. -/
def bitLengthCount (codelen : List Nat) : List Nat :=
  codelen.foldl (fun counts bits => counts.modify bits (· + 1)) (List.replicate (maxBits + 1) 0)

/-- The greatest length of a code, from a length downwards. -/
def maxCodeLen (counts : List Nat) : Nat → Nat
  | 0 => 0
  | bits + 1 => if counts.getD (bits + 1) 0 ≠ 0 then bits + 1 else maxCodeLen counts bits

/-- `codes` and `code` in the loop over the lengths. -/
structure FirstCodes where
  codes : List Nat
  code : Nat
  deriving DecidableEq, Repr

/-- A length gets its first code, and the next length the code behind its last one. -/
def firstCode (counts : List Nat) (first : FirstCodes) (bits : Nat) : FirstCodes where
  codes := first.codes.set bits first.code
  code :=
    if counts.getD bits 0 ≠ 0 then
      first.code + (counts.getD bits 0 <<< (maxBits - bits))
    else
      first.code

/-- The first code of each length, at the upper end of 15 bits. -/
def firstCodes (counts : List Nat) (lengths : Nat) : FirstCodes :=
  (List.range' 1 lengths).foldl (firstCode counts) ⟨List.replicate (maxBits + 1) 0, 0⟩

/-- The size of the tables for a number of quick bits, with the code behind that length. -/
def tableSize (maxCodeLen code bits : Nat) : Nat :=
  (((1 <<< maxBits) - code) >>> (maxBits - bits)) <<< (maxCodeLen - bits) + (1 <<< bits)

/-- The variables of the loop that chooses the quick bits. -/
structure Choice where
  first : FirstCodes
  optQuickBits : Nat
  optTableSize : Nat
  deriving DecidableEq, Repr

def choose (counts : List Nat) (maxCodeLen : Nat) (choice : Choice) (bits : Nat) : Choice :=
  let first := firstCode counts choice.first bits
  let size := tableSize maxCodeLen first.code bits
  if choice.optQuickBits = 0 ∨ size < choice.optTableSize then
    ⟨first, bits, size⟩
  else
    { choice with first }

/-- The quick bits that make the tables smallest. -/
def choices (counts : List Nat) (maxCodeLen : Nat) : Choice :=
  (List.range' 1 maxCodeLen).foldl (choose counts maxCodeLen)
    ⟨⟨List.replicate (maxBits + 1) 0, 0⟩, 0, 0⟩

/-- The sizes that `make_code_table` works with. -/
structure Sizes where
  quickBits : Nat
  mainTableLength : Nat
  numLongTables : Nat
  longTableLength : Nat
  deriving DecidableEq, Repr

def sizes (codes : List Nat) (maxCodeLen maxQuickBits : Nat) : Sizes :=
  if maxCodeLen ≤ maxQuickBits then
    ⟨maxCodeLen, 1 <<< maxCodeLen, 0, 0⟩
  else
    ⟨maxQuickBits, 1 <<< maxQuickBits,
      ((1 <<< maxBits) - codes.getD (maxQuickBits + 1) 0) >>> (maxBits - maxQuickBits),
      1 <<< (maxCodeLen - maxQuickBits)⟩

/-! ## Filling the tables -/

/-- `HuffmanCodeTable`, with all its entries behind each other. -/
structure HuffmanCodeTable where
  quickBits : Nat
  maxCodeLen : Nat
  entries : List Nat
  deriving DecidableEq, Repr

/-- The variables of the loop. -/
structure Filling where
  entries : List Nat
  codes : List Nat
  nextLongTable : Nat
  deriving DecidableEq, Repr

/-- A write of an entry; nothing when it is outside the table. -/
def putEntry (entries : List Nat) (place huff : Nat) : Option (List Nat) :=
  if place < entries.length then some (entries.set place huff) else none

/-- Every `stride`-th entry of a table from `j` on, for so many rounds. -/
def putStride (base limit stride huff : Nat) : Nat → Nat → List Nat → Option (List Nat)
  | 0, _, entries => some entries
  | rounds + 1, j, entries =>
      if j < limit then do
        let entries ← putEntry entries (base + j) huff
        putStride base limit stride huff rounds (j + stride) entries
      else
        some entries

/-- The entry that a pointer leads to: the offset is counted in bytes from the header. -/
def longTable (huff : Nat) : Option Nat :=
  let delta := huff &&& 0x7FFF
  if delta < headerSize ∨ delta % 2 ≠ 0 then none else some ((delta - headerSize) / 2)

/-- The table for long codes with a prefix: the one that the prefix points to, or the next one. -/
def thisLongTable (sizes : Sizes) (prefixCode : Nat) (filling : Filling) :
    Option (Nat × Filling) :=
  match filling.entries[prefixCode]? with
  | none => none
  | some 0 => do
      let delta := headerSize + 2 * filling.nextLongTable
      let entries ← putEntry filling.entries prefixCode ((huffinfoLongMask ||| delta) % 65536)
      some (filling.nextLongTable,
        { filling with
          entries, nextLongTable := filling.nextLongTable + sizes.longTableLength })
  | some huff => do
      let table ← longTable huff
      some (table, filling)

/-- One symbol with its code length. -/
def fillSymbol (sizes : Sizes) (symbol bits : Nat) (filling : Filling) : Option Filling :=
  if bits = 0 then
    some filling
  else
    let code := filling.codes.getD bits 0
    let codes := filling.codes.set bits (code + (1 <<< (maxBits - bits)))
    let code := reverse15Bits code
    let huff := ((symbol <<< 4) + bits) % 65536
    if bits ≤ sizes.quickBits then do
      let entries ← putStride 0 sizes.mainTableLength (1 <<< bits) huff sizes.mainTableLength code
        filling.entries
      some { filling with entries, codes }
    else do
      let prefixCode := code &&& ((1 <<< sizes.quickBits) - 1)
      let suffixCode := code >>> sizes.quickBits
      let (table, filling) ← thisLongTable sizes prefixCode filling
      let entries ← putStride table sizes.longTableLength (1 <<< (bits - sizes.quickBits)) huff
        sizes.longTableLength suffixCode filling.entries
      some { filling with entries, codes }

/-- The symbols that are left, from one on. -/
def fillSymbols (sizes : Sizes) : Nat → List Nat → Filling → Option Filling
  | _, [], filling => some filling
  | symbol, bits :: codelen, filling => do
      let filling ← fillSymbol sizes symbol bits filling
      fillSymbols sizes (symbol + 1) codelen filling

/-- The tables for given quick bits and first codes. -/
def fillTable (codes : List Nat) (maxCodeLen maxQuickBits : Nat) (codelen : List Nat) :
    Option HuffmanCodeTable := do
  let sizes := sizes codes maxCodeLen maxQuickBits
  let entries := List.replicate
    (sizes.mainTableLength + sizes.numLongTables * sizes.longTableLength) 0
  let filling ← fillSymbols sizes 0 codelen ⟨entries, codes, sizes.mainTableLength⟩
  some ⟨sizes.quickBits, maxCodeLen, filling.entries⟩

/-- `make_code_table`; nothing when it writes outside the table. -/
def makeCodeTable (enableLookupTableSizeHeuristic : Bool) (codelen : List Nat)
    (maxQuickBits : Nat) : Option HuffmanCodeTable :=
  let counts := bitLengthCount codelen
  let maxCodeLen := maxCodeLen counts maxBits
  if enableLookupTableSizeHeuristic then
    let choice := choices counts maxCodeLen
    fillTable choice.first.codes maxCodeLen choice.optQuickBits codelen
  else
    fillTable (firstCodes counts maxBits).codes maxCodeLen maxQuickBits codelen

/-! ## Looking up -/

/-- `NEXTBITS`. -/
def nextBits (inData bits : Nat) : Nat :=
  inData &&& ((1 <<< bits) - 1)

/-- The result of a lookup: a symbol and the length of its code, no code, or a read outside the
table. -/
inductive Lookup
  | entry (symbol length : Nat)
  | noCode
  | outside
  deriving DecidableEq, Repr

/-- `GET_HUFFMAN_ENTRY`. -/
def getHuffmanEntry (table : HuffmanCodeTable) (inData : Nat) : Lookup :=
  let found :=
    match table.entries[nextBits inData table.quickBits]? with
    | none => none
    | some huff =>
        if huff &&& huffinfoLongMask ≠ 0 then
          match longTable huff with
          | none => none
          | some table2 =>
              table.entries[table2 + (nextBits inData table.maxCodeLen >>> table.quickBits)]?
        else
          some huff
  match found with
  | none => .outside
  | some 0 => .noCode
  | some huff => .entry (huff >>> 4) (huff &&& 0xF)

end PicoJvm.Inflate
