import PicoJvm.Lib.OpenAddressing

/-!
# `SymbolTable`

Symbols are looked up by their bytes, in the read-only image first and then in a
table in the heap, where a new symbol is made when there is none. A collection may
move symbols and the table; identities stand for objects wherever they are.
-/

namespace PicoJvm.Interning

open PicoJvm.Lib.OpenAddressing

/-- The greatest length a symbol may have. -/
def maxSymbolLength : Nat := 0xfff0

/-- `Symbol`. -/
structure Symbol where
  identity : Nat
  bytes : List UInt8
  bounded : bytes.length ≤ maxSymbolLength
  deriving DecidableEq, Repr

namespace SymbolTable

/-- `SymbolTable::hash`, also `String::hash` on characters. -/
def hashStep (value chr : Nat) : Nat :=
  (31 * value + chr) % 4294967296

def hash (bytes : List UInt8) : Nat :=
  bytes.foldl (fun value chr => hashStep value chr.toNat) 0

/-! ## The comparison of short symbols -/

/-- A byte of the body of a symbol: the length in two bytes, the contents, and zeros to
fill up the last word. -/
def bodyByte (bytes : List UInt8) : Nat → Nat
  | 0 => bytes.length % 256
  | 1 => bytes.length / 256 % 256
  | place + 2 => (bytes.getD place 0).toNat

/-- A word of the body. -/
def bodyWord (bytes : List UInt8) (word : Nat) : Nat :=
  bodyByte bytes (4 * word) + 256 * (bodyByte bytes (4 * word + 1) +
    256 * (bodyByte bytes (4 * word + 2) + 256 * bodyByte bytes (4 * word + 3)))

/-- `SymbolDesc::matches`. -/
def matchesBytes (bytes : List UInt8) (symbol : Symbol) : Bool :=
  decide (symbol.bytes.length = bytes.length ∧ symbol.bytes = bytes)

/-- The test of the three loops of `symbol_for`: one word for up to two bytes, two words
for up to six, and otherwise a full comparison. -/
def wanted (bytes : List UInt8) (symbol : Symbol) : Bool :=
  if 0 < bytes.length ∧ bytes.length ≤ 6 then
    if bytes.length ≤ 2 then
      decide (bodyWord bytes 0 = bodyWord symbol.bytes 0)
    else
      decide (bodyWord bytes 0 = bodyWord symbol.bytes 0 ∧
        bodyWord bytes 1 = bodyWord symbol.bytes 1)
  else
    matchesBytes bytes symbol

/-! ## Lookup -/

/-- The symbol table of the read-only image: buckets of symbols, all of them below the
identities of the heap. -/
structure Rom where
  buckets : List (List Symbol)
  heapStart : Nat
  below : ∀ symbol ∈ buckets.flatten, symbol.identity < heapStart
  coherent : ∀ symbol ∈ buckets.flatten, ∀ other ∈ buckets.flatten,
    symbol.identity = other.identity → symbol = other

/-- `ROM::symbol_for`. -/
def Rom.symbolFor (rom : Rom) (bytes : List UInt8) : Option Symbol :=
  if rom.buckets.length > 0 then
    (rom.buckets.getD (hash bytes % rom.buckets.length) []).find? (matchesBytes bytes)
  else
    none

/-- The table, the number of symbols ever put into it, and the next free identity. -/
structure State where
  slots : List (Option Symbol)
  count : Nat
  nextIdentity : Nat
  deriving DecidableEq, Repr

/-- A call of `symbol_for`, with the outcome of its allocations. -/
structure Request where
  bytes : List UInt8
  checkOnly : Bool
  allocates : Bool
  grows : Bool
  deriving DecidableEq, Repr

inductive Answer
  | symbol (symbol : Symbol)
  | null
  | outOfMemory
  | diverges
  deriving DecidableEq, Repr

def home (symbol : Symbol) : Nat :=
  hash symbol.bytes

/-- `grow_and_replace_symbol_table`. Without memory for the new table the old one
stays. -/
def grow (grows : Bool) (slots : List (Option Symbol)) : List (Option Symbol) :=
  if grows then rehash home slots (List.replicate (slots.length * 2) none) else slots

/-- The end of `symbol_for`, when the search stopped at an empty slot. -/
def newSymbol (request : Request) (bounded : request.bytes.length ≤ maxSymbolLength)
    (index : Nat) (state : State) : Answer × State :=
  if request.allocates then
    let symbol : Symbol := ⟨state.nextIdentity, request.bytes, bounded⟩
    let slots := state.slots.set index (some symbol)
    (.symbol symbol,
      { slots := if state.count + 1 > slots.length / 4 then grow request.grows slots else slots
        count := state.count + 1
        nextIdentity := state.nextIdentity + 1 })
  else
    (.outOfMemory, state)

/-- `SymbolTable::symbol_for`. -/
def symbolFor (rom : Rom) (request : Request) (state : State) : Answer × State :=
  if bounded : request.bytes.length ≤ maxSymbolLength then
    match rom.symbolFor request.bytes with
    | some symbol => (.symbol symbol, state)
    | none =>
        let start := hash request.bytes &&& (state.slots.length - 1)
        match probe (wanted request.bytes) state.slots start state.slots.length start with
        | .found symbol => (.symbol symbol, state)
        | .empty index =>
            if request.checkOnly then
              (.null, state)
            else
              newSymbol request bounded index state
        | .full => if request.checkOnly then (.null, state) else (.outOfMemory, state)
        | .unfinished => (.diverges, state)
  else
    (.outOfMemory, state)

/-! ## Equality of bytes -/

theorem bodyByte_lt (bytes : List UInt8) (place : Nat) : bodyByte bytes place < 256 := by
  match place with
  | 0 => exact Nat.mod_lt _ (by decide)
  | 1 => exact Nat.mod_lt _ (by decide)
  | place + 2 => exact (bytes.getD place 0).toNat_lt

/-- Equal words have equal bytes. -/
theorem bodyWord_inj
    {bytes bytes' : List UInt8} {word : Nat}
    (same : bodyWord bytes word = bodyWord bytes' word) :
    ∀ place < 4, bodyByte bytes (4 * word + place) = bodyByte bytes' (4 * word + place) := by
  unfold bodyWord at same
  generalize 4 * word = start at same ⊢
  have := bodyByte_lt bytes start
  have := bodyByte_lt bytes (start + 1)
  have := bodyByte_lt bytes (start + 2)
  have := bodyByte_lt bytes (start + 3)
  have := bodyByte_lt bytes' start
  have := bodyByte_lt bytes' (start + 1)
  have := bodyByte_lt bytes' (start + 2)
  have := bodyByte_lt bytes' (start + 3)
  intro place below
  match place, below with
  | 0, _ => rw [Nat.add_zero]; omega
  | 1, _ => omega
  | 2, _ => omega
  | 3, _ => omega

theorem length_eq_of_bodyWord
    {bytes bytes' : List UInt8}
    (bounded : bytes.length ≤ maxSymbolLength)
    (bounded' : bytes'.length ≤ maxSymbolLength)
    (same : bodyWord bytes 0 = bodyWord bytes' 0) :
    bytes.length = bytes'.length := by
  have low := bodyWord_inj same 0 (by decide)
  have high := bodyWord_inj same 1 (by decide)
  simp only [bodyByte] at low high
  unfold maxSymbolLength at bounded bounded'
  omega

theorem eq_of_getD
    {bytes bytes' : List UInt8}
    (lengthEq : bytes.length = bytes'.length)
    (same : ∀ place < bytes.length,
      bodyByte bytes (place + 2) = bodyByte bytes' (place + 2)) :
    bytes = bytes' := by
  refine List.ext_getElem lengthEq ?_
  intro place inside inside'
  have sameByte := UInt8.toNat_inj.mp (same place inside)
  simpa [inside, inside'] using sameByte

/-- The quick comparison agrees with the full one. -/
theorem wanted_iff
    {bytes : List UInt8} {symbol : Symbol}
    (bounded : bytes.length ≤ maxSymbolLength) :
    wanted bytes symbol = true ↔ symbol.bytes = bytes := by
  constructor
  · intro isWanted
    unfold wanted at isWanted
    split at isWanted
    · split at isWanted
      · rename_i short
        have word := of_decide_eq_true isWanted
        have lengthEq := length_eq_of_bodyWord bounded symbol.bounded word
        refine (eq_of_getD lengthEq ?_).symm
        intro place inside
        have := bodyWord_inj word (place + 2) (by omega)
        simpa using this
      · rename_i upToSix _
        obtain ⟨first, second⟩ := of_decide_eq_true isWanted
        have lengthEq := length_eq_of_bodyWord bounded symbol.bounded first
        refine (eq_of_getD lengthEq ?_).symm
        intro place inside
        rcases Nat.lt_or_ge place 2 with early | late
        · have := bodyWord_inj first (place + 2) (by omega)
          simpa using this
        · have := bodyWord_inj second (place - 2) (by omega)
          rwa [show 4 * 1 + (place - 2) = place + 2 by omega] at this
    · exact (of_decide_eq_true isWanted).2
  · rintro rfl
    simp [wanted, matchesBytes]

theorem matchesBytes_iff
    {bytes : List UInt8} {symbol : Symbol} :
    matchesBytes bytes symbol = true ↔ symbol.bytes = bytes := by
  unfold matchesBytes
  rw [decide_eq_true_iff]
  constructor
  · exact And.right
  · intro same
    exact ⟨congrArg List.length same, same⟩

end SymbolTable

end PicoJvm.Interning
