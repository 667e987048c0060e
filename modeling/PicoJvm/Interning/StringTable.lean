import PicoJvm.Interning.SymbolTable

/-!
# `StringTable`

Interned strings. A string is known by the identity of its object, and its
characters never change.
-/

namespace PicoJvm.Interning.StringTable

open PicoJvm.Lib.OpenAddressing

/-- The characters of each string object. -/
abbrev Characters := Nat → List UInt16

/-- `String::hash`. -/
def hash (chars : List UInt16) : Nat :=
  chars.foldl (fun value chr => SymbolTable.hashStep value chr.toNat) 0

/-- `String::matches`. -/
def matchesString (characters : Characters) (string other : Nat) : Bool :=
  decide ((characters other).length = (characters string).length ∧
    characters other = characters string)

/-- The string table of the read-only image. -/
abbrev Rom := List (List Nat)

/-- `ROM::string_from_table`. -/
def romString (characters : Characters) (rom : Rom) (string : Nat) : Option Nat :=
  (rom.getD (hash (characters string) % rom.length) []).find? (matchesString characters string)

structure State where
  slots : List (Option Nat)
  count : Nat
  deriving DecidableEq, Repr

/-- A call of `interned_string_for`, with the outcome of its allocation. -/
structure Request where
  string : Nat
  grows : Bool
  deriving DecidableEq, Repr

inductive Answer
  | string (string : Nat)
  | outOfMemory
  | diverges
  deriving DecidableEq, Repr

def home (characters : Characters) (string : Nat) : Nat :=
  hash (characters string)

/-- The string is put into the empty slot; `expand` throws when there is no memory for a
larger table. -/
def newString (characters : Characters) (request : Request) (index : Nat) (state : State) :
    Answer × State :=
  let slots := state.slots.set index (some request.string)
  if state.count + 1 ≥ slots.length * 3 / 4 then
    if request.grows then
      (.string request.string,
        ⟨rehash (home characters) slots (List.replicate (slots.length * 2) none),
          state.count + 1⟩)
    else
      (.outOfMemory, ⟨slots, state.count + 1⟩)
  else
    (.string request.string, ⟨slots, state.count + 1⟩)

/-- `StringTable::interned_string_for`. -/
def internedStringFor (characters : Characters) (rom : Rom) (request : Request)
    (state : State) : Answer × State :=
  match romString characters rom request.string with
  | some string => (.string string, state)
  | none =>
      let start := hash (characters request.string) &&& (state.slots.length - 1)
      match probe (matchesString characters request.string) state.slots start
          state.slots.length start with
      | .found string => (.string string, state)
      | .empty index => newString characters request index state
      | .full => (.outOfMemory, state)
      | .unfinished => (.diverges, state)

theorem matchesString_iff
    {characters : Characters} {string other : Nat} :
    matchesString characters string other = true ↔ characters other = characters string := by
  unfold matchesString
  rw [decide_eq_true_iff]
  constructor
  · exact And.right
  · intro same
    exact ⟨congrArg List.length same, same⟩

end PicoJvm.Interning.StringTable
