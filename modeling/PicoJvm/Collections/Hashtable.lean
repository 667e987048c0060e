import PicoJvm.Lib.LinkedChains
import PicoJvm.Lib.Machine

/-!
# Hashtable

`java.util.Hashtable`: its entries are cells in the heap that refer to the next entry of their
bucket, and growing links them anew in place.
-/

namespace PicoJvm.Collections

open PicoJvm.Lib PicoJvm.Lib.Machine

/-! ## Data -/

/-- What the keys and the values are asked. -/
structure Objects (key value : Type) where
  equals : key → key → Bool
  hashCode : key → UInt32
  valueEquals : value → value → Bool

/-- `HashtableEntry`. -/
structure Entry (key value : Type) where
  hash : UInt32
  key : key
  value : value
  next : Option Nat
  deriving DecidableEq, Repr

/-- A `Hashtable`, with the entries that were ever made for it, which are referred to by their
number. -/
structure Hashtable (key value : Type) where
  entries : List (Entry key value)
  table : List (Option Nat)
  count : Int
  threshold : Int
  deriving DecidableEq, Repr

/-- The allocations that succeed: those of a table of a length that the virtual machine allows, and
that of an entry. -/
structure Room where
  table : Int → Bool
  entry : Bool

/-- Why a method does not return. A loop that never ends has the exception `endless` here. -/
inductive Failure
  | illegalArgument
  | nullPointer
  | negativeArraySize
  | outOfMemory
  | endless
  deriving DecidableEq, Repr

/-- What a method comes to. -/
inductive Answer (value : Type)
  | value (result : Option value)
  | truth (result : Bool)
  | done
  | thrown (failure : Failure)
  deriving DecidableEq, Repr

/-- `loadFactorPercent`. -/
def loadFactorPercent : Int := 75

/-- The greatest length of an array. -/
@[irreducible] def maxArrayLength : Int := 0x08000000

/-- `new HashtableEntry[length]`. -/
def newTable (room : Room) (length : Int) : Except Failure (List (Option Nat)) :=
  if length < 0 then .error .negativeArraySize
  else if maxArrayLength < length then .error .outOfMemory
  else if room.table length then .ok (List.replicate length.toNat none)
  else .error .outOfMemory

/-- The threshold of a table. -/
def thresholdOf (capacity : Int) : Int :=
  (signed (capacity * loadFactorPercent)).tdiv 100

/-- `(hash & 0x7FFFFFFF) % length`. -/
def bucket (hash : UInt32) (length : Nat) : Nat :=
  (hash &&& 0x7FFFFFFF).toNat % length

section Methods

variable {key value : Type} (objects : Objects key value)

/-- The constructor. -/
def new (key value : Type) (room : Room) (initialCapacity : Int) :
    Except Failure (Hashtable key value) :=
  if initialCapacity < 0 then
    .error .illegalArgument
  else
    let initialCapacity := if initialCapacity = 0 then 1 else initialCapacity
    match newTable room initialCapacity with
    | .error failure => .error failure
    | .ok table =>
        .ok { entries := [], table := table, count := 0, threshold := thresholdOf initialCapacity }

/-- `e.next`. -/
def Hashtable.next (self : Hashtable key value) (e : Nat) : Option Nat :=
  self.entries[e]?.bind Entry.next

/-- The steps after which a loop over a bucket is given up. -/
def Hashtable.fuel (self : Hashtable key value) : Nat :=
  self.entries.length + 1

/-- `(e.hash == hash) && e.key.equals(key)`. -/
def Hashtable.hasKey (self : Hashtable key value) (hash : UInt32) (k : key) (e : Nat) : Bool :=
  match self.entries[e]? with
  | none => false
  | some entry => entry.hash == hash && objects.equals entry.key k

/-- `e.value.equals(value)`. -/
def Hashtable.hasValue (self : Hashtable key value) (v : value) (e : Nat) : Bool :=
  match self.entries[e]? with
  | none => false
  | some entry => objects.valueEquals entry.value v

/-- `tab[index]`. -/
def Hashtable.head (self : Hashtable key value) (index : Nat) : Option Nat :=
  self.table.getD index none

/-- The loop of `get`, `containsKey` and `put` over the bucket of a key. -/
def Hashtable.find (self : Hashtable key value) (k : key) : Option (Option Nat) :=
  let hash := objects.hashCode k
  searchChain self.next (self.hasKey objects hash k) self.fuel
    (self.head (bucket hash self.table.length))

/-- `get`. -/
def Hashtable.get (self : Hashtable key value) (k : Option key) : Answer value :=
  match k with
  | none => .thrown .nullPointer
  | some k =>
      match self.find objects k with
      | none => .thrown .endless
      | some none => .value none
      | some (some e) => .value (self.entries[e]?.map Entry.value)

/-- `containsKey`. -/
def Hashtable.containsKey (self : Hashtable key value) (k : Option key) : Answer value :=
  match k with
  | none => .thrown .nullPointer
  | some k =>
      match self.find objects k with
      | none => .thrown .endless
      | some found => .truth found.isSome

/-- The loop of `contains` over the buckets. -/
def Hashtable.containsIn (self : Hashtable key value) (v : value) :
    List (Option Nat) → Answer value
  | [] => .truth false
  | head :: tab =>
      match searchChain self.next (self.hasValue objects v) self.fuel head with
      | none => .thrown .endless
      | some (some _) => .truth true
      | some none => self.containsIn v tab

/-- `contains`, from the last bucket to the first. -/
def Hashtable.contains (self : Hashtable key value) (v : Option value) : Answer value :=
  match v with
  | none => .thrown .nullPointer
  | some v => self.containsIn objects v self.table.reverse

/-- An assignment to `e.next`. -/
def setNext (entries : List (Entry key value)) (e : Nat) (next : Option Nat) :
    List (Entry key value) :=
  entries.modify e fun entry => { entry with next := next }

/-- The loop of `rehash` over a bucket of the old table, on the heap and the new table. -/
def relink (newCapacity : Nat) :
    Nat → Option Nat → List (Entry key value) × List (Option Nat) →
      Option (List (Entry key value) × List (Option Nat))
  | 0, _, _ => none
  | _ + 1, none, state => some state
  | fuel + 1, some e, (entries, newTable) =>
      match entries[e]? with
      | none => none
      | some entry =>
          let index := bucket entry.hash newCapacity
          relink newCapacity fuel entry.next
            (setNext entries e (newTable.getD index none), newTable.set index (some e))

/-- The loop of `rehash` over the buckets, from the last to the first. -/
def relinkAll (newCapacity fuel : Nat) :
    List (Option Nat) → List (Entry key value) × List (Option Nat) →
      Option (List (Entry key value) × List (Option Nat))
  | [], state => some state
  | old :: oldTable, state =>
      match relink newCapacity fuel old state with
      | none => none
      | some state => relinkAll newCapacity fuel oldTable state

/-- The capacity to which a table grows. -/
def newCapacity (oldCapacity : Nat) : Int :=
  signed (signed (oldCapacity * 2) + 1)

/-- `rehash`, once the new capacity is known. -/
def Hashtable.rehashTo (self : Hashtable key value) (room : Room) (newCapacity : Int) :
    Except Failure (Hashtable key value) :=
  match newTable room newCapacity with
  | .error failure => .error failure
  | .ok table =>
      match relinkAll newCapacity.toNat self.fuel self.table.reverse (self.entries, table) with
      | none => .error .endless
      | some (entries, table) =>
          .ok { self with entries := entries, table := table, threshold := thresholdOf newCapacity }

/-- `rehash`. -/
def Hashtable.rehash (self : Hashtable key value) (room : Room) :
    Except Failure (Hashtable key value) :=
  self.rehashTo room (newCapacity self.table.length)

/-- `e.value = value`. -/
def Hashtable.setValue (self : Hashtable key value) (e : Nat) (v : value) : Hashtable key value :=
  { self with entries := self.entries.modify e fun entry => { entry with value := v } }

/-- The new entry of `put`, in front of its bucket. -/
def Hashtable.link (self : Hashtable key value) (k : key) (v : value) : Hashtable key value :=
  let hash := objects.hashCode k
  let index := bucket hash self.table.length
  { self with
    entries := self.entries ++ [{ hash := hash, key := k, value := v, next := self.head index }]
    table := self.table.set index (some self.entries.length)
    count := signed (self.count + 1) }

/-- `put` of a key and a value that are not null, with what it does when it calls itself. -/
def Hashtable.putOnce (self : Hashtable key value) (room : Room) (k : key) (v : value)
    (again : Hashtable key value → Answer value × Hashtable key value) :
    Answer value × Hashtable key value :=
  match self.find objects k with
  | none => (.thrown .endless, self)
  | some (some e) => (.value (self.entries[e]?.map Entry.value), self.setValue e v)
  | some none =>
      if self.threshold ≤ self.count then
        match self.rehash room with
        | .error failure => (.thrown failure, self)
        | .ok grown => again grown
      else if room.entry then
        (.value none, self.link objects k v)
      else
        (.thrown .outOfMemory, self)

/-- `put` of a key and a value that are not null. The number bounds how often it calls itself. -/
def Hashtable.putEntry (room : Room) (k : key) (v : value) :
    Nat → Hashtable key value → Answer value × Hashtable key value
  | 0, self => (.thrown .endless, self)
  | calls + 1, self => self.putOnce objects room k v (Hashtable.putEntry room k v calls)

/-- `put`. -/
def Hashtable.put (self : Hashtable key value) (room : Room) (k : Option key) (v : Option value) :
    Answer value × Hashtable key value :=
  match v, k with
  | none, _ => (.thrown .nullPointer, self)
  | some _, none => (.thrown .nullPointer, self)
  | some v, some k => Hashtable.putEntry objects room k v 32 self

/-- The entry that `remove` takes out of its bucket, with the one in front of it. -/
def Hashtable.unlink (self : Hashtable key value) (index : Nat) (prev : Option Nat) (e : Nat) :
    Hashtable key value :=
  match prev with
  | some prev =>
      { self with
        entries := setNext self.entries prev (self.next e)
        count := signed (self.count - 1) }
  | none =>
      { self with
        table := self.table.set index (self.next e)
        count := signed (self.count - 1) }

/-- `remove`. -/
def Hashtable.remove (self : Hashtable key value) (k : Option key) :
    Answer value × Hashtable key value :=
  match k with
  | none => (.thrown .nullPointer, self)
  | some k =>
      let hash := objects.hashCode k
      let index := bucket hash self.table.length
      match
        searchWithPrevious self.next (self.hasKey objects hash k) self.fuel none (self.head index)
      with
      | none => (.thrown .endless, self)
      | some none => (.value none, self)
      | some (some (prev, e)) =>
          (.value (self.entries[e]?.map Entry.value), self.unlink index prev e)

/-- `clear`. -/
def Hashtable.clear (self : Hashtable key value) : Hashtable key value :=
  { self with table := self.table.map fun _ => none, count := 0 }

/-! ## Histories -/

/-- A call of a method, with the allocations that succeed during it. -/
inductive Operation (key value : Type)
  | put (room : Room) (k : Option key) (v : Option value)
  | get (k : Option key)
  | remove (k : Option key)
  | containsKey (k : Option key)
  | contains (v : Option value)
  | clear

def Hashtable.perform (self : Hashtable key value) :
    Operation key value → Answer value × Hashtable key value
  | .put room k v => self.put objects room k v
  | .get k => (self.get objects k, self)
  | .remove k => self.remove objects k
  | .containsKey k => (self.containsKey objects k, self)
  | .contains v => (self.contains objects v, self)
  | .clear => (.done, self.clear)

end Methods

end PicoJvm.Collections
