import PicoJvm.Interning.StringTable

/-!
# Interning

Both tables keep one object for each contents, whatever lookups are made and
whichever of their allocations fail.
-/

namespace PicoJvm.Interning

open PicoJvm.Lib.OpenAddressing

/-! ## Interning tables in general -/

section General

variable {entry key : Type} {home : entry → Nat} {keyOf : entry → key}
  {slots slots' : List (Option entry)}

/-- A table in which each key has one entry, found from the home of the key. -/
structure Interns (home : entry → Nat) (keyOf : entry → key) (slots : List (Option entry)) :
    Prop where
  reachable : Reachable home slots
  distinct : Distinct keyOf slots

/-- A search for a key, by a test that means equality of keys. -/
structure SearchesFor (home : entry → Nat) (keyOf : entry → key) (wanted : entry → Bool)
    (start : Nat) (target : key) : Prop where
  wanted_iff : ∀ item, wanted item = true ↔ keyOf item = target
  sameHome : ∀ item, keyOf item = target → home item = start

/-- What a search tells about a table. -/
inductive Finds (home : entry → Nat) (keyOf : entry → key) (slots : List (Option entry))
    (target : key) : Probe entry → Prop
  | found {item : entry} :
      some item ∈ slots →
      keyOf item = target →
      Finds home keyOf slots target (.found item)
  | empty {index : Nat} :
      (∀ item, some item ∈ slots → keyOf item ≠ target) →
      (∀ item, keyOf item = target →
        Inserted home slots (slots.set index (some item)) item) →
      Finds home keyOf slots target (.empty index)
  | full :
      (∀ item, some item ∈ slots → keyOf item ≠ target) →
      Finds home keyOf slots target .full

theorem Interns.finds
    {wanted : entry → Bool} {start : Nat} {target : key}
    (interns : Interns home keyOf slots)
    (searches : SearchesFor home keyOf wanted start target) :
    Finds home keyOf slots target
      (probe wanted slots (start &&& (slots.length - 1)) slots.length
        (start &&& (slots.length - 1))) := by
  have absent {distance : Nat} (passed : Passed wanted slots start distance)
      (stop : distance = slots.length ∨ slotAt slots start distance = none) :
      ∀ item, some item ∈ slots → keyOf item ≠ target := by
    intro item member isTarget
    exact interns.reachable.not_mem_of_passed passed stop (searches.sameHome item isTarget)
      ((searches.wanted_iff item).mpr isTarget) member
  have ends := probe_ends interns.reachable.powerOfTwo wanted start
  generalize probe wanted slots (start &&& (slots.length - 1)) slots.length
    (start &&& (slots.length - 1)) = result at ends ⊢
  cases ends with
  | found inside stored isWanted =>
      exact .found (mem_of_slotAt stored) ((searches.wanted_iff _).mp isWanted)
  | empty inside isEmpty passed =>
      refine .empty (absent passed (.inr isEmpty)) ?_
      intro item isTarget
      have isHome := searches.sameHome item isTarget
      rw [← isHome] at isEmpty passed ⊢
      refine inserted_set interns.reachable inside isEmpty ?_
      intro before below
      obtain ⟨other, stored, _⟩ := passed before below
      rw [stored]
      exact Option.some_ne_none other
  | full passed =>
      exact .full (absent passed (.inl rfl))

theorem Interns.inserted
    {item : entry}
    (interns : Interns home keyOf slots)
    (absent : ∀ other, some other ∈ slots → keyOf other ≠ keyOf item)
    (inserted : Inserted home slots slots' item) :
    Interns home keyOf slots' := by
  refine ⟨inserted.reachable, ?_⟩
  intro first second firstMember secondMember sameKey
  rcases (inserted.mem_iff first).mp firstMember with firstOld | rfl
  · rcases (inserted.mem_iff second).mp secondMember with secondOld | rfl
    · exact interns.distinct first second firstOld secondOld sameKey
    · exact absurd sameKey (absent first firstOld)
  · rcases (inserted.mem_iff second).mp secondMember with secondOld | rfl
    · exact absurd sameKey.symm (absent second secondOld)
    · rfl

theorem Interns.doubled
    (interns : Interns home keyOf slots) :
    Interns home keyOf (rehash home slots (List.replicate (slots.length * 2) none)) := by
  obtain ⟨reachable, _, members⟩ := rehash_double interns.reachable
  refine ⟨reachable, ?_⟩
  intro first second firstMember secondMember
  exact interns.distinct first second ((members first).mp firstMember)
    ((members second).mp secondMember)

theorem interns_replicate
    (home : entry → Nat) (keyOf : entry → key) (exponent : Nat) :
    Interns home keyOf (List.replicate (2 ^ exponent) none) := by
  refine ⟨reachable_replicate home exponent, ?_⟩
  intro item other member
  cases List.eq_of_mem_replicate member

/-- An object answers for a key: the image has it, or else the table. -/
def AnswersFor (rom : key → Option entry) (keyOf : entry → key) (slots : List (Option entry))
    (target : key) (item : entry) : Prop :=
  rom target = some item ∨ (rom target = none ∧ some item ∈ slots ∧ keyOf item = target)

theorem AnswersFor.mono
    {rom : key → Option entry} {target : key} {item : entry}
    (grown : ∀ item, some item ∈ slots → some item ∈ slots')
    (answers : AnswersFor rom keyOf slots target item) :
    AnswersFor rom keyOf slots' target item :=
  answers.imp id fun answer => ⟨answer.1, grown item answer.2.1, answer.2.2⟩

/-- One key has one object. -/
theorem AnswersFor.unique
    {rom : key → Option entry} {target : key} {item other : entry}
    (interns : Interns home keyOf slots)
    (answers : AnswersFor rom keyOf slots target item)
    (answers' : AnswersFor rom keyOf slots target other) :
    item = other := by
  rcases answers with inRom | ⟨notInRom, member, isTarget⟩
  · rcases answers' with inRom' | ⟨notInRom', _⟩
    · exact Option.some.inj (inRom.symm.trans inRom')
    · rw [inRom] at notInRom'
      cases notInRom'
  · rcases answers' with inRom' | ⟨_, member', isTarget'⟩
    · rw [inRom'] at notInRom
      cases notInRom
    · exact interns.distinct item other member member' (isTarget.trans isTarget'.symm)

end General

/-! ## Symbols -/

namespace SymbolTable

variable {rom : Rom} {state : State} {request : Request}

theorem Rom.mem_of_symbolFor
    {bytes : List UInt8} {symbol : Symbol}
    (found : rom.symbolFor bytes = some symbol) :
    symbol ∈ rom.buckets.flatten ∧ symbol.bytes = bytes := by
  unfold Rom.symbolFor at found
  split at found
  · refine ⟨?_, matchesBytes_iff.mp (List.find?_some found)⟩
    have member := List.mem_of_find?_eq_some found
    rw [List.getD_eq_getElem?_getD] at member
    cases bucket : rom.buckets[hash bytes % rom.buckets.length]? with
    | none =>
        simp [bucket] at member
    | some symbols =>
        rw [bucket, Option.getD_some] at member
        exact List.mem_flatten.mpr ⟨symbols, List.mem_of_getElem? bucket, member⟩
  · cases found

/-- The table in the heap holds one symbol for each of its contents, none of which the
image has, and each has an identity of its own. -/
structure WellFormed (rom : Rom) (state : State) : Prop where
  interns : Interns home Symbol.bytes state.slots
  notInRom : ∀ symbol, some symbol ∈ state.slots → rom.symbolFor symbol.bytes = none
  inHeap : ∀ symbol, some symbol ∈ state.slots →
    rom.heapStart ≤ symbol.identity ∧ symbol.identity < state.nextIdentity
  coherent : ∀ symbol other, some symbol ∈ state.slots → some other ∈ state.slots →
    symbol.identity = other.identity → symbol = other
  heapStarted : rom.heapStart ≤ state.nextIdentity

theorem searchesFor
    (bounded : request.bytes.length ≤ maxSymbolLength) :
    SearchesFor home Symbol.bytes (wanted request.bytes) (hash request.bytes) request.bytes where
  wanted_iff _ := wanted_iff bounded
  sameHome _ same := congrArg hash same

/-- What a call leaves behind. -/
structure Step (rom : Rom) (request : Request) (state state' : State) (answer : Answer) :
    Prop where
  wellFormed : WellFormed rom state'
  kept : ∀ symbol, some symbol ∈ state.slots → some symbol ∈ state'.slots
  ends : answer ≠ .diverges
  answers : ∀ symbol, answer = .symbol symbol →
    AnswersFor rom.symbolFor Symbol.bytes state'.slots request.bytes symbol

theorem step_same
    {answer : Answer}
    (wellFormed : WellFormed rom state)
    (ends : answer ≠ .diverges)
    (answers : ∀ symbol, answer = .symbol symbol →
      AnswersFor rom.symbolFor Symbol.bytes state.slots request.bytes symbol) :
    Step rom request state state answer :=
  ⟨wellFormed, fun _ member => member, ends, answers⟩

theorem wellFormed_grow
    {slots : List (Option Symbol)} {count nextIdentity : Nat}
    (wellFormed : WellFormed rom ⟨slots, count, nextIdentity⟩)
    (grows : Bool) :
    WellFormed rom ⟨grow grows slots, count, nextIdentity⟩ ∧
      ∀ symbol, some symbol ∈ grow grows slots ↔ some symbol ∈ slots := by
  cases grows with
  | false =>
      exact ⟨wellFormed, fun _ => Iff.rfl⟩
  | true =>
      have members := (rehash_double wellFormed.interns.reachable).2.2
      exact ⟨⟨wellFormed.interns.doubled,
        fun symbol member => wellFormed.notInRom symbol ((members symbol).mp member),
        fun symbol member => wellFormed.inHeap symbol ((members symbol).mp member),
        fun symbol other member member' => wellFormed.coherent symbol other
          ((members symbol).mp member) ((members other).mp member'),
        wellFormed.heapStarted⟩, members⟩

/-- The state with a new symbol, before the table grows. -/
theorem wellFormed_inserted
    {slots : List (Option Symbol)} {symbol : Symbol}
    (wellFormed : WellFormed rom state)
    (notInRom : rom.symbolFor symbol.bytes = none)
    (isNext : symbol.identity = state.nextIdentity)
    (absent : ∀ other, some other ∈ state.slots → other.bytes ≠ symbol.bytes)
    (inserted : Inserted home state.slots slots symbol) :
    WellFormed rom ⟨slots, state.count + 1, state.nextIdentity + 1⟩ where
  interns := wellFormed.interns.inserted absent inserted
  notInRom other member := by
    rcases (inserted.mem_iff other).mp member with old | rfl
    · exact wellFormed.notInRom other old
    · exact notInRom
  inHeap other member := by
    rcases (inserted.mem_iff other).mp member with old | rfl
    · obtain ⟨above, below⟩ := wellFormed.inHeap other old
      exact ⟨above, Nat.lt_succ_of_lt below⟩
    · rw [isNext]
      exact ⟨wellFormed.heapStarted, Nat.lt_succ_self _⟩
  coherent first second firstMember secondMember sameIdentity := by
    rcases (inserted.mem_iff first).mp firstMember with firstOld | rfl
    · rcases (inserted.mem_iff second).mp secondMember with secondOld | rfl
      · exact wellFormed.coherent first second firstOld secondOld sameIdentity
      · have := (wellFormed.inHeap first firstOld).2
        omega
    · rcases (inserted.mem_iff second).mp secondMember with secondOld | rfl
      · have := (wellFormed.inHeap second secondOld).2
        omega
      · rfl
  heapStarted := Nat.le_succ_of_le wellFormed.heapStarted

theorem newSymbol_step
    {index : Nat}
    (wellFormed : WellFormed rom state)
    (bounded : request.bytes.length ≤ maxSymbolLength)
    (notInRom : rom.symbolFor request.bytes = none)
    (absent : ∀ other, some other ∈ state.slots → other.bytes ≠ request.bytes)
    (inserts : ∀ symbol : Symbol, symbol.bytes = request.bytes →
      Inserted home state.slots (state.slots.set index (some symbol)) symbol) :
    Step rom request state (newSymbol request bounded index state).2
      (newSymbol request bounded index state).1 := by
  unfold newSymbol
  split
  · have inserted := inserts ⟨state.nextIdentity, request.bytes, bounded⟩ rfl
    have wellFormed' := wellFormed_inserted wellFormed notInRom rfl absent inserted
    obtain ⟨grownWellFormed, grownMembers⟩ := wellFormed_grow wellFormed' request.grows
    dsimp only
    split
    · refine ⟨grownWellFormed, ?_, by simp, ?_⟩
      · intro symbol member
        exact (grownMembers symbol).mpr ((inserted.mem_iff symbol).mpr (.inl member))
      · rintro symbol ⟨⟩
        exact .inr ⟨notInRom, (grownMembers _).mpr ((inserted.mem_iff _).mpr (.inr rfl)), rfl⟩
    · refine ⟨wellFormed', ?_, by simp, ?_⟩
      · intro symbol member
        exact (inserted.mem_iff symbol).mpr (.inl member)
      · rintro symbol ⟨⟩
        exact .inr ⟨notInRom, (inserted.mem_iff _).mpr (.inr rfl), rfl⟩
  · exact step_same wellFormed (by simp) (by simp)

theorem symbolFor_step
    (wellFormed : WellFormed rom state)
    (request : Request) :
    Step rom request state (symbolFor rom request state).2 (symbolFor rom request state).1 := by
  unfold symbolFor
  split
  · rename_i bounded
    cases inRom : rom.symbolFor request.bytes with
    | some symbol =>
        refine step_same wellFormed (by simp) ?_
        rintro _ ⟨⟩
        exact .inl inRom
    | none =>
        have finds := wellFormed.interns.finds (searchesFor bounded)
        dsimp only
        generalize probe (wanted request.bytes) state.slots
          (hash request.bytes &&& (state.slots.length - 1)) state.slots.length
          (hash request.bytes &&& (state.slots.length - 1)) = result at finds ⊢
        cases finds with
        | found member isTarget =>
            refine step_same wellFormed (by simp) ?_
            rintro _ ⟨⟩
            exact .inr ⟨inRom, member, isTarget⟩
        | empty absent inserts =>
            dsimp only
            split
            · exact step_same wellFormed (by simp) (by simp)
            · exact newSymbol_step wellFormed bounded inRom absent inserts
        | full absent =>
            dsimp only
            split
            · exact step_same wellFormed (by simp) (by simp)
            · exact step_same wellFormed (by simp) (by simp)
  · exact step_same wellFormed (by simp) (by simp)

/-- A lookup of the contents of a symbol in the table returns it. -/
theorem symbolFor_of_mem
    {symbol : Symbol}
    (wellFormed : WellFormed rom state)
    (member : some symbol ∈ state.slots)
    (sameBytes : request.bytes = symbol.bytes) :
    (symbolFor rom request state).1 = .symbol symbol := by
  have bounded : request.bytes.length ≤ maxSymbolLength := by
    rw [sameBytes]
    exact symbol.bounded
  have finds := wellFormed.interns.finds (searchesFor bounded)
  unfold symbolFor
  rw [dif_pos bounded, show rom.symbolFor request.bytes = none by
    rw [sameBytes]; exact wellFormed.notInRom symbol member]
  dsimp only
  generalize probe (wanted request.bytes) state.slots
    (hash request.bytes &&& (state.slots.length - 1)) state.slots.length
    (hash request.bytes &&& (state.slots.length - 1)) = result at finds ⊢
  cases finds with
  | found member' isTarget =>
      rw [wellFormed.interns.distinct _ symbol member' member (isTarget.trans sameBytes)]
  | empty absent _ =>
      exact absurd sameBytes.symm (absent symbol member)
  | full absent =>
      exact absurd sameBytes.symm (absent symbol member)

/-- Objects with one identity are one symbol, wherever they are. -/
theorem WellFormed.identity_inj
    {bytes bytes' : List UInt8} {symbol other : Symbol}
    (wellFormed : WellFormed rom state)
    (answers : AnswersFor rom.symbolFor Symbol.bytes state.slots bytes symbol)
    (answers' : AnswersFor rom.symbolFor Symbol.bytes state.slots bytes' other)
    (sameIdentity : symbol.identity = other.identity) :
    symbol = other := by
  rcases answers with inRom | ⟨_, member, _⟩
  · have romMember := (Rom.mem_of_symbolFor inRom).1
    rcases answers' with inRom' | ⟨_, member', _⟩
    · exact rom.coherent symbol romMember other (Rom.mem_of_symbolFor inRom').1 sameIdentity
    · have := rom.below symbol romMember
      have := (wellFormed.inHeap other member').1
      omega
  · rcases answers' with inRom' | ⟨_, member', _⟩
    · have := rom.below other (Rom.mem_of_symbolFor inRom').1
      have := (wellFormed.inHeap symbol member).1
      omega
    · exact wellFormed.coherent symbol other member member' sameIdentity

theorem AnswersFor.bytes_eq
    {bytes : List UInt8} {symbol : Symbol}
    (answers : AnswersFor rom.symbolFor Symbol.bytes state.slots bytes symbol) :
    symbol.bytes = bytes := by
  rcases answers with inRom | ⟨_, _, isTarget⟩
  · exact (Rom.mem_of_symbolFor inRom).2
  · exact isTarget

end SymbolTable

/-! ## Strings -/

namespace StringTable

variable {characters : Characters} {rom : Rom} {state : State} {request : Request}

/-- What the image has for some characters. -/
def romFor (rom : Rom) (characters : Characters) (chars : List UInt16) : Option Nat :=
  (rom.getD (hash chars % rom.length) []).find? fun other =>
    decide ((characters other).length = chars.length ∧ characters other = chars)

theorem romString_eq (string : Nat) :
    romString characters rom string = romFor rom characters (characters string) :=
  rfl

theorem characters_of_romFor
    {chars : List UInt16} {string : Nat}
    (found : romFor rom characters chars = some string) :
    characters string = chars := by
  unfold romFor at found
  have matched := List.find?_some found
  exact (of_decide_eq_true matched).2

/-- The table holds one string for each of its contents, none of which the image has. -/
structure WellFormed (characters : Characters) (rom : Rom) (state : State) : Prop where
  interns : Interns (home characters) characters state.slots
  notInRom : ∀ string, some string ∈ state.slots →
    romFor rom characters (characters string) = none

theorem searchesFor (characters : Characters) (string : Nat) :
    SearchesFor (home characters) characters (matchesString characters string)
      (hash (characters string)) (characters string) where
  wanted_iff _ := matchesString_iff
  sameHome _ same := congrArg hash same

/-- What a call leaves behind. -/
structure Step (characters : Characters) (rom : Rom) (request : Request)
    (state state' : State) (answer : Answer) : Prop where
  wellFormed : WellFormed characters rom state'
  kept : ∀ string, some string ∈ state.slots → some string ∈ state'.slots
  ends : answer ≠ .diverges
  answers : ∀ string, answer = .string string →
    AnswersFor (romFor rom characters) characters state'.slots (characters request.string) string

theorem step_same
    {answer : Answer}
    (wellFormed : WellFormed characters rom state)
    (ends : answer ≠ .diverges)
    (answers : ∀ string, answer = .string string →
      AnswersFor (romFor rom characters) characters state.slots (characters request.string)
        string) :
    Step characters rom request state state answer :=
  ⟨wellFormed, fun _ member => member, ends, answers⟩

theorem newString_step
    {index : Nat}
    (wellFormed : WellFormed characters rom state)
    (notInRom : romFor rom characters (characters request.string) = none)
    (absent : ∀ other, some other ∈ state.slots → characters other ≠ characters request.string)
    (inserted : Inserted (home characters) state.slots
      (state.slots.set index (some request.string)) request.string) :
    Step characters rom request state (newString characters request index state).2
      (newString characters request index state).1 := by
  have here : some request.string ∈ state.slots.set index (some request.string) :=
    (inserted.mem_iff _).mpr (.inr rfl)
  have kept : ∀ string, some string ∈ state.slots →
      some string ∈ state.slots.set index (some request.string) :=
    fun string member => (inserted.mem_iff string).mpr (.inl member)
  have wellFormed' : WellFormed characters rom
      ⟨state.slots.set index (some request.string), state.count + 1⟩ := by
    refine ⟨wellFormed.interns.inserted absent inserted, ?_⟩
    intro string member
    rcases (inserted.mem_iff string).mp member with old | rfl
    · exact wellFormed.notInRom string old
    · exact notInRom
  unfold newString
  dsimp only
  split
  · split
    · have members := (rehash_double wellFormed'.interns.reachable).2.2
      refine ⟨⟨wellFormed'.interns.doubled, ?_⟩, ?_, by simp, ?_⟩
      · exact fun string member => wellFormed'.notInRom string ((members string).mp member)
      · exact fun string member => (members string).mpr (kept string member)
      · rintro _ ⟨⟩
        exact .inr ⟨notInRom, (members _).mpr here, rfl⟩
    · exact ⟨wellFormed', kept, by simp, by simp⟩
  · refine ⟨wellFormed', kept, by simp, ?_⟩
    rintro _ ⟨⟩
    exact .inr ⟨notInRom, here, rfl⟩

theorem internedStringFor_step
    (wellFormed : WellFormed characters rom state)
    (request : Request) :
    Step characters rom request state (internedStringFor characters rom request state).2
      (internedStringFor characters rom request state).1 := by
  unfold internedStringFor
  rw [romString_eq]
  cases inRom : romFor rom characters (characters request.string) with
  | some string =>
      refine step_same wellFormed (by simp) ?_
      rintro _ ⟨⟩
      exact .inl inRom
  | none =>
      have finds := wellFormed.interns.finds (searchesFor characters request.string)
      dsimp only
      generalize probe (matchesString characters request.string) state.slots
        (hash (characters request.string) &&& (state.slots.length - 1)) state.slots.length
        (hash (characters request.string) &&& (state.slots.length - 1)) = result at finds ⊢
      cases finds with
      | found member isTarget =>
          refine step_same wellFormed (by simp) ?_
          rintro _ ⟨⟩
          exact .inr ⟨inRom, member, isTarget⟩
      | empty absent inserts =>
          exact newString_step wellFormed inRom absent (inserts request.string rfl)
      | full absent =>
          exact step_same wellFormed (by simp) (by simp)

/-- A lookup of the characters of a string in the table returns it. -/
theorem internedStringFor_of_mem
    {string : Nat}
    (wellFormed : WellFormed characters rom state)
    (member : some string ∈ state.slots)
    (sameCharacters : characters request.string = characters string) :
    (internedStringFor characters rom request state).1 = .string string := by
  have finds := wellFormed.interns.finds (searchesFor characters request.string)
  unfold internedStringFor
  rw [romString_eq, show romFor rom characters (characters request.string) = none by
    rw [sameCharacters]; exact wellFormed.notInRom string member]
  dsimp only
  generalize probe (matchesString characters request.string) state.slots
    (hash (characters request.string) &&& (state.slots.length - 1)) state.slots.length
    (hash (characters request.string) &&& (state.slots.length - 1)) = result at finds ⊢
  cases finds with
  | found member' isTarget =>
      rw [wellFormed.interns.distinct _ string member' member (isTarget.trans sameCharacters)]
  | empty absent _ =>
      exact absurd sameCharacters.symm (absent string member)
  | full absent =>
      exact absurd sameCharacters.symm (absent string member)

end StringTable

/-! ## Runs -/

/-- What does not change while a program runs: the image and the strings. -/
structure World where
  symbolRom : SymbolTable.Rom
  stringRom : StringTable.Rom
  characters : StringTable.Characters

structure State where
  symbols : SymbolTable.State
  strings : StringTable.State

inductive Request
  | symbol (request : SymbolTable.Request)
  | string (request : StringTable.Request)

/-- A request with the answer it got. -/
inductive Exchange
  | symbol (request : SymbolTable.Request) (answer : SymbolTable.Answer)
  | string (request : StringTable.Request) (answer : StringTable.Answer)

/-- One lookup, in either table. -/
def serve (world : World) (request : Request) (state : State) : Exchange × State :=
  match request with
  | .symbol request =>
      let (answer, symbols) := SymbolTable.symbolFor world.symbolRom request state.symbols
      (.symbol request answer, ⟨symbols, state.strings⟩)
  | .string request =>
      let (answer, strings) :=
        StringTable.internedStringFor world.characters world.stringRom request state.strings
      (.string request answer, ⟨state.symbols, strings⟩)

/-- A sequence of lookups. -/
def serveAll (world : World) : List Request → State → List Exchange × State
  | [], state => ([], state)
  | request :: rest, state =>
      let (exchange, state) := serve world request state
      let (exchanges, state) := serveAll world rest state
      (exchange :: exchanges, state)

/-- Both tables as `Universe::genesis` makes them. -/
def initial (world : World) : State where
  symbols := ⟨List.replicate 64 none, 0, world.symbolRom.heapStart⟩
  strings := ⟨List.replicate 64 none, 0⟩

/-- Both tables are well formed. -/
structure WellFormed (world : World) (state : State) : Prop where
  symbols : SymbolTable.WellFormed world.symbolRom state.symbols
  strings : StringTable.WellFormed world.characters world.stringRom state.strings

theorem initial_wellFormed (world : World) : WellFormed world (initial world) where
  symbols :=
    { interns := interns_replicate _ _ 6
      notInRom := fun _ member => nomatch List.eq_of_mem_replicate member
      inHeap := fun _ member => nomatch List.eq_of_mem_replicate member
      coherent := fun _ _ member => nomatch List.eq_of_mem_replicate member
      heapStarted := Nat.le_refl _ }
  strings :=
    { interns := interns_replicate _ _ 6
      notInRom := fun _ member => nomatch List.eq_of_mem_replicate member }

/-- The entries of one state are still there in another. -/
structure Kept (state state' : State) : Prop where
  symbols : ∀ symbol, some symbol ∈ state.symbols.slots → some symbol ∈ state'.symbols.slots
  strings : ∀ string, some string ∈ state.strings.slots → some string ∈ state'.strings.slots

theorem Kept.refl (state : State) : Kept state state :=
  ⟨fun _ member => member, fun _ member => member⟩

theorem Kept.trans
    {state state' state'' : State}
    (first : Kept state state')
    (second : Kept state' state'') :
    Kept state state'' :=
  ⟨fun symbol member => second.symbols symbol (first.symbols symbol member),
    fun string member => second.strings string (first.strings string member)⟩

/-- An exchange went well, as far as a later state can tell. -/
def Sound (world : World) (state : State) : Exchange → Prop
  | .symbol request answer => answer ≠ .diverges ∧
      ∀ symbol, answer = .symbol symbol →
        AnswersFor world.symbolRom.symbolFor Symbol.bytes state.symbols.slots request.bytes symbol
  | .string request answer => answer ≠ .diverges ∧
      ∀ string, answer = .string string →
        AnswersFor (StringTable.romFor world.stringRom world.characters) world.characters
          state.strings.slots (world.characters request.string) string

theorem Sound.mono
    {world : World} {state state' : State} {exchange : Exchange}
    (sound : Sound world state exchange)
    (kept : Kept state state') :
    Sound world state' exchange := by
  cases exchange with
  | symbol request answer =>
      exact ⟨sound.1, fun symbol isAnswer => (sound.2 symbol isAnswer).mono kept.symbols⟩
  | string request answer =>
      exact ⟨sound.1, fun string isAnswer => (sound.2 string isAnswer).mono kept.strings⟩

/-- One lookup keeps both tables well formed, and its answer is sound. -/
theorem serve_step
    {world : World} {state : State}
    (wellFormed : WellFormed world state)
    (request : Request) :
    WellFormed world (serve world request state).2 ∧
      Kept state (serve world request state).2 ∧
        Sound world (serve world request state).2 (serve world request state).1 := by
  cases request with
  | symbol request =>
      have step := SymbolTable.symbolFor_step wellFormed.symbols request
      exact ⟨⟨step.wellFormed, wellFormed.strings⟩, ⟨step.kept, fun _ member => member⟩,
        step.ends, step.answers⟩
  | string request =>
      have step := StringTable.internedStringFor_step wellFormed.strings request
      exact ⟨⟨wellFormed.symbols, step.wellFormed⟩, ⟨fun _ member => member, step.kept⟩,
        step.ends, step.answers⟩

/-- Any number of lookups do. -/
theorem serveAll_run
    {world : World} {state : State}
    (wellFormed : WellFormed world state)
    (requests : List Request) :
    WellFormed world (serveAll world requests state).2 ∧
      Kept state (serveAll world requests state).2 ∧
        ∀ exchange ∈ (serveAll world requests state).1,
          Sound world (serveAll world requests state).2 exchange := by
  induction requests generalizing state with
  | nil =>
      exact ⟨wellFormed, .refl state, by simp [serveAll]⟩
  | cons request rest inductionHypothesis =>
      obtain ⟨wellFormed', kept, sound⟩ := serve_step wellFormed request
      obtain ⟨wellFormed'', kept', soundLater⟩ := inductionHypothesis wellFormed'
      refine ⟨wellFormed'', kept.trans kept', ?_⟩
      intro exchange member
      rcases List.mem_cons.mp member with rfl | later
      · exact sound.mono kept'
      · exact soundLater exchange later

theorem serveAll_append (world : World) (before after : List Request) (state : State) :
    (serveAll world (before ++ after) state).2 =
      (serveAll world after (serveAll world before state).2).2 := by
  induction before generalizing state with
  | nil =>
      rfl
  | cons request rest inductionHypothesis =>
      exact inductionHypothesis _

end PicoJvm.Interning
