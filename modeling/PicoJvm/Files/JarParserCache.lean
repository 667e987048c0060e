import PicoJvm.Lib.Machine
import PicoJvm.Lib.SlotTable
import PicoJvm.Lib.Transducer

/-!
# The cache of JAR parsers

Parsers of JAR files are kept in a small cache, each with an open file. The operating system has
ten files to open; those that other code holds are among them. The cache refers to its parsers
weakly, so that any collection may take some of them, and their files are closed with them.
-/

namespace PicoJvm.JarParserCache

open PicoJvm.Lib
open PicoJvm.Lib.Machine
open PicoJvm.Lib.Transducer

/-! ## Files of the operating system -/

/-- The name of a file with its final NUL. -/
abbrev PathName := List UInt8

/-- The flash memory behind every file: whether the signature is there, and whether an end header
can be found. -/
structure Flash where
  signed : Bool
  intact : Bool
  deriving DecidableEq, Repr

/-- `file_handles`: the names that files were opened by, and nothing where `data` is NULL. The
source forgets the names. -/
abbrev FileHandles := List (Option PathName)

/-- `OsFile_exists`. -/
def osFileExists (flash : Flash) : Bool :=
  flash.signed

/-- `OsFile_open`. -/
def osFileOpen (flash : Flash) (name : PathName) (handles : FileHandles) :
    Option (Nat × FileHandles) :=
  if flash.signed then SlotTable.alloc name handles else none

/-- `OsFile_close`. -/
def osFileClose (handles : FileHandles) (handle : Nat) : FileHandles :=
  SlotTable.free handles handle

/-! ## The cache -/

structure JarFileParser where
  pathname : PathName
  handle : Nat
  timestamp : Int
  deriving DecidableEq, Repr

/-- An entry of `_cached_parsers`: −1, or a weak reference. -/
inductive CachedParser
  | unused
  | collected
  | alive (parser : JarFileParser)
  deriving DecidableEq, Repr

structure Parsers where
  handles : FileHandles
  cached : List CachedParser
  timestamp : Int
  deriving DecidableEq, Repr

/-- `min(MAX_CACHED_PARSERS, MaxCachedJarParsers)`. -/
def maxCached : Nat := 4

def fileHandleCount : Nat := 10

/-- `JarFileParser::initialize`. -/
def initial : Parsers where
  handles := List.replicate fileHandleCount none
  cached := List.replicate maxCached .unused
  timestamp := 0

/-- What `dispose(i)` does to the files. -/
def CachedParser.dispose (handles : FileHandles) : CachedParser → FileHandles
  | .alive parser => osFileClose handles parser.handle
  | _ => handles

/-- `flush_caches`. -/
def flushCaches (parsers : Parsers) : Parsers :=
  { parsers with
    handles := parsers.cached.foldl CachedParser.dispose parsers.handles
    cached := parsers.cached.map fun _ => .unused }

/-- The loop of `save_parser_in_cache` that looks for an entry. -/
def entryToReplace : List CachedParser → (place found : Nat) → (oldest : Int) → Nat
  | [], _, found, _ => found
  | .alive parser :: rest, place, found, oldest =>
      if parser.timestamp < oldest then
        entryToReplace rest (place + 1) place parser.timestamp
      else
        entryToReplace rest (place + 1) found oldest
  | _ :: _, place, _, _ => place

/-- `save_parser_in_cache`. The weak reference cannot be made when there is no memory for it. -/
def saveParserInCache (parsers : Parsers) (parser : JarFileParser) (registered : Bool) : Parsers :=
  let found := entryToReplace parsers.cached 0 0 2147483647
  { parsers with
    handles := (parsers.cached.getD found .unused).dispose parsers.handles
    cached := parsers.cached.set found (if registered then .alive parser else .unused) }

def onePlaceOn (entry : Nat × JarFileParser) : Nat × JarFileParser :=
  (entry.1 + 1, entry.2)

/-- The loop of `get_parser_from_cache`. -/
def findParser (path : PathName) : List CachedParser → Option (Nat × JarFileParser)
  | [] => none
  | .alive parser :: rest =>
      if parser.pathname = path then
        some (0, parser)
      else
        (findParser path rest).map onePlaceOn
  | _ :: rest => (findParser path rest).map onePlaceOn

/-- `++_timestamp`. -/
def nextTimestamp (parsers : Parsers) : Int :=
  signed (parsers.timestamp + 1)

/-- `get_parser_from_cache`. -/
def getParserFromCache (parsers : Parsers) (path : PathName) : Option (JarFileParser × Parsers) :=
  (findParser path parsers.cached).map fun (place, parser) =>
    let parser := { parser with timestamp := nextTimestamp parsers }
    (parser,
      { parsers with
        cached := parsers.cached.set place (.alive parser)
        timestamp := nextTimestamp parsers })

/-- A collection: the files whose descriptors are finalized are closed, and the parsers that held
them are gone. -/
def collect (finalized : Nat → Bool) (parsers : Parsers) : Parsers :=
  { parsers with
    handles := parsers.handles.mapIdx fun handle name => if finalized handle then none else name
    cached := parsers.cached.map fun entry =>
      match entry with
      | .alive parser => if finalized parser.handle then .collected else .alive parser
      | other => other }

/-- The loop over the passes: the first pass that opens the file ends it. -/
def openInPasses (flash : Flash) (path : PathName) (parsers : Parsers) :
    List Nat → Option Nat × Parsers
  | [] => (none, parsers)
  | pass :: passes =>
      match osFileOpen flash path parsers.handles with
      | some (handle, handles) => (some handle, { parsers with handles })
      | none =>
          if pass = 1 then
            openInPasses flash path (flushCaches parsers) passes
          else
            openInPasses flash path parsers passes

/-- `JarFileParser::get`. A collection may happen while the new objects are allocated. -/
def get (flash : Flash) (parsers : Parsers) (path : PathName) (finalized : Nat → Bool)
    (registered : Bool) : Option JarFileParser × Parsers :=
  match getParserFromCache parsers path with
  | some (parser, parsers) => (some parser, parsers)
  | none =>
      if osFileExists flash then
        match openInPasses flash path (collect finalized parsers) [0, 1] with
        | (none, parsers) => (none, parsers)
        | (some handle, parsers) =>
            let parser : JarFileParser := ⟨path, handle, nextTimestamp parsers⟩
            let parsers := { parsers with timestamp := nextTimestamp parsers }
            if flash.intact then
              (some parser, saveParserInCache parsers parser registered)
            else
              (none, { parsers with handles := osFileClose parsers.handles handle })
      else
        (none, parsers)

/-! ## Runs -/

/-- What happens to the cache and the files: a call of `get`, a collection, a flush, and other
code that opens a file. It closes its files as a collection does. -/
inductive Event
  | get (path : PathName) (finalized : Nat → Bool) (registered : Bool)
  | collect (finalized : Nat → Bool)
  | flush
  | openFile (name : PathName)

def respond (flash : Flash) (parsers : Parsers) : Event → Option JarFileParser × Parsers
  | .get path finalized registered => get flash parsers path finalized registered
  | .collect finalized => (none, collect finalized parsers)
  | .flush => (none, flushCaches parsers)
  | .openFile name =>
      match osFileOpen flash name parsers.handles with
      | some (_, handles) => (none, { parsers with handles })
      | none => (none, parsers)

/-- The state behind some events. -/
def behind (flash : Flash) (events : List Event) : Parsers :=
  stateAfter (respond flash) initial events

/-- Each cached parser has the file open that it was opened for, and no two of them share it. -/
structure Sound (parsers : Parsers) : Prop where
  denotes : ∀ (place : Nat) (parser : JarFileParser),
    parsers.cached[place]? = some (.alive parser) →
      SlotTable.lookup parsers.handles parser.handle = some parser.pathname
  distinct : ∀ (place place' : Nat) (parser parser' : JarFileParser),
    parsers.cached[place]? = some (.alive parser) →
      parsers.cached[place']? = some (.alive parser') →
      parser.handle = parser'.handle → place = place'

/-- A call of `get` on an intact JAR file succeeds if it could be opened once the files of the
cached parsers are closed, and what it returns has the file open. -/
structure GetKept
    (flash : Flash) (path : PathName) (before : Parsers)
    (answer : Option JarFileParser × Parsers) : Prop where
  returned : ∀ parser, answer.1 = some parser →
    parser.pathname = path ∧ SlotTable.lookup answer.2.handles parser.handle = some path
  recovers :
    osFileExists flash = true → flash.intact = true →
      (osFileOpen flash path (flushCaches before).handles).isSome = true →
      answer.1.isSome = true

/-- The promise of the cache, for a run. -/
structure CacheKept (flash : Flash) (events : List Event) : Prop where
  sound : ∀ before after, events = before ++ after → Sound (behind flash before)
  gets : ∀ before path finalized registered after,
    events = before ++ .get path finalized registered :: after →
    GetKept flash path (behind flash before)
      (get flash (behind flash before) path finalized registered)

/-- The parser is cached, or there is a free file handle when the file is opened, or there is no
cached parser to take one from. -/
def HandleToSpare (parsers : Parsers) : Event → Prop
  | .get path finalized _ =>
      (∃ parser, .alive parser ∈ parsers.cached ∧ parser.pathname = path) ∨
        none ∈ (collect finalized parsers).handles ∨
        ∀ parser, .alive parser ∉ parsers.cached
  | _ => True

/-! ## Soundness -/

theorem initial_sound : Sound initial := by
  have nothing : ∀ (place : Nat) (parser : JarFileParser),
      initial.cached[place]? ≠ some (.alive parser) := by
    intro place parser isParser
    have member := List.mem_of_getElem? isParser
    simp [initial] at member
  exact ⟨fun place parser isParser => absurd isParser (nothing place parser),
    fun place _ parser _ isParser => absurd isParser (nothing place parser)⟩

section Soundness

variable {parsers next : Parsers}

/-- Entries that stay, or go, while the files of those that stay are not touched. -/
theorem Sound.mono
    (sound : Sound parsers)
    (entries : ∀ (place : Nat) (parser : JarFileParser),
      next.cached[place]? = some (.alive parser) →
        ∃ old, parsers.cached[place]? = some (.alive old) ∧
          old.handle = parser.handle ∧ old.pathname = parser.pathname)
    (files : ∀ (place : Nat) (parser : JarFileParser),
      next.cached[place]? = some (.alive parser) →
        SlotTable.lookup next.handles parser.handle =
          SlotTable.lookup parsers.handles parser.handle) :
    Sound next := by
  constructor
  · intro place parser isParser
    obtain ⟨old, wasParser, sameHandle, samePath⟩ := entries place parser isParser
    rw [files place parser isParser, ← sameHandle, ← samePath]
    exact sound.denotes place old wasParser
  · intro place place' parser parser' isParser isParser' shared
    obtain ⟨old, wasParser, sameHandle, _⟩ := entries place parser isParser
    obtain ⟨old', wasParser', sameHandle', _⟩ := entries place' parser' isParser'
    apply sound.distinct place place' old old' wasParser wasParser'
    rw [sameHandle, sameHandle', shared]

theorem flushCaches_alive (place : Nat) (parser : JarFileParser) :
    (flushCaches parsers).cached[place]? ≠ some (.alive parser) := by
  intro isParser
  have member := List.mem_of_getElem? isParser
  simp [flushCaches] at member

theorem Sound.flush (parsers : Parsers) : Sound (flushCaches parsers) :=
  ⟨fun place parser isParser => absurd isParser (flushCaches_alive place parser),
    fun place _ parser _ isParser => absurd isParser (flushCaches_alive place parser)⟩

theorem lookup_collect (finalized : Nat → Bool) (handle : Nat) :
    SlotTable.lookup (JarParserCache.collect finalized parsers).handles handle =
      if finalized handle then none else SlotTable.lookup parsers.handles handle := by
  simp only [SlotTable.lookup, JarParserCache.collect, List.getElem?_mapIdx]
  cases parsers.handles[handle]? with
  | none =>
      simp
  | some name =>
      by_cases gone : finalized handle = true <;> simp [gone]

/-- A parser that survives a collection keeps its file. -/
theorem collect_alive
    {finalized : Nat → Bool} {place : Nat} {parser : JarFileParser}
    (isParser : (JarParserCache.collect finalized parsers).cached[place]? = some (.alive parser)) :
    parsers.cached[place]? = some (.alive parser) ∧ finalized parser.handle = false := by
  simp only [JarParserCache.collect, List.getElem?_map, Option.map_eq_some_iff] at isParser
  obtain ⟨entry, isEntry, survives⟩ := isParser
  cases entry with
  | unused =>
      cases survives
  | collected =>
      cases survives
  | alive old =>
      dsimp only at survives
      by_cases gone : finalized old.handle = true
      · rw [if_pos gone] at survives
        cases survives
      · rw [if_neg gone] at survives
        cases survives
        exact ⟨isEntry, Bool.eq_false_of_not_eq_true gone⟩

theorem Sound.collect
    (sound : Sound parsers)
    (finalized : Nat → Bool) :
    Sound (JarParserCache.collect finalized parsers) := by
  apply sound.mono
  · intro place parser isParser
    exact ⟨parser, (collect_alive isParser).1, rfl, rfl⟩
  · intro place parser isParser
    rw [lookup_collect, (collect_alive isParser).2]
    rfl

/-- A file that is opened is none of those that are open. -/
theorem Sound.opened
    {name : PathName} {handle : Nat} {handles : FileHandles}
    (sound : Sound parsers)
    (opened : SlotTable.alloc name parsers.handles = some (handle, handles)) :
    Sound { parsers with handles } ∧
      ∀ (place : Nat) (parser : JarFileParser),
        parsers.cached[place]? = some (.alive parser) → parser.handle ≠ handle := by
  have others : ∀ (place : Nat) (parser : JarFileParser),
      parsers.cached[place]? = some (.alive parser) → parser.handle ≠ handle := by
    intro place parser isParser same
    have inUse := sound.denotes place parser isParser
    rw [same, SlotTable.lookup_of_alloc opened] at inUse
    cases inUse
  refine ⟨?_, others⟩
  apply sound.mono
  · intro place parser isParser
    exact ⟨parser, isParser, rfl, rfl⟩
  · intro place parser isParser
    rw [SlotTable.lookup_alloc opened, if_neg (others place parser isParser)]

/-- The new parser takes its entry, the file of the old one is closed. -/
theorem Sound.saved
    {parser : JarFileParser}
    (sound : Sound parsers)
    (isOpen : SlotTable.lookup parsers.handles parser.handle = some parser.pathname)
    (others : ∀ (place : Nat) (other : JarFileParser),
      parsers.cached[place]? = some (.alive other) → other.handle ≠ parser.handle)
    (registered : Bool) :
    Sound (saveParserInCache parsers parser registered) ∧
      SlotTable.lookup (saveParserInCache parsers parser registered).handles parser.handle =
        some parser.pathname := by
  rw [saveParserInCache]
  generalize entryToReplace parsers.cached 0 0 2147483647 = found
  dsimp only
  have kept : ∀ handle : Nat,
      (∀ old, parsers.cached[found]? = some (.alive old) → handle ≠ old.handle) →
      SlotTable.lookup ((parsers.cached.getD found .unused).dispose parsers.handles) handle =
        SlotTable.lookup parsers.handles handle := by
    intro handle different
    rw [List.getD_eq_getElem?_getD]
    cases isEntry : parsers.cached[found]? with
    | none =>
        rfl
    | some entry =>
        cases entry with
        | unused =>
            rfl
        | collected =>
            rfl
        | alive old =>
            exact (SlotTable.lookup_free _ _ _).trans (if_neg (different old isEntry))
  have keptNew := kept parser.handle fun old wasParser =>
    Ne.symm (others found old wasParser)
  have entryCases : ∀ (place : Nat) (other : JarFileParser),
      (parsers.cached.set found (if registered then .alive parser else .unused))[place]? =
          some (.alive other) →
        (place = found ∧ other = parser) ∨
          (place ≠ found ∧ parsers.cached[place]? = some (.alive other)) := by
    intro place other isParser
    by_cases here : place = found
    · subst here
      left
      obtain ⟨inside, isEntry⟩ := List.getElem?_eq_some_iff.mp isParser
      rw [List.getElem_set_self] at isEntry
      cases registered with
      | false =>
          cases isEntry
      | true =>
          cases isEntry
          exact ⟨rfl, rfl⟩
    · rw [List.getElem?_set_ne (Ne.symm here)] at isParser
      exact Or.inr ⟨here, isParser⟩
  refine ⟨⟨?_, ?_⟩, keptNew.trans isOpen⟩
  · intro place other isParser
    rcases entryCases place other isParser with ⟨_, rfl⟩ | ⟨elsewhere, wasParser⟩
    · exact keptNew.trans isOpen
    · rw [kept other.handle fun old isOld shared =>
        elsewhere (sound.distinct place found other old wasParser isOld shared)]
      exact sound.denotes place other wasParser
  · intro place place' other other' isParser isParser' shared
    rcases entryCases place other isParser with ⟨rfl, rfl⟩ | ⟨elsewhere, wasParser⟩ <;>
      rcases entryCases place' other' isParser' with ⟨rfl, rfl⟩ | ⟨elsewhere', wasParser'⟩
    · rfl
    · exact absurd shared.symm (others place' other' wasParser')
    · exact absurd shared (others place other wasParser)
    · exact sound.distinct place place' other other' wasParser wasParser' shared

end Soundness

/-! ## What a call of `get` can do -/

theorem findParser_some
    {path : PathName} {cached : List CachedParser} {place : Nat} {parser : JarFileParser}
    (found : findParser path cached = some (place, parser)) :
    cached[place]? = some (.alive parser) ∧ parser.pathname = path := by
  induction cached generalizing place with
  | nil =>
      cases found
  | cons entry rest inductionHypothesis =>
      have later : (findParser path rest).map onePlaceOn = some (place, parser) →
          (entry :: rest)[place]? = some (.alive parser) ∧ parser.pathname = path := by
        intro shifted
        obtain ⟨inner, isSome, same⟩ := Option.map_eq_some_iff.mp shifted
        cases same
        exact inductionHypothesis isSome
      cases entry with
      | unused =>
          exact later found
      | collected =>
          exact later found
      | alive other =>
          rw [findParser] at found
          by_cases same : other.pathname = path
          · rw [if_pos same] at found
            cases found
            exact ⟨rfl, same⟩
          · rw [if_neg same] at found
            exact later found

theorem findParser_none
    {path : PathName} {cached : List CachedParser}
    (missing : findParser path cached = none) :
    ∀ parser, .alive parser ∈ cached → parser.pathname ≠ path := by
  induction cached with
  | nil =>
      intro parser member
      cases member
  | cons entry rest inductionHypothesis =>
      intro parser member
      have notLater : (∀ other, entry = .alive other → other.pathname ≠ path) ∧
          findParser path rest = none := by
        cases entry with
        | unused =>
            refine ⟨?_, Option.map_eq_none_iff.mp missing⟩
            intro other isOther
            cases isOther
        | collected =>
            refine ⟨?_, Option.map_eq_none_iff.mp missing⟩
            intro other isOther
            cases isOther
        | alive other =>
            rw [findParser] at missing
            by_cases same : other.pathname = path
            · rw [if_pos same] at missing
              cases missing
            · rw [if_neg same] at missing
              refine ⟨?_, Option.map_eq_none_iff.mp missing⟩
              intro other' isOther
              cases isOther
              exact same
      rcases List.mem_cons.mp member with here | later
      · exact notLater.1 parser here.symm
      · exact inductionHypothesis notLater.2 parser later

/-- The second pass finds what the first one found: the cache is flushed behind it. -/
theorem openInPasses_eq (flash : Flash) (path : PathName) (parsers : Parsers) :
    openInPasses flash path parsers [0, 1] =
      match osFileOpen flash path parsers.handles with
      | some (handle, handles) => (some handle, { parsers with handles })
      | none => (none, flushCaches parsers) := by
  simp only [openInPasses]
  cases osFileOpen flash path parsers.handles with
  | none =>
      rfl
  | some opened =>
      rfl

/-- The ways a call of `get` can end. -/
inductive GetEnds
    (flash : Flash) (parsers : Parsers) (path : PathName) (finalized : Nat → Bool)
    (registered : Bool) : Option JarFileParser × Parsers → Prop
  | cached {place : Nat} {parser : JarFileParser} :
      parsers.cached[place]? = some (.alive parser) →
      parser.pathname = path →
      GetEnds flash parsers path finalized registered
        (some { parser with timestamp := nextTimestamp parsers },
          { parsers with
            cached := parsers.cached.set place
              (.alive { parser with timestamp := nextTimestamp parsers })
            timestamp := nextTimestamp parsers })
  | missing :
      flash.signed = false →
      GetEnds flash parsers path finalized registered (none, parsers)
  | noHandle :
      (∀ parser, .alive parser ∈ parsers.cached → parser.pathname ≠ path) →
      none ∉ (collect finalized parsers).handles →
      GetEnds flash parsers path finalized registered
        (none, flushCaches (collect finalized parsers))
  | damaged {handle : Nat} {handles : FileHandles} {timestamp : Int} :
      flash.intact = false →
      SlotTable.alloc path (collect finalized parsers).handles = some (handle, handles) →
      GetEnds flash parsers path finalized registered
        (none,
          { collect finalized parsers with
            handles := osFileClose handles handle
            timestamp })
  | opened {handle : Nat} {handles : FileHandles} {timestamp : Int} :
      SlotTable.alloc path (collect finalized parsers).handles = some (handle, handles) →
      GetEnds flash parsers path finalized registered
        (some ⟨path, handle, timestamp⟩,
          saveParserInCache { collect finalized parsers with handles, timestamp }
            ⟨path, handle, timestamp⟩ registered)

theorem get_ends
    (flash : Flash) (parsers : Parsers) (path : PathName) (finalized : Nat → Bool)
    (registered : Bool) :
    GetEnds flash parsers path finalized registered
      (get flash parsers path finalized registered) := by
  rw [get, getParserFromCache]
  cases found : findParser path parsers.cached with
  | some entry =>
      obtain ⟨place, parser⟩ := entry
      obtain ⟨isParser, samePath⟩ := findParser_some found
      exact .cached isParser samePath
  | none =>
      simp only [Option.map_none, osFileExists]
      cases signed : flash.signed with
      | false =>
          exact .missing signed
      | true =>
          rw [if_pos rfl, openInPasses_eq, osFileOpen, if_pos signed]
          cases opened :
              SlotTable.alloc path (JarParserCache.collect finalized parsers).handles with
          | none =>
              apply GetEnds.noHandle (findParser_none found)
              intro free
              have isSome := (SlotTable.alloc_isSome_iff path _).mpr free
              rw [opened] at isSome
              cases isSome
          | some slot =>
              cases intact : flash.intact with
              | false =>
                  exact .damaged intact opened
              | true =>
                  exact .opened opened

theorem get_sound
    {flash : Flash} {parsers : Parsers} {path : PathName} {finalized : Nat → Bool}
    {registered : Bool} {answer : Option JarFileParser × Parsers}
    (sound : Sound parsers)
    (ends : GetEnds flash parsers path finalized registered answer) :
    Sound answer.2 ∧
      ∀ parser, answer.1 = some parser →
        parser.pathname = path ∧ SlotTable.lookup answer.2.handles parser.handle = some path := by
  cases ends with
  | @cached place parser isParser samePath =>
      refine ⟨?_, ?_⟩
      · apply sound.mono
        · intro place' parser' isParser'
          by_cases here : place' = place
          · subst here
            obtain ⟨inside, isEntry⟩ := List.getElem?_eq_some_iff.mp isParser'
            rw [List.getElem_set_self] at isEntry
            cases isEntry
            exact ⟨parser, isParser, rfl, rfl⟩
          · rw [List.getElem?_set_ne (Ne.symm here)] at isParser'
            exact ⟨parser', isParser', rfl, rfl⟩
        · intro place' parser' _
          rfl
      · intro parser' same
        cases same
        exact ⟨samePath, samePath ▸ sound.denotes place parser isParser⟩
  | missing _ =>
      refine ⟨sound, ?_⟩
      intro parser same
      cases same
  | noHandle _ _ =>
      refine ⟨Sound.flush _, ?_⟩
      intro parser same
      cases same
  | damaged _ opened =>
      refine ⟨?_, by intro parser same; cases same⟩
      rw [osFileClose, SlotTable.free_alloc opened]
      exact (sound.collect finalized).mono
        (fun place parser isParser => ⟨parser, isParser, rfl, rfl⟩) fun _ _ _ => rfl
  | @opened handle handles timestamp opened =>
      obtain ⟨soundOpened, others⟩ := (sound.collect finalized).opened opened
      have isOpen : SlotTable.lookup handles handle = some path := by
        rw [SlotTable.lookup_alloc opened, if_pos rfl]
      have soundTimed : Sound { collect finalized parsers with handles, timestamp } :=
        soundOpened.mono (fun place parser isParser => ⟨parser, isParser, rfl, rfl⟩)
          fun _ _ _ => rfl
      obtain ⟨saved, kept⟩ :=
        @Sound.saved _ ⟨path, handle, timestamp⟩ soundTimed isOpen others registered
      refine ⟨saved, ?_⟩
      intro parser same
      cases same
      exact ⟨rfl, kept⟩

theorem respond_sound
    (flash : Flash) {parsers : Parsers} (event : Event)
    (sound : Sound parsers) :
    Sound (respond flash parsers event).2 := by
  cases event with
  | get path finalized registered =>
      exact (get_sound sound (get_ends flash parsers path finalized registered)).1
  | collect finalized =>
      exact sound.collect finalized
  | flush =>
      exact Sound.flush parsers
  | openFile name =>
      rw [respond, osFileOpen]
      split
      · rename_i handles opened
        by_cases signed : flash.signed = true
        · rw [if_pos signed] at opened
          exact (sound.opened opened).1
        · rw [if_neg signed] at opened
          cases opened
      · exact sound

/-! ## When a file can be opened -/

/-- Flushing frees the file of a cached parser. -/
theorem free_after_flush_iff
    {parsers : Parsers}
    (sound : Sound parsers) :
    none ∈ (flushCaches parsers).handles ↔
      none ∈ parsers.handles ∨ ∃ parser, .alive parser ∈ parsers.cached := by
  have inUse : ∀ parser, .alive parser ∈ parsers.cached →
      parser.handle < parsers.handles.length := by
    intro parser member
    obtain ⟨place, isParser⟩ := List.mem_iff_getElem?.mp member
    have denotes := sound.denotes place parser isParser
    by_contra outside
    rw [SlotTable.lookup, List.getElem?_eq_none (Nat.le_of_not_lt outside)] at denotes
    cases denotes
  rw [flushCaches]
  dsimp only
  generalize parsers.handles = handles at inUse
  generalize parsers.cached = cached at inUse
  induction cached generalizing handles with
  | nil =>
      simp
  | cons entry rest inductionHypothesis =>
      have sameLength : (entry.dispose handles).length = handles.length := by
        cases entry with
        | unused =>
            rfl
        | collected =>
            rfl
        | alive parser =>
            exact List.length_set
      have later := inductionHypothesis (entry.dispose handles) (by
        intro parser member
        rw [sameLength]
        exact inUse parser (List.mem_cons_of_mem _ member))
      rw [List.foldl_cons]
      apply later.trans
      cases entry with
      | unused =>
          simp [CachedParser.dispose]
      | collected =>
          simp [CachedParser.dispose]
      | alive parser =>
          have freed : none ∈ CachedParser.dispose handles (.alive parser) := by
            apply List.mem_of_getElem?
            exact List.getElem?_set_self (inUse parser List.mem_cons_self)
          apply iff_of_true (Or.inl freed)
          exact Or.inr ⟨parser, List.mem_cons_self⟩

theorem free_after_collect
    {parsers : Parsers}
    (finalized : Nat → Bool)
    (free : none ∈ parsers.handles) :
    none ∈ (collect finalized parsers).handles := by
  obtain ⟨handle, isFree⟩ := List.mem_iff_getElem?.mp free
  apply @List.mem_of_getElem? _ _ handle
  simp only [collect, List.getElem?_mapIdx, isFree, Option.map_some]
  split <;> rfl

/-- A call of `get` keeps the promise exactly when there is a handle to spare. -/
theorem getKept_iff
    {flash : Flash} {parsers : Parsers} {path : PathName} {finalized : Nat → Bool}
    {registered : Bool}
    (sound : Sound parsers) :
    GetKept flash path parsers (get flash parsers path finalized registered) ↔
      (flash.signed = true → flash.intact = true →
        HandleToSpare parsers (.get path finalized registered)) := by
  have ends := get_ends flash parsers path finalized registered
  have returned := (get_sound sound ends).2
  have openable_iff : flash.signed = true →
      ((osFileOpen flash path (flushCaches parsers).handles).isSome = true ↔
        none ∈ parsers.handles ∨ ∃ parser, .alive parser ∈ parsers.cached) := by
    intro signed
    rw [osFileOpen, if_pos signed, SlotTable.alloc_isSome_iff, free_after_flush_iff sound]
  generalize get flash parsers path finalized registered = answer at ends returned ⊢
  constructor
  · intro kept signed intact
    have recovers := kept.recovers signed intact
    rw [openable_iff signed] at recovers
    cases ends with
    | @cached place parser isParser samePath =>
        exact Or.inl ⟨parser, List.mem_of_getElem? isParser, samePath⟩
    | missing unsigned =>
        rw [unsigned] at signed
        cases signed
    | noHandle _ _ =>
        right
        right
        intro parser member
        have isSome := recovers (Or.inr ⟨parser, member⟩)
        cases isSome
    | damaged damaged _ =>
        rw [damaged] at intact
        cases intact
    | opened opened =>
        right
        left
        rw [← SlotTable.alloc_isSome_iff path, opened]
        rfl
  · intro spare
    refine ⟨returned, ?_⟩
    intro signed intact openable
    have openableNow := (openable_iff signed).mp openable
    cases ends with
    | cached _ _ =>
        rfl
    | missing unsigned =>
        rw [osFileExists, unsigned] at signed
        cases signed
    | noHandle notCached noHandle =>
        rcases spare signed intact with ⟨parser, member, samePath⟩ | free | noParser
        · exact absurd samePath (notCached parser member)
        · exact absurd free noHandle
        · rcases openableNow with free | ⟨parser, member⟩
          · exact absurd (free_after_collect finalized free) noHandle
          · exact absurd member (noParser parser)
    | damaged damaged _ =>
        rw [damaged] at intact
        cases intact
    | opened _ =>
        rfl

/-! ## All runs -/

/-- The parsers of the cache keep their files apart in every run, and the cache gives up a file
that is needed in those runs where none has to be given up. -/
theorem cacheKept_iff (flash : Flash) (events : List Event) :
    CacheKept flash events ↔
      (flash.signed = true → flash.intact = true →
        StepsMeet (respond flash) initial HandleToSpare events) := by
  have sound : ∀ before, Sound (behind flash before) := fun before =>
    state_induction initial_sound (fun _ event => respond_sound flash event) before
  constructor
  · intro kept signed intact before current after split
    cases current with
    | get path finalized registered =>
        exact (getKept_iff (sound before)).mp
          (kept.gets before path finalized registered after split) signed intact
    | collect finalized =>
        trivial
    | flush =>
        trivial
    | openFile name =>
        trivial
  · intro spare
    refine ⟨fun before _ _ => sound before, ?_⟩
    intro before path finalized registered after split
    apply (getKept_iff (sound before)).mpr
    intro signed intact
    exact spare signed intact before _ after split

/-- A parser has a file, other code has the other nine. -/
def exhausted : List Event :=
  .get [97, 0] (fun _ => false) true :: List.replicate 9 (.openFile [99, 0])

/-- The file of the parser could be given up for the next one, but is closed too late. -/
theorem exhausted_not_recovered :
    ¬ CacheKept ⟨true, true⟩ (exhausted ++ [.get [98, 0] (fun _ => false) true]) := by
  intro kept
  have recovers := (kept.gets exhausted [98, 0] (fun _ => false) true [] rfl).recovers rfl rfl
  have openable : (osFileOpen ⟨true, true⟩ [98, 0]
      (flushCaches (behind ⟨true, true⟩ exhausted)).handles).isSome = true := by
    decide
  have refused : (get ⟨true, true⟩ (behind ⟨true, true⟩ exhausted) [98, 0]
      (fun _ => false) true).1.isSome = false := by
    decide
  have succeeded := recovers openable
  rw [refused] at succeeded
  cases succeeded

end PicoJvm.JarParserCache
