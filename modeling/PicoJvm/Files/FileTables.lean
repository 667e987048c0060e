import PicoJvm.Lib.SlotTable
import PicoJvm.Lib.Transducer

/-!
# Descriptor tables

Open streams have an entry in `files`. An entry of a file on the SD card names an entry of
`sd_files`, which holds the file itself. The SD card can be unmounted while streams are open.
-/

namespace PicoJvm.Files

open PicoJvm.Lib

/-- The number of a stream, which stands for the file that it opened. -/
abbrev StreamId := Nat

/-- `fs_type`. -/
inductive FsType
  | none
  | lfs
  | fatFs
  deriving DecidableEq, Repr

/-- `file_ctx_t` of an entry in use. -/
structure FileCtx where
  fs : FsType := .none
  lfsFile : Option StreamId := none
  sdFd : Nat := 0
  deriving DecidableEq, Repr

/-- Both descriptor tables, whether the SD card is mounted, and the descriptors that the
streams of Java keep, until they are closed. -/
structure Tables where
  files : List (Option FileCtx)
  sdFiles : List (Option StreamId)
  sdMounted : Bool
  streams : List (Option Nat)
  deriving DecidableEq, Repr

/-- A call of `file_open`, with what the back ends make of it. -/
structure OpenCall where
  onSd : Bool
  mode : Int
  lfsMounted : Bool
  opened : Bool
  deriving DecidableEq, Repr

/-- The modes that both back ends know. -/
def OpenCall.modeKnown (call : OpenCall) : Bool :=
  call.mode = 0 || call.mode = 1 || call.mode = 2

/-- What happens: a stream is opened, used (read, written, flushed) or closed, an output stream
with a flush before, and the SD card is mounted and unmounted. -/
inductive FileEvent
  | opens (call : OpenCall)
  | use (stream : StreamId)
  | close (stream : StreamId) (isOutput : Bool)
  | mount (mounted : Bool)
  | unmount
  deriving DecidableEq, Repr

/-- What comes of it: the descriptor, or the files that the back ends acted on. -/
inductive FileAnswer
  | fd (result : Option Nat)
  | acted (streams : List StreamId)
  | done
  deriving DecidableEq, Repr

namespace Tables

/-- Both tables empty, with `MAX_FILES` and `SD_MAX_FILES` entries. -/
def initial : Tables :=
  { files := List.replicate 4 none, sdFiles := List.replicate 4 none
    sdMounted := false, streams := [] }

variable (tables : Tables)

/-- `sd_file_open`, for a stream. -/
def sdFileOpen (call : OpenCall) (stream : StreamId) : Option Nat × Tables :=
  match SlotTable.alloc stream tables.sdFiles with
  | none => (none, tables)
  | some (fd, sdFiles) =>
      if call.modeKnown && call.opened then
        (some fd, { tables with sdFiles })
      else
        (none, { tables with sdFiles := SlotTable.free sdFiles fd })

/-- `sd_file_close`, and the file it closes. -/
def sdFileClose (fd : Nat) : List StreamId × Tables :=
  match SlotTable.lookup tables.sdFiles fd with
  | none => ([], tables)
  | some stream => ([stream], { tables with sdFiles := SlotTable.free tables.sdFiles fd })

/-- `file_open` of both streams. -/
def fileOpen (call : OpenCall) (stream : StreamId) : Option Nat × Tables :=
  if call.onSd then
    match tables.sdFileOpen call stream with
    | (none, tables) => (none, tables)
    | (some sdFd, tables) =>
        match SlotTable.alloc {} tables.files with
        | none => (none, (tables.sdFileClose sdFd).2)
        | some (fd, files) =>
            (some fd,
              { tables with files := SlotTable.store files fd { fs := .fatFs, sdFd } })
  else if !call.lfsMounted then
    (none, tables)
  else
    match SlotTable.alloc {} tables.files with
    | none => (none, tables)
    | some (fd, files) =>
        if call.modeKnown && call.opened then
          (some fd,
            { tables with
              files := SlotTable.store files fd { fs := .lfs, lfsFile := some stream } })
        else
          (none, { tables with files := SlotTable.free files fd })

/-- The file that `file_read`, `file_write`, `file_flush` or `file_available` acts on. -/
def fileUse (fd : Nat) : List StreamId :=
  match SlotTable.lookup tables.files fd with
  | none => []
  | some ctx =>
      if ctx.fs = .fatFs then
        (SlotTable.lookup tables.sdFiles ctx.sdFd).toList
      else
        ctx.lfsFile.toList

/-- `file_close` of both streams, and the file it closes. -/
def fileClose (fd : Nat) : List StreamId × Tables :=
  match SlotTable.lookup tables.files fd with
  | none => ([], tables)
  | some ctx =>
      let (acted, tables) :=
        if ctx.fs = .fatFs then tables.sdFileClose ctx.sdFd else (ctx.lfsFile.toList, tables)
      (acted, { tables with files := SlotTable.free tables.files fd })

/-- The constructor of a stream, which is no stream when `file_open` fails. -/
def openStream (call : OpenCall) : FileAnswer × Tables :=
  match tables.fileOpen call tables.streams.length with
  | (none, tables) => (.fd none, tables)
  | (some fd, tables) => (.fd fd, { tables with streams := tables.streams ++ [some fd] })

/-- `close` of a stream. -/
def closeStream (stream : StreamId) (isOutput : Bool) : FileAnswer × Tables :=
  match SlotTable.lookup tables.streams stream with
  | none => (.acted [], tables)
  | some fd =>
      let flushed := if isOutput then tables.fileUse fd else []
      let (closed, tables) := tables.fileClose fd
      (.acted (flushed ++ closed),
        { tables with streams := SlotTable.free tables.streams stream })

/-- `SDCard.unmount`. -/
def sdUnmount : Tables :=
  if tables.sdMounted then
    { tables with sdFiles := tables.sdFiles.map fun _ => none, sdMounted := false }
  else
    tables

def respond : FileEvent → FileAnswer × Tables
  | .opens call => tables.openStream call
  | .use stream =>
      match SlotTable.lookup tables.streams stream with
      | none => (.acted [], tables)
      | some fd => (.acted (tables.fileUse fd), tables)
  | .close stream isOutput => tables.closeStream stream isOutput
  | .mount mounted => (.done, { tables with sdMounted := tables.sdMounted || mounted })
  | .unmount => (.done, tables.sdUnmount)

end Tables

/-- The stream that an event is about. -/
def FileEvent.stream : FileEvent → Option StreamId
  | .use stream => some stream
  | .close stream _ => some stream
  | _ => none

/-- Entries for the SD card name entries in use, no two of them the same one, and no stream
ever acted on the file of another one. -/
structure TablesConsistent (history : List (FileEvent × FileAnswer)) (tables : Tables) :
    Prop where
  named : ∀ fd ctx, SlotTable.lookup tables.files fd = some ctx → ctx.fs = .fatFs →
    SlotTable.lookup tables.sdFiles ctx.sdFd ≠ none
  distinct : ∀ fd fd' ctx ctx', SlotTable.lookup tables.files fd = some ctx →
    SlotTable.lookup tables.files fd' = some ctx' → ctx.fs = .fatFs → ctx'.fs = .fatFs →
    ctx.sdFd = ctx'.sdFd → fd = fd'
  own : ∀ event acted, (event, FileAnswer.acted acted) ∈ history →
    ∀ other ∈ acted, event.stream = some other

/-- The SD card is unmounted only when no entry in use is for a file on it. -/
def FileEvent.LeavesSdFiles (tables : Tables) : FileEvent → Prop
  | .unmount => tables.sdMounted = true → ∀ fd ctx,
      SlotTable.lookup tables.files fd = some ctx → ctx.fs ≠ .fatFs
  | _ => True

/-! ## What opening can do -/

namespace Tables

variable (tables : Tables)

/-- The entries that a successful `file_open` fills, on the SD card or not. -/
inductive Opens (stream : StreamId) : Nat → Tables → Prop
  | onLfs {fd files}
      (allocated : SlotTable.alloc {} tables.files = some (fd, files)) :
      Opens stream fd
        { tables with
          files := SlotTable.store files fd { fs := .lfs, lfsFile := some stream } }
  | onSd {fd files sdFd sdFiles}
      (allocated : SlotTable.alloc {} tables.files = some (fd, files))
      (sdAllocated : SlotTable.alloc stream tables.sdFiles = some (sdFd, sdFiles)) :
      Opens stream fd
        { tables with files := SlotTable.store files fd { fs := .fatFs, sdFd }, sdFiles }

theorem sdFileOpen_cases (call : OpenCall) (stream : StreamId) :
    tables.sdFileOpen call stream = (none, tables) ∨
      ∃ sdFd sdFiles, SlotTable.alloc stream tables.sdFiles = some (sdFd, sdFiles) ∧
        tables.sdFileOpen call stream = (some sdFd, { tables with sdFiles }) := by
  unfold sdFileOpen
  cases sdAllocated : SlotTable.alloc stream tables.sdFiles with
  | none =>
      exact Or.inl rfl
  | some slot =>
      obtain ⟨sdFd, sdFiles⟩ := slot
      dsimp only
      split
      · exact Or.inr ⟨sdFd, sdFiles, rfl, rfl⟩
      · left
        rw [SlotTable.free_alloc sdAllocated]

/-- `file_open` fails and leaves both tables as they were, or fills new entries. -/
theorem fileOpen_cases (call : OpenCall) (stream : StreamId) :
    tables.fileOpen call stream = (none, tables) ∨
      ∃ fd next, tables.fileOpen call stream = (some fd, next) ∧ Opens tables stream fd next := by
  unfold fileOpen
  by_cases onSd : call.onSd
  · rw [if_pos onSd]
    rcases tables.sdFileOpen_cases call stream with failed | ⟨sdFd, sdFiles, sdAllocated, opened⟩
    · rw [failed]
      exact Or.inl rfl
    · rw [opened]
      dsimp only
      cases allocated : SlotTable.alloc {} tables.files with
      | none =>
          left
          have used : SlotTable.lookup sdFiles sdFd = some stream := by
            rw [SlotTable.lookup_alloc sdAllocated, if_pos rfl]
          simp only [sdFileClose, used, SlotTable.free_alloc sdAllocated]
      | some slot =>
          exact Or.inr ⟨slot.1, _, rfl, .onSd allocated sdAllocated⟩
  · rw [if_neg onSd]
    split
    · exact Or.inl rfl
    · cases allocated : SlotTable.alloc {} tables.files with
      | none =>
          exact Or.inl rfl
      | some slot =>
          obtain ⟨fd, files⟩ := slot
          dsimp only
          split
          · exact Or.inr ⟨fd, _, rfl, .onLfs allocated⟩
          · left
            rw [SlotTable.free_alloc allocated]

theorem sdFileClose_streams (fd : Nat) :
    (tables.sdFileClose fd).2.streams = tables.streams := by
  unfold sdFileClose
  split <;> rfl

theorem fileClose_streams (fd : Nat) :
    (tables.fileClose fd).2.streams = tables.streams := by
  unfold fileClose
  split
  · rfl
  · dsimp only
    split
    · exact tables.sdFileClose_streams _
    · rfl

end Tables

/-! ## Who owns an entry -/

namespace Tables

/-- The entry of a file that a stream opened. -/
def Serves (tables : Tables) (ctx : FileCtx) (stream : StreamId) : Prop :=
  if ctx.fs = .fatFs then
    SlotTable.lookup tables.sdFiles ctx.sdFd = some stream
  else
    ctx.lfsFile = some stream

/-- Each open stream has an entry that serves it, and each entry serves an open stream. -/
structure Owned (tables : Tables) : Prop where
  served : ∀ stream fd, SlotTable.lookup tables.streams stream = some fd →
    ∃ ctx, SlotTable.lookup tables.files fd = some ctx ∧ tables.Serves ctx stream
  owner : ∀ fd ctx, SlotTable.lookup tables.files fd = some ctx →
    ∃ stream, SlotTable.lookup tables.streams stream = some fd

theorem initial_owned : Owned initial where
  served := by
    intro stream fd isStream
    simp [initial, SlotTable.lookup] at isStream
  owner := by
    intro fd ctx used
    have unused : SlotTable.lookup initial.files fd = none := by
      simp only [SlotTable.lookup, initial, List.getElem?_replicate]
      split <;> rfl
    rw [unused] at used
    cases used

namespace Owned

variable {tables : Tables}

/-- An entry serves the stream that keeps its number. -/
theorem serves
    (owned : Owned tables)
    {fd : Nat} {ctx : FileCtx}
    (used : SlotTable.lookup tables.files fd = some ctx) :
    ∃ stream, SlotTable.lookup tables.streams stream = some fd ∧ tables.Serves ctx stream := by
  obtain ⟨stream, isStream⟩ := owned.owner fd ctx used
  obtain ⟨ctx', used', serves⟩ := owned.served stream fd isStream
  rw [used, Option.some.injEq] at used'
  rw [used']
  exact ⟨stream, isStream, serves⟩

/-- No two streams keep the same descriptor. -/
theorem fd_injective
    (owned : Owned tables)
    {stream stream' fd : Nat}
    (isStream : SlotTable.lookup tables.streams stream = some fd)
    (isStream' : SlotTable.lookup tables.streams stream' = some fd) :
    stream = stream' := by
  obtain ⟨ctx, used, serves⟩ := owned.served stream fd isStream
  obtain ⟨ctx', used', serves'⟩ := owned.served stream' fd isStream'
  rw [used, Option.some.injEq] at used'
  subst used'
  unfold Serves at serves serves'
  split at serves
  · rw [if_pos ‹_›, serves] at serves'
    exact Option.some.inj serves'
  · rw [if_neg ‹_›, serves] at serves'
    exact Option.some.inj serves'

theorem named
    (owned : Owned tables)
    {fd : Nat} {ctx : FileCtx}
    (used : SlotTable.lookup tables.files fd = some ctx)
    (onSd : ctx.fs = .fatFs) :
    SlotTable.lookup tables.sdFiles ctx.sdFd ≠ none := by
  obtain ⟨stream, _, serves⟩ := owned.serves used
  rw [Serves, if_pos onSd] at serves
  rw [serves]
  exact Option.some_ne_none stream

theorem distinct
    (owned : Owned tables)
    {fd fd' : Nat} {ctx ctx' : FileCtx}
    (used : SlotTable.lookup tables.files fd = some ctx)
    (used' : SlotTable.lookup tables.files fd' = some ctx')
    (onSd : ctx.fs = .fatFs)
    (onSd' : ctx'.fs = .fatFs)
    (same : ctx.sdFd = ctx'.sdFd) :
    fd = fd' := by
  obtain ⟨stream, isStream, serves⟩ := owned.serves used
  obtain ⟨stream', isStream', serves'⟩ := owned.serves used'
  rw [Serves, if_pos onSd] at serves
  rw [Serves, if_pos onSd', ← same, serves, Option.some.injEq] at serves'
  subst serves'
  rw [isStream, Option.some.injEq] at isStream'
  exact isStream'

/-- A stream acts on its own file, if on any. -/
theorem fileUse_own
    (owned : Owned tables)
    {stream fd : Nat}
    (isStream : SlotTable.lookup tables.streams stream = some fd) :
    tables.fileUse fd = [stream] := by
  obtain ⟨ctx, used, serves⟩ := owned.served stream fd isStream
  unfold fileUse
  rw [used]
  unfold Serves at serves
  dsimp only
  split
  · rw [if_pos ‹_›] at serves
    rw [serves]
    rfl
  · rw [if_neg ‹_›] at serves
    rw [serves]
    rfl

/-- Giving back an entry and its stream, as long as the files of other entries stay. -/
theorem close
    (owned : Owned tables)
    {stream fd : Nat} {sdFiles : List (Option StreamId)}
    (isStream : SlotTable.lookup tables.streams stream = some fd)
    (kept : ∀ fd' ctx', SlotTable.lookup tables.files fd' = some ctx' → fd' ≠ fd →
      ctx'.fs = .fatFs →
      SlotTable.lookup sdFiles ctx'.sdFd = SlotTable.lookup tables.sdFiles ctx'.sdFd) :
    Owned { tables with
      files := SlotTable.free tables.files fd
      sdFiles
      streams := SlotTable.free tables.streams stream } where
  served := by
    intro stream' fd' isStream'
    rw [SlotTable.lookup_free] at isStream'
    split at isStream'
    · cases isStream'
    · rename_i otherStream
      obtain ⟨ctx', used', serves'⟩ := owned.served stream' fd' isStream'
      have otherFd : fd' ≠ fd := by
        intro same
        rw [same] at isStream'
        exact otherStream (owned.fd_injective isStream' isStream)
      refine ⟨ctx', ?_, ?_⟩
      · rw [SlotTable.lookup_free, if_neg otherFd, used']
      · unfold Serves at serves' ⊢
        split
        · rename_i onSd
          rw [if_pos onSd] at serves'
          rw [kept fd' ctx' used' otherFd onSd, serves']
        · rename_i notOnSd
          rw [if_neg notOnSd] at serves'
          exact serves'
  owner := by
    intro fd' ctx' used'
    rw [SlotTable.lookup_free] at used'
    split at used'
    · cases used'
    · rename_i otherFd
      obtain ⟨stream', isStream'⟩ := owned.owner fd' ctx' used'
      refine ⟨stream', ?_⟩
      rw [SlotTable.lookup_free, if_neg, isStream']
      intro same
      rw [same, isStream, Option.some.injEq] at isStream'
      exact otherFd isStream'.symm

/-- A stream that is closed closes its own file. -/
theorem fileClose
    (owned : Owned tables)
    {stream fd : Nat}
    (isStream : SlotTable.lookup tables.streams stream = some fd) :
    (tables.fileClose fd).1 = [stream] ∧
      Owned { (tables.fileClose fd).2 with
        streams := SlotTable.free tables.streams stream } := by
  obtain ⟨ctx, used, serves⟩ := owned.served stream fd isStream
  unfold Serves at serves
  unfold Tables.fileClose
  rw [used]
  dsimp only
  split
  · rename_i onSd
    rw [if_pos onSd] at serves
    unfold sdFileClose
    rw [serves]
    refine ⟨rfl, owned.close isStream ?_⟩
    intro fd' ctx' used' otherFd onSd'
    rw [SlotTable.lookup_free, if_neg]
    intro same
    exact otherFd (owned.distinct used' used onSd' onSd same)
  · rename_i notOnSd
    rw [if_neg notOnSd] at serves
    rw [serves]
    exact ⟨rfl, owned.close isStream (fun _ _ _ _ _ => rfl)⟩

/-- A new entry for a new stream, as long as the files of other entries stay. -/
theorem add
    (owned : Owned tables)
    {files next : List (Option FileCtx)} {blank ctx : FileCtx} {fd : Nat}
    {sdFiles : List (Option StreamId)}
    (allocated : SlotTable.alloc blank tables.files = some (fd, next))
    (stored : files = SlotTable.store next fd ctx)
    (kept : ∀ fd' ctx', SlotTable.lookup tables.files fd' = some ctx' → ctx'.fs = .fatFs →
      SlotTable.lookup sdFiles ctx'.sdFd = SlotTable.lookup tables.sdFiles ctx'.sdFd)
    (serves : Serves { tables with sdFiles } ctx tables.streams.length) :
    Owned { tables with files, sdFiles, streams := tables.streams ++ [some fd] } where
  served := by
    intro stream' fd' isStream'
    have otherFiles : ∀ place, SlotTable.lookup files place =
        if place = fd then some ctx else SlotTable.lookup tables.files place := by
      intro place
      rw [stored, SlotTable.lookup_store allocated]
    simp only [SlotTable.lookup, List.getElem?_append] at isStream'
    split at isStream'
    · obtain ⟨ctx', used', serves'⟩ := owned.served stream' fd' isStream'
      have otherFd : fd' ≠ fd := by
        intro same
        rw [same, SlotTable.lookup_of_alloc allocated] at used'
        cases used'
      refine ⟨ctx', ?_, ?_⟩
      · rw [otherFiles, if_neg otherFd, used']
      · unfold Serves at serves' ⊢
        split
        · rename_i onSd
          rw [if_pos onSd] at serves'
          rw [kept fd' ctx' used' onSd, serves']
        · rename_i notOnSd
          rw [if_neg notOnSd] at serves'
          exact serves'
    · rename_i behind
      rcases Nat.eq_or_lt_of_le (Nat.le_of_not_lt behind) with last | outside
      · rw [← last, Nat.sub_self] at isStream'
        obtain rfl : fd = fd' := Option.some.inj isStream'
        refine ⟨ctx, ?_, ?_⟩
        · rw [otherFiles, if_pos rfl]
        · rw [← last]
          exact serves
      · rw [List.getElem?_eq_none (by simp only [List.length_singleton]; omega)] at isStream'
        cases isStream'
  owner := by
    intro fd' ctx' used'
    rw [stored, SlotTable.lookup_store allocated] at used'
    split at used'
    · rename_i sameFd
      refine ⟨tables.streams.length, ?_⟩
      rw [SlotTable.lookup, List.getElem?_append_right (Nat.le_refl _), Nat.sub_self, sameFd]
      rfl
    · obtain ⟨stream', isStream'⟩ := owned.owner fd' ctx' used'
      refine ⟨stream', ?_⟩
      have inside : stream' < tables.streams.length := by
        by_contra outside
        rw [SlotTable.lookup, List.getElem?_eq_none (by omega)] at isStream'
        cases isStream'
      rw [SlotTable.lookup, List.getElem?_append_left inside]
      exact isStream'

/-- A new stream gets entries that served no other one. -/
theorem openStream
    (owned : Owned tables)
    (call : OpenCall) :
    Owned (tables.openStream call).2 := by
  unfold Tables.openStream
  rcases tables.fileOpen_cases call tables.streams.length with failed | ⟨fd, next, opened, opens⟩
  · rw [failed]
    exact owned
  · rw [opened]
    cases opens with
    | onLfs allocated =>
        exact owned.add allocated rfl (fun _ _ _ _ => rfl) rfl
    | onSd allocated sdAllocated =>
        refine owned.add allocated rfl ?_ ?_
        · intro fd' ctx' used' onSd'
          rw [SlotTable.lookup_alloc sdAllocated, if_neg]
          intro same
          have free := SlotTable.lookup_of_alloc sdAllocated
          rw [← same] at free
          exact owned.named used' onSd' free
        · rw [Serves, if_pos rfl, SlotTable.lookup_alloc sdAllocated, if_pos rfl]

/-- What a step preserves, when unmounting leaves no entry behind. -/
theorem respond
    (owned : Owned tables)
    {event : FileEvent}
    (leaves : event.LeavesSdFiles tables) :
    Owned (tables.respond event).2 := by
  cases event with
  | opens call =>
      exact owned.openStream call
  | use stream =>
      simp only [Tables.respond]
      split <;> exact owned
  | close stream isOutput =>
      simp only [Tables.respond, closeStream]
      split
      · exact owned
      · rw [fileClose_streams]
        exact (owned.fileClose ‹_›).2
  | mount mounted =>
      exact ⟨owned.served, owned.owner⟩
  | unmount =>
      simp only [Tables.respond, sdUnmount]
      split
      · rename_i mounted
        refine ⟨?_, owned.owner⟩
        intro stream fd isStream
        obtain ⟨ctx, used, serves⟩ := owned.served stream fd isStream
        have notOnSd := leaves mounted fd ctx used
        refine ⟨ctx, used, ?_⟩
        rw [Serves, if_neg notOnSd] at serves ⊢
        exact serves
      · exact owned

/-- The files that a step acts on are those of its own stream. -/
theorem acted
    (owned : Owned tables)
    {event : FileEvent} {acted : List StreamId}
    (answer : (tables.respond event).1 = .acted acted)
    {other : StreamId}
    (isActed : other ∈ acted) :
    event.stream = some other := by
  cases event with
  | opens call =>
      simp only [Tables.respond, Tables.openStream] at answer
      split at answer <;> cases answer
  | use stream =>
      simp only [Tables.respond] at answer
      split at answer
      · obtain rfl : [] = acted := FileAnswer.acted.inj answer
        cases isActed
      · rename_i isStream
        rw [owned.fileUse_own isStream] at answer
        obtain rfl : [stream] = acted := FileAnswer.acted.inj answer
        rw [List.mem_singleton.mp isActed]
        rfl
  | close stream isOutput =>
      simp only [Tables.respond, closeStream] at answer
      split at answer
      · obtain rfl : [] = acted := FileAnswer.acted.inj answer
        cases isActed
      · rename_i isStream
        rw [owned.fileUse_own isStream, (owned.fileClose isStream).1] at answer
        obtain rfl := FileAnswer.acted.inj answer
        have same : other = stream := by
          cases isOutput <;> simpa using isActed
        rw [same]
        rfl
  | mount mounted =>
      cases answer
  | unmount =>
      cases answer

end Owned

end Tables

/-! ## Runs -/

/-- The events of a run from empty tables with what came of them. -/
def fileHistory (events : List FileEvent) : List (FileEvent × FileAnswer) :=
  Transducer.historyOf Tables.respond .initial events

def tablesAfter (events : List FileEvent) : Tables :=
  Transducer.stateAfter Tables.respond .initial events

theorem consistent_of_owned
    {history : List (FileEvent × FileAnswer)} {tables : Tables}
    (owned : Tables.Owned tables)
    (own : ∀ event acted, (event, FileAnswer.acted acted) ∈ history →
      ∀ other ∈ acted, event.stream = some other) :
    TablesConsistent history tables where
  named := fun _ _ used onSd => owned.named used onSd
  distinct := fun _ _ _ _ used used' onSd onSd' same => owned.distinct used used' onSd onSd' same
  own := own

theorem consistent_of_leaves
    {events : List FileEvent}
    (leaves : Transducer.StepsMeet Tables.respond .initial
      (fun tables event => event.LeavesSdFiles tables) events) :
    TablesConsistent (fileHistory events) (tablesAfter events) := by
  have reached := Transducer.history_induction
    (fun history tables => Tables.Owned tables ∧ ∀ event acted,
      (event, FileAnswer.acted acted) ∈ history → ∀ other ∈ acted, event.stream = some other)
    ⟨Tables.initial_owned, fun _ _ none => absurd none List.not_mem_nil⟩ ?_ leaves
  · exact consistent_of_owned reached.1 reached.2
  · rintro history tables event ⟨owned, own⟩ leaves
    refine ⟨owned.respond leaves, ?_⟩
    intro event' acted isEntry other isActed
    rcases List.mem_append.mp isEntry with earlier | last
    · exact own event' acted earlier other isActed
    · obtain ⟨rfl, answer⟩ := Prod.mk.inj (List.mem_singleton.mp last)
      exact owned.acted answer.symm isActed

/-- Unmounting frees all entries for files on the SD card. -/
theorem leaves_of_consistent
    {history : List (FileEvent × FileAnswer)} {tables : Tables} {event : FileEvent}
    (consistent : TablesConsistent history (tables.respond event).2) :
    event.LeavesSdFiles tables := by
  cases event with
  | unmount =>
      intro mounted fd ctx used onSd
      simp only [Tables.respond, Tables.sdUnmount, mounted, if_true] at consistent
      refine consistent.named fd ctx used onSd ?_
      simp only [SlotTable.lookup, List.getElem?_map]
      cases tables.sdFiles[ctx.sdFd]? <;> rfl
  | opens call => trivial
  | use stream => trivial
  | close stream isOutput => trivial
  | mount mounted => trivial

/-- In all of a run the tables are consistent, if and only if the SD card is never unmounted
while a stream has a file on it. -/
theorem tables_consistent_iff (events : List FileEvent) :
    (∀ before after, events = before ++ after →
        TablesConsistent (fileHistory before) (tablesAfter before)) ↔
      ∀ before event after, events = before ++ event :: after →
        event.LeavesSdFiles (tablesAfter before) := by
  constructor
  · intro consistent before event after split
    have next := consistent (before ++ [event]) after (by rw [split]; simp)
    rw [tablesAfter, Transducer.stateAfter_snoc] at next
    exact leaves_of_consistent next
  · intro leaves before after split
    refine consistent_of_leaves ?_
    intro before' event after' split'
    exact leaves before' event (after' ++ after) (by rw [split, split']; simp)

/-- A stream on the SD card is open when that is unmounted, mounted again, and another stream
gets the entry that became free. -/
def unmountedUnderStream : List FileEvent :=
  [.mount true, .opens ⟨true, 1, true, true⟩, .unmount, .mount true,
    .opens ⟨true, 0, true, true⟩, .use 0]

/-- The first stream then acts on the file of the second, and two entries name one file. -/
theorem unmountedUnderStream_inconsistent :
    ¬ TablesConsistent (fileHistory unmountedUnderStream) (tablesAfter unmountedUnderStream) := by
  intro consistent
  have acted : (FileEvent.use 0, FileAnswer.acted [1]) ∈ fileHistory unmountedUnderStream := by
    decide
  have other := consistent.own _ _ acted 1 (List.mem_singleton_self 1)
  cases other

end PicoJvm.Files
