import PicoJvm.Files.CentralDirectory

/-!
# What an enumeration visits

Each round looks at the header where the parser stands and leaves the parser behind it. Calls that
resume go on where the one before has stopped.
-/

namespace PicoJvm.Files

open PicoJvm.Lib
open PicoJvm.Lib.Machine
open PicoJvm.Lib.Fallible

variable {caller : Type}

/-! ## What becomes of entries -/

/-- Callbacks that use a parser only as its own functions do: they leave it at an entry. -/
structure Callbacks.Respect (archive : Archive) (callbacks : Callbacks caller) : Prop where
  filter : ∀ proc ∈ callbacks.entryFilterProc, ∀ name data parser,
    archive.AtEntry parser → archive.AtEntry (proc name (data, parser)).2.2
  visit : ∀ proc ∈ callbacks.doJarEntryProc, ∀ name contents data parser,
    archive.AtEntry parser → archive.AtEntry (proc name contents (data, parser)).2.2

/-- An entry is handed over if and only if it passes the filter. -/
def Seen.DealtWith (callbacks : Callbacks caller) (entry : Seen) : Prop :=
  entry.contents.isSome = (entry.passed && callbacks.doJarEntryProc.isSome)

/-- Where calls have come to: the entries they have seen, the headers that are left, and the
number they have returned. -/
structure Progress (archive : Archive) (callbacks : Callbacks caller) (seen : List Seen)
    (left : List Nat) (id : Int) : Prop where
  dealtWith : id ≠ -1 → ∀ entry ∈ seen, entry.raised = false → entry.DealtWith callbacks
  resumes : 0 < id → Trail (NextHeader archive.data) id.toNat left archive.last
  complete : id = 0 →
    left = [] ∨ ∃ entry, seen.getLast? = some entry ∧ (entry.goesOn = false ∨ entry.raised = true)
  failed : id < 0 → id = -1 ∧
    ((∃ place, left.head? = some place ∧ maxEntryName ≤ nameLength archive.data place) ∨
      ∃ entry, seen.getLast? = some entry ∧
        (entry.raised = true ∨ ¬ entry.DealtWith callbacks))

theorem Progress.of_failed
    {archive : Archive} {callbacks : Callbacks caller} {seen : List Seen} {left : List Nat}
    (reason : (∃ place, left.head? = some place ∧ maxEntryName ≤ nameLength archive.data place) ∨
      ∃ entry, seen.getLast? = some entry ∧
        (entry.raised = true ∨ ¬ entry.DealtWith callbacks)) :
    Progress archive callbacks seen left (-1) where
  dealtWith := by
    intro notFailed
    exact absurd rfl notFailed
  resumes := by
    intro positive
    omega
  complete := by
    intro zero
    omega
  failed := by
    intro _
    exact ⟨rfl, reason⟩

theorem Progress.of_zero
    {archive : Archive} {callbacks : Callbacks caller} {seen : List Seen} {left : List Nat}
    (dealtWith : ∀ entry ∈ seen, entry.raised = false → entry.DealtWith callbacks)
    (complete : left = [] ∨
      ∃ entry, seen.getLast? = some entry ∧ (entry.goesOn = false ∨ entry.raised = true)) :
    Progress archive callbacks seen left 0 where
  dealtWith := by
    intro _
    exact dealtWith
  resumes := by
    intro positive
    omega
  complete := by
    intro _
    exact complete
  failed := by
    intro negative
    omega

/-- Entries that were seen before. -/
theorem Progress.behind
    {archive : Archive} {callbacks : Callbacks caller} {seen : List Seen} {left : List Nat}
    {id : Int}
    (progress : Progress archive callbacks seen left id)
    {before : List Seen}
    (dealtWith : ∀ entry ∈ before, entry.raised = false → entry.DealtWith callbacks) :
    Progress archive callbacks (before ++ seen) left id := by
  have sameLast : ∀ entry, seen.getLast? = some entry →
      (before ++ seen).getLast? = some entry := by
    intro entry last
    rw [List.getLast?_append, last]
    rfl
  refine ⟨?_, progress.resumes, ?_, ?_⟩
  · intro notFailed entry member
    rcases List.mem_append.mp member with earlier | later
    · exact dealtWith entry earlier
    · exact progress.dealtWith notFailed entry later
  · intro zero
    rcases progress.complete zero with none | ⟨entry, last, ends⟩
    · exact .inl none
    · exact .inr ⟨entry, sameLast entry last, ends⟩
  · intro negative
    obtain ⟨failed, reason⟩ := progress.failed negative
    refine ⟨failed, ?_⟩
    rcases reason with long | ⟨entry, last, ends⟩
    · exact .inl long
    · exact .inr ⟨entry, sameLast entry last, ends⟩

/-! ## One round -/

/-- How an entry that is handled leaves the loop. -/
def Seen.Explains (callbacks : Callbacks caller) (entry : Seen) : Option Exit → Prop
  | none => entry.DealtWith callbacks
  | some .failed => entry.raised = true ∨ ¬ entry.DealtWith callbacks
  | some .interrupted => entry.raised = true
  | some .stopped => entry.goesOn = false ∧ entry.DealtWith callbacks
  | some .finished => False

/-- An entry of this name is handled, and the parser stands behind it if the loop goes on. -/
structure Handled (archive : Archive) (callbacks : Callbacks caller) (name : List UInt8)
    (nextCenOffset : UInt32) (before : List Seen) (walk : Walk caller) (exit : Option Exit) :
    Prop where
  opened : archive.Opened walk.parser
  noted : ∃ entry, entry.name = name ∧ walk.seen = before ++ [entry] ∧
    entry.Explains callbacks exit
  moved : exit = none → walk.parser.currentEntry.nextCenOffset = nextCenOffset

section Round

variable {archive : Archive} {callbacks : Callbacks caller}

theorem advance_handled
    (walk : Walk caller)
    (nextCenOffset : UInt32)
    (opened : archive.Opened walk.parser)
    {before : List Seen}
    (entry : Seen)
    (noted : walk.seen = before ++ [entry])
    (dealtWith : entry.DealtWith callbacks) :
    Handled archive callbacks entry.name nextCenOffset before
      (walk.advance nextCenOffset entry.raised).1 (walk.advance nextCenOffset entry.raised).2 := by
  cases raised : entry.raised with
  | true =>
      exact ⟨opened, ⟨entry, rfl, noted, .inl raised⟩, fun goesOn => by cases goesOn⟩
  | false =>
      exact ⟨⟨opened.held, opened.locOffset⟩, ⟨entry, rfl, noted, dealtWith⟩, fun _ => rfl⟩

theorem handOver_handled
    (decode : Decode)
    {proc : List UInt8 → List UInt8 → caller × EntryParser → Reply × caller × EntryParser}
    (visitor : callbacks.doJarEntryProc = some proc)
    (respect : callbacks.Respect archive)
    (name : List UInt8)
    (nextCenOffset : UInt32)
    (pending : Bool)
    {state : caller × EntryParser}
    (atEntry : archive.AtEntry state.2)
    (walk : Walk caller) :
    ∃ walk' exit, walk.handOver decode proc name nextCenOffset pending state = .ok (walk', exit) ∧
      Handled archive callbacks name nextCenOffset walk.seen walk' exit := by
  obtain ⟨loaded, parser, loading, atEntry'⟩ := loadEntry_returns decode pending atEntry
  have handing : walk.handOver decode proc name nextCenOffset pending state = _ >>= _ := rfl
  rw [loading, ok_bind] at handing
  dsimp only at handing
  cases loaded with
  | thrown =>
      exact ⟨_, _, handing, atEntry'.toOpened, ⟨_, rfl, rfl, rfl⟩, fun goesOn => by cases goesOn⟩
  | null =>
      refine ⟨_, _, handing, atEntry'.toOpened, ⟨_, rfl, rfl, .inr ?_⟩,
        fun goesOn => by cases goesOn⟩
      simp [Seen.DealtWith, visitor]
  | buffer contents =>
      have atEntry'' := respect.visit proc visitor name contents state.1 parser atEntry'
      dsimp only at handing
      generalize proc name contents (state.1, parser) = answer at handing atEntry''
      obtain ⟨reply, data, parser'⟩ := answer
      have dealtWith : Seen.DealtWith callbacks
          ⟨name, true, some contents, reply.result, reply.pending⟩ := by
        simp [Seen.DealtWith, visitor]
      cases result : reply.result with
      | true =>
          rw [result] at handing dealtWith
          exact ⟨_, _, handing, advance_handled
            (walk.note ⟨name, true, some contents, true, reply.pending⟩ (data, parser'))
            nextCenOffset atEntry''.toOpened _ rfl dealtWith⟩
      | false =>
          rw [result] at handing dealtWith
          exact ⟨_, _, handing, atEntry''.toOpened, ⟨_, rfl, rfl, rfl, dealtWith⟩,
            fun goesOn => by cases goesOn⟩

theorem filter_atEntry
    (respect : callbacks.Respect archive)
    (name : List UInt8)
    (data : caller)
    {parser : EntryParser}
    (atEntry : archive.AtEntry parser) :
    archive.AtEntry (callbacks.filter name (data, parser)).2.2 := by
  unfold Callbacks.filter
  split
  · exact atEntry
  · rename_i proc given
    exact respect.filter proc given name data parser atEntry

theorem handle_handled
    (decode : Decode)
    (respect : callbacks.Respect archive)
    (name : List UInt8)
    (nextCenOffset : UInt32)
    (walk : Walk caller)
    (atEntry : archive.AtEntry walk.parser) :
    ∃ walk' exit, walk.handle decode callbacks name nextCenOffset = .ok (walk', exit) ∧
      Handled archive callbacks name nextCenOffset walk.seen walk' exit := by
  have filtered := filter_atEntry respect name walk.data atEntry
  unfold Walk.handle
  generalize callbacks.filter name (walk.data, walk.parser) = answer at filtered ⊢
  obtain ⟨reply, state⟩ := answer
  dsimp only
  split
  · rename_i passed visitor
    exact handOver_handled decode visitor respect name nextCenOffset reply.pending filtered walk
  · rename_i visits
    refine ⟨_, _, rfl, advance_handled _ nextCenOffset filtered.toOpened
      ⟨name, reply.result, none, true, reply.pending⟩ rfl ?_⟩
    cases passed : reply.result with
    | false =>
        simp [Seen.DealtWith]
    | true =>
        cases visitor : callbacks.doJarEntryProc with
        | none =>
            simp [Seen.DealtWith, visitor]
        | some proc =>
            exact absurd visitor (visits proc passed)

/-- A round at a header: the name is too long, or its entry is handled. -/
theorem round_header
    (decode : Decode)
    (respect : callbacks.Respect archive)
    {walk : Walk caller}
    (opened : archive.Opened walk.parser)
    {place next : Nat}
    (atPlace : walk.parser.currentEntry.nextCenOffset.toNat = place)
    (step : NextHeader archive.data place next)
    (localHeader : (archive.locOffset +
      UInt32.ofNat (field archive.data (place + 42) 4)).toNat < 2147483648) :
    ∃ walk' exit, walk.round decode callbacks = .ok (walk', exit) ∧
      (exit = some .failed ∧ archive.Opened walk'.parser ∧ walk'.seen = walk.seen ∧
          maxEntryName ≤ nameLength archive.data place ∨
        Handled archive callbacks (nameAt archive.data place) (UInt32.ofNat next) walk.seen
          walk' exit) := by
  obtain ⟨parser, found, reading, atEntry, long | entry⟩ :=
    readNext_header opened atPlace step localHeader
  · obtain ⟨unreadable, tooLong⟩ := long
    refine ⟨{ walk with parser }, some .failed, ?_, .inl ⟨rfl, atEntry.toOpened, rfl, tooLong⟩⟩
    rw [Walk.round, reading, unreadable]
    rfl
  · obtain ⟨walk', exit, handling, handled⟩ := handle_handled decode respect
      (nameAt archive.data place) (UInt32.ofNat next) { walk with parser } atEntry
    refine ⟨walk', exit, ?_, .inr handled⟩
    rw [Walk.round, reading, entry]
    exact handling

/-- A round behind the last header. -/
theorem round_end
    (decode : Decode)
    (callbacks : Callbacks caller)
    {walk : Walk caller}
    (opened : archive.Opened walk.parser)
    (atPlace : walk.parser.currentEntry.nextCenOffset.toNat = archive.last) :
    ∃ parser, walk.round decode callbacks = .ok ({ walk with parser }, some .finished) ∧
      archive.Opened parser := by
  obtain ⟨parser, reading, opened'⟩ := readNext_end opened atPlace archive.inside archive.ends
  refine ⟨parser, ?_, opened'⟩
  rw [Walk.round, reading]
  rfl

/-! ## A call -/

/-- What a call does from a place of the directory on. -/
structure Advanced (archive : Archive) (callbacks : Callbacks caller) (places : List Nat)
    (before : List Seen) (walk : Walk caller) (id : Int) : Prop where
  opened : archive.Opened walk.parser
  visited : ∃ seen done left, places = done ++ left ∧ walk.seen = before ++ seen ∧
    seen.map Seen.name = done.map (nameAt archive.data) ∧ Progress archive callbacks seen left id

/-- Nothing is seen any more. -/
theorem Advanced.nothing
    {places : List Nat} {before : List Seen} {walk : Walk caller} {id : Int}
    (opened : archive.Opened walk.parser)
    (same : walk.seen = before)
    (progress : Progress archive callbacks [] places id) :
    Advanced archive callbacks places before walk id :=
  ⟨opened, [], [], places, rfl, same.trans (List.append_nil _).symm, rfl, progress⟩

/-- An entry that is dealt with comes first. -/
theorem Advanced.cons
    {places : List Nat} {before : List Seen} {walk : Walk caller} {id : Int} {entry : Seen}
    (advanced : Advanced archive callbacks places (before ++ [entry]) walk id)
    {place : Nat}
    (named : entry.name = nameAt archive.data place)
    (dealtWith : entry.DealtWith callbacks) :
    Advanced archive callbacks (place :: places) before walk id := by
  obtain ⟨seen, done, left, split, noted, names, progress⟩ := advanced.visited
  refine ⟨advanced.opened, entry :: seen, place :: done, left, ?_, ?_, ?_, ?_⟩
  · rw [split, List.cons_append]
  · rw [noted, List.append_assoc, List.singleton_append]
  · rw [List.map_cons, List.map_cons, names, named]
  · have only : ∀ other ∈ [entry], other.raised = false → other.DealtWith callbacks := by
      intro other member _
      rw [List.mem_singleton.mp member]
      exact dealtWith
    exact progress.behind only

/-- An entry that leaves the function. -/
theorem Handled.left
    {place next : Nat} {places : List Nat} {before : List Seen} {walk : Walk caller} {exit : Exit}
    (handled : Handled archive callbacks (nameAt archive.data place) (UInt32.ofNat next) before
      walk (some exit))
    (maxSize : Int) :
    Advanced archive callbacks (place :: places) before walk (walk.returned maxSize exit) := by
  obtain ⟨entry, named, noted, explains⟩ := handled.noted
  refine ⟨handled.opened, [entry], [place], places, rfl, noted, ?_, ?_⟩
  · rw [List.map_singleton, List.map_singleton, named]
  · have only : ∀ other ∈ [entry], other = entry := fun other member => List.mem_singleton.mp member
    cases exit with
    | failed =>
        exact .of_failed (.inr ⟨entry, rfl, explains⟩)
    | interrupted =>
        apply Progress.of_zero
        · intro other member notRaised
          rw [only other member, explains] at notRaised
          cases notRaised
        · exact .inr ⟨entry, rfl, .inr explains⟩
    | stopped =>
        apply Progress.of_zero
        · intro other member _
          rw [only other member]
          exact explains.2
        · exact .inr ⟨entry, rfl, .inl explains.1⟩
    | finished =>
        exact explains.elim

end Round

section Call

variable {archive : Archive} {callbacks : Callbacks caller}

/-- The loop goes on along the directory. -/
theorem run_advances
    (decode : Decode)
    (respect : callbacks.Respect archive)
    (maxSize : Int)
    (rounds : Nat)
    (walk : Walk caller)
    {here : Nat} {places : List Nat}
    (trail : Trail (NextHeader archive.data) here places archive.last)
    (listed : ∀ place ∈ places, place ∈ archive.places)
    (opened : archive.Opened walk.parser)
    (atPlace : walk.parser.currentEntry.nextCenOffset.toNat = here)
    (started : walk.totalSize < maxSize ∨ 0 < here)
    (enough : places.length < rounds) :
    ∃ walk' exit, walk.run decode callbacks maxSize rounds = .ok (walk', exit) ∧
      Advanced archive callbacks places walk.seen walk' (walk'.returned maxSize exit) := by
  have small := archive.small
  have inside := archive.inside
  induction rounds generalizing walk here places with
  | zero =>
      omega
  | succ rounds inductionHypothesis =>
      rw [Walk.run]
      by_cases goesOn : walk.totalSize < maxSize
      · rw [if_pos goesOn]
        cases trail with
        | nil _ =>
            obtain ⟨parser, ran, opened'⟩ := round_end decode callbacks opened atPlace
            rw [ran]
            refine ⟨_, _, rfl, .nothing opened' rfl ?_⟩
            rw [Walk.returned, if_pos goesOn]
            apply Progress.of_zero _ (.inl rfl)
            intro entry member
            cases member
        | cons step tail =>
            rename_i next rest
            have nextInside := step.2.2
            have forward := nextHeader_forward _ step
            obtain ⟨walk', exit, ran, long | handled⟩ := round_header decode respect opened
              atPlace step (archive.localHeaders here (listed here List.mem_cons_self))
            · obtain ⟨failed, opened', same, tooLong⟩ := long
              rw [ran, failed]
              refine ⟨_, _, rfl, .nothing opened' same ?_⟩
              exact .of_failed (.inl ⟨here, rfl, tooLong⟩)
            · rw [ran, ok_bind]
              cases exit with
              | some exit =>
                  exact ⟨_, _, rfl, handled.left maxSize⟩
              | none =>
                  obtain ⟨entry, named, noted, dealtWith⟩ := handled.noted
                  have atNext : walk'.parser.currentEntry.nextCenOffset.toNat = next := by
                    rw [handled.moved rfl]
                    apply UInt32.toNat_ofNat_of_lt'
                    change next < 4294967296
                    omega
                  obtain ⟨walk'', exit, ran', advanced⟩ := inductionHypothesis walk' tail
                    (fun place member => listed place (List.mem_cons_of_mem here member))
                    handled.opened atNext (.inr (by omega))
                    (Nat.lt_of_succ_lt_succ enough)
                  rw [noted] at advanced
                  exact ⟨walk'', exit, ran', advanced.cons named dealtWith⟩
      · have positive := started.resolve_left goesOn
        have before := trail.first_le_last (nextHeader_forward _)
        rw [if_neg goesOn]
        refine ⟨walk, .finished, rfl, .nothing opened rfl ?_⟩
        have returned : walk.returned maxSize .finished = here := by
          rw [Walk.returned, if_neg goesOn, atPlace]
          apply signed_of_inRange
          unfold InRange
          omega
        rw [returned]
        refine ⟨?_, fun _ => trail, ?_, ?_⟩
        · intro _ entry member
          cases member
        · omega
        · omega

/-- A call from a place of the directory on. -/
theorem filteredDoNextEntries_advances
    (decode : Decode)
    (respect : callbacks.Respect archive)
    (maxSize : Int)
    (data : caller)
    {id : Int} {parser : EntryParser} {here : Nat} {places : List Nat}
    (trail : Trail (NextHeader archive.data) here places archive.last)
    (listed : ∀ place ∈ places, place ∈ archive.places)
    (opened : archive.Opened parser)
    (start : id = 0 ∧ parser.currentEntry.nextCenOffset.toNat = here ∨ 0 < id ∧ id.toNat = here) :
    ∃ id' walk, filteredDoNextEntries decode callbacks id maxSize (data, parser) =
        .ok (id', walk) ∧
      Advanced archive callbacks places [] walk id' := by
  have small := archive.small
  have inside := archive.inside
  have forward := trail.length_le (nextHeader_forward _)
  unfold filteredDoNextEntries
  generalize maxEq : (if maxSize ≤ 0 then (2147483647 : Int) else maxSize) = bound
  have positive : 0 < bound := by
    split at maxEq <;> omega
  dsimp only
  generalize parserEq : (if id > 0 then parser.withNextCenOffset (UInt32.ofInt id)
    else parser) = parser'
  have ready : archive.Opened parser' ∧ parser'.currentEntry.nextCenOffset.toNat = here := by
    rw [← parserEq]
    rcases start with ⟨zero, atPlace⟩ | ⟨some, atPlace⟩
    · rw [if_neg (by omega)]
      exact ⟨opened, atPlace⟩
    · rw [if_pos some]
      refine ⟨⟨opened.held, opened.locOffset⟩, ?_⟩
      have number : (id % 2 ^ 32).toNat = here := by omega
      change (UInt32.ofNat (id % 2 ^ 32).toNat).toNat = here
      rw [number]
      apply UInt32.toNat_ofNat_of_lt'
      change here < 4294967296
      omega
  have size : parser'.bufferedFile.fileSize = archive.data.length := by
    obtain ⟨place, cursor, tracks, sameData⟩ := ready.1.held.tracks
    rw [← sameData]
    exact tracks.size
  obtain ⟨walk, exit, ran, advanced⟩ := run_advances decode respect bound
    (parser'.bufferedFile.fileSize.toNat + 2)
    { data, parser := parser', totalSize := 0, seen := [] } trail listed ready.1 ready.2
    (.inl positive) (by omega)
  rw [ran, ok_bind]
  exact ⟨_, _, rfl, advanced⟩

/-- What calls do from a place of the directory on. -/
def Enumerates (archive : Archive) (decode : Decode) (callbacks : Callbacks caller)
    (calls : List Resumption) (id : Int) (state : caller × EntryParser) (places : List Nat) :
    Prop :=
  ∃ seen id' done left, enumerate decode callbacks calls id state = .ok (seen, id') ∧
    places = done ++ left ∧ seen.map Seen.name = done.map (nameAt archive.data) ∧
      Progress archive callbacks seen left id'

/-- A call, and those that resume. -/
theorem Enumerates.cons
    {decode : Decode} {call : Resumption} {calls : List Resumption} {id : Int}
    {data : caller} {parser : EntryParser} {id' : Int} {walk : Walk caller} {places : List Nat}
    (ran : filteredDoNextEntries decode callbacks id call.maxSize
      (data, call.reopened.getD parser) = .ok (id', walk))
    (advanced : Advanced archive callbacks places [] walk id')
    (resumed : 0 < id' → ∀ left ⊆ places,
      Trail (NextHeader archive.data) id'.toNat left archive.last →
        Enumerates archive decode callbacks calls id' (walk.data, walk.parser) left) :
    Enumerates archive decode callbacks (call :: calls) id (data, parser) places := by
  obtain ⟨seen, done, left, rfl, noted, names, progress⟩ := advanced.visited
  rw [List.nil_append] at noted
  rw [Enumerates, enumerate, ran, ok_bind]
  dsimp only
  rw [noted]
  by_cases again : id' > 0
  · obtain ⟨seen', last, done', left', ran', rfl, names', progress'⟩ :=
      resumed again left (List.subset_append_right done left) (progress.resumes again)
    rw [if_pos again, ran', ok_bind]
    refine ⟨seen ++ seen', last, done ++ done', left', rfl, ?_, ?_, ?_⟩
    · rw [List.append_assoc]
    · rw [List.map_append, List.map_append, names, names']
    · exact progress'.behind (progress.dealtWith (by omega))
  · rw [if_neg again]
    exact ⟨seen, id', done, left, rfl, rfl, names, progress⟩

/-- Calls that resume. -/
theorem enumerates_from
    (decode : Decode)
    (respect : callbacks.Respect archive)
    {calls : List Resumption}
    (reopened : ∀ call ∈ calls, ∀ parser ∈ call.reopened, archive.Fresh parser)
    (data : caller)
    {id : Int} {parser : EntryParser} {places : List Nat}
    (positive : 0 < id)
    (trail : Trail (NextHeader archive.data) id.toNat places archive.last)
    (listed : places ⊆ archive.places)
    (opened : archive.Opened parser) :
    Enumerates archive decode callbacks calls id (data, parser) places := by
  induction calls generalizing data id parser places with
  | nil =>
      refine ⟨[], id, [], places, rfl, rfl, rfl, ?_, fun _ => trail, ?_, ?_⟩
      · intro _ entry member
        cases member
      · omega
      · omega
  | cons call calls inductionHypothesis =>
      have openedHere : archive.Opened (call.reopened.getD parser) := by
        cases again : call.reopened with
        | none =>
            exact opened
        | some parser' =>
            exact (reopened call List.mem_cons_self parser' again).toOpened
      obtain ⟨id', walk, ran, advanced⟩ := filteredDoNextEntries_advances decode respect
        call.maxSize data trail (fun _ member => listed member) openedHere
        (.inr ⟨positive, rfl⟩)
      apply Enumerates.cons ran advanced
      intro again left within trail'
      exact inductionHypothesis
        (fun other member => reopened other (List.mem_cons_of_mem _ member)) walk.data again
        trail' (fun _ member => listed (within member)) advanced.opened

end Call

/-- A parser of the archive before it has read any header. -/
def Archive.parser (archive : Archive) : EntryParser where
  bufferedFile := .opened archive.data 512
  currentEntry :=
    { cenOffset := UInt32.ofNat archive.cenOffset
      nextCenOffset := UInt32.ofNat archive.cenOffset
      locOffset := archive.locOffset
      totalEntryCount := archive.places.length }
  centralHeader := ⟨List.replicate cenHdrSiz 0, List.length_replicate⟩
  length := 0

theorem Archive.parser_fresh (archive : Archive) : archive.Fresh archive.parser := by
  have reads : BufferedFile.Reads archive.data archive.parser.bufferedFile :=
    ⟨Nat.zero_lt_succ 511, _, BufferedFile.opened_tracks archive.data 512, rfl⟩
  refine ⟨⟨reads.held, rfl⟩, ?_⟩
  have small := archive.small
  have inside := archive.inside
  have forward := archive.directory.first_le_last (nextHeader_forward _)
  apply UInt32.toNat_ofNat_of_lt'
  change archive.cenOffset < 4294967296
  omega

/-! ## Archives of stored entries -/

def twoBytes (value : Nat) : List UInt8 :=
  [UInt8.ofNat value, UInt8.ofNat (value / 256)]

def fourBytes (value : Nat) : List UInt8 :=
  twoBytes value ++ twoBytes (value / 65536)

/-- A local header and what follows it. -/
def localEntry (name contents : List UInt8) : List UInt8 :=
  [0x50, 0x4B, 3, 4] ++ List.replicate 14 0 ++ fourBytes contents.length ++
    fourBytes contents.length ++ twoBytes name.length ++ twoBytes 0 ++ name ++ contents

def centralEntry (name contents : List UInt8) (offset : Nat) : List UInt8 :=
  [0x50, 0x4B, 1, 2] ++ List.replicate 16 0 ++ fourBytes contents.length ++
    fourBytes contents.length ++ twoBytes name.length ++ List.replicate 12 0 ++
      fourBytes offset ++ name

def endHeader (count size offset : Nat) : List UInt8 :=
  [0x50, 0x4B, 5, 6] ++ List.replicate 4 0 ++ twoBytes count ++ twoBytes count ++
    fourBytes size ++ fourBytes offset ++ twoBytes 0

/-- An archive of two entries. -/
def twoEntries (name name' contents contents' : List UInt8) : List UInt8 :=
  let first := localEntry name contents
  let second := localEntry name' contents'
  let directory := centralEntry name contents 0 ++ centralEntry name' contents' first.length
  first ++ second ++ directory ++ endHeader 2 directory.length (first.length + second.length)

/-- Stored entries are read where they are. -/
def readStored : Decode
  | .fileDecoder pos size, file =>
      (.buffer ((file.data.drop pos.toNat).take size.toNat), pos + size.toNat)
  | .inflater _ _ _ _, file => (.null, file.pos)

/-- Every entry is handed over, and nothing is done with it. -/
def visitAll : Callbacks Unit where
  entryFilterProc := none
  doJarEntryProc := some fun _ _ state => (⟨true, false⟩, state)

theorem visitAll_respect (archive : Archive) : visitAll.Respect archive where
  filter := by
    intro proc given
    cases given
  visit := by
    intro proc given name contents data parser atEntry
    cases given
    exact atEntry

/-- The entries `a` and `b`. -/
def shortNamed : Archive where
  data := twoEntries [97] [98] [1, 2] [3]
  cenOffset := 65
  locOffset := 0
  places := [65, 112]
  last := 159
  small := by decide +kernel
  directory := .cons (by decide +kernel) (.cons (by decide +kernel) (.nil 159))
  ends := by decide
  inside := by decide +kernel
  localHeaders := by decide

example :
    enumerate readStored visitAll [⟨1, none⟩, ⟨1, some shortNamed.parser⟩, ⟨9, none⟩] 0
        ((), shortNamed.parser) =
      .ok ([⟨[97], true, some [1, 2], true, false⟩, ⟨[98], true, some [3], true, false⟩], 0) := by
  decide +kernel

/-- An entry with a name of 257 bytes, and the entry `b`. -/
def longNamed : Archive where
  data := twoEntries (List.replicate 257 97) [98] [1, 2] [3]
  cenOffset := 321
  locOffset := 0
  places := [321, 624]
  last := 671
  small := by decide +kernel
  directory := .cons (by decide +kernel) (.cons (by decide +kernel) (.nil 671))
  ends := by decide +kernel
  inside := by decide +kernel
  localHeaders := by decide +kernel

end PicoJvm.Files
