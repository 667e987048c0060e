import PicoJvm.Text.StringRuns

/-!
# Strings never change

Runs of a program that makes strings and string buffers. A string keeps its characters to the end of
the run, as long as `setLength` does not cut characters off a shared array that it cannot copy.
-/

namespace PicoJvm.Text

open PicoJvm.Lib.Countdown (Follows follows_append_iff)

/-! ## Runs -/

/-- A call, and what can be allocated while it runs. -/
structure Event where
  memory : Memory
  call : Call

/-- The world after a call, however it ends. -/
def World.step (world : World) (event : Event) : World :=
  match (event.call.invoke event.memory).run world with
  | .ok _ after => after
  | .error _ after => after

/-- What ends a call, if it does not return. -/
def World.outcome (world : World) (event : Event) : Option Throwable :=
  match (event.call.invoke event.memory).run world with
  | .ok _ _ => none
  | .error thrown _ => some thrown

/-- The world after a run. -/
def World.run (world : World) (events : List Event) : World :=
  events.foldl World.step world

/-- What a run means: that of its calls which return. -/
def Contents.run (world : World) (contents : Contents) : List Event → Contents
  | [] => contents
  | event :: rest =>
      Contents.run (world.step event)
        (if world.outcome event = none then contents.after event.call else contents) rest

/-- The call does not cut off characters of a shared array that it cannot copy. -/
def Event.Spares (world : World) (event : Event) : Prop :=
  ¬ event.call.Cuts event.memory world

instance (world : World) (event : Event) : Decidable (event.Spares world) :=
  inferInstanceAs (Decidable (¬ _))

/-- What every call does, however it ends. -/
theorem World.step_leads
    {world : World} {event : Event}
    (valid : world.Valid)
    (spares : event.Spares world) :
    world.outcome event ≠ some .fault ∧
      world.Leads (if world.outcome event = none then world.contents.after event.call
        else world.contents) (world.step event) := by
  have ensured := event.call.invoke_ensures valid spares
  unfold World.outcome World.step
  cases ran : (event.call.invoke event.memory).run world with
  | ok value after =>
      exact ⟨nofun, ensured.ok ran⟩
  | error thrown after =>
      have failed := ensured.error ran
      exact ⟨fun isFault => failed.1 (Option.some.inj isFault), failed.2⟩

/-- What a run keeps of the strings that there were. -/
structure World.Keeps (before after : World) : Prop where
  valid : after.Valid
  kept : before.strings <+: after.strings
  chars_eq : ∀ string ∈ before.strings, string.chars after.heap = string.chars before.heap

/-- The strings that there were are those of the beginning. -/
theorem World.Leads.chars_eq
    {before after : World} {contents : Contents}
    (leads : before.Leads contents after)
    (begins : before.contents.strings <+: contents.strings) :
    ∀ string ∈ before.strings, string.chars after.heap = string.chars before.heap := by
  obtain ⟨more, strings⟩ := leads.kept
  obtain ⟨moreChars, chars⟩ := begins
  rw [← leads.contents_eq, World.contents, World.contents, ← strings, List.map_append] at chars
  have same := List.append_inj_left chars (by rw [List.length_map, List.length_map])
  intro string isString
  exact (List.map_inj_left.mp same string isString).symm

/-- A call appends to the strings that there were. -/
theorem Contents.strings_prefix_after (contents : Contents) (call : Call) :
    contents.strings <+: (contents.after call).strings := by
  cases call with
  | newString | substring | concat | toString =>
      exact List.prefix_append _ _
  | newBuffer | newBufferOf | changeBuffer =>
      exact List.prefix_rfl

theorem World.step_keeps
    {world : World} {event : Event}
    (valid : world.Valid)
    (spares : event.Spares world) :
    world.Keeps (world.step event) := by
  have leads := (world.step_leads valid spares).2
  refine ⟨leads.valid, leads.kept, leads.chars_eq ?_⟩
  split
  · exact world.contents.strings_prefix_after event.call
  · exact List.prefix_rfl

/-- What a whole run keeps. -/
theorem World.run_keeps
    {world : World} {events : List Event}
    (valid : world.Valid)
    (spares : Follows World.step (fun world event => event.Spares world) world events) :
    world.Keeps (world.run events) := by
  induction events generalizing world with
  | nil =>
      exact ⟨valid, List.prefix_rfl, fun _ _ => rfl⟩
  | cons event rest inductionHypothesis =>
      have first := world.step_keeps valid spares.1
      have onward := inductionHypothesis first.valid spares.2
      refine ⟨onward.valid, first.kept.trans onward.kept, fun string isString => ?_⟩
      exact (onward.chars_eq string (first.kept.subset isString)).trans
        (first.chars_eq string isString)

/-- The characters are those that the run means. -/
theorem World.run_contents
    {world : World} {events : List Event}
    (valid : world.Valid)
    (spares : Follows World.step (fun world event => event.Spares world) world events) :
    (world.run events).contents = Contents.run world world.contents events := by
  induction events generalizing world with
  | nil =>
      rfl
  | cons event rest inductionHypothesis =>
      have leads := (world.step_leads valid spares.1).2
      have onward := inductionHypothesis leads.valid spares.2
      rw [leads.contents_eq] at onward
      exact onward

/-- A string that a call makes comes last. -/
theorem World.Leads.string_new
    {before after : World} {contents : Contents} {chars : Chars}
    (leads : before.Leads contents after)
    (strings : contents.strings = before.contents.strings ++ [chars]) :
    ∃ string, after.strings = before.strings ++ [string] ∧ string.chars after.heap = chars := by
  obtain ⟨more, afterStrings⟩ := leads.kept
  rw [← leads.contents_eq, World.contents, World.contents, ← afterStrings, List.map_append]
    at strings
  have new := List.append_inj_right strings (by rw [List.length_map, List.length_map])
  obtain ⟨string, single, isChars⟩ := List.map_eq_singleton_iff.mp new
  refine ⟨string, ?_, isChars⟩
  rw [← afterStrings, single]

/-! ## The runs from the start -/

/-- As long as `setLength` does not cut off characters of a shared array that it cannot copy,
strings never change, a string has the characters that the buffer has when it is made, and no
unchecked copy goes outside its arrays. -/
theorem strings_neverChange
    {before after : List Event}
    (spares : Follows World.step (fun world event => event.Spares world) World.start
      (before ++ after)) :
    let world := World.start.run before
    let last := World.start.run (before ++ after)
    (∀ string ∈ world.strings, string ∈ last.strings ∧
        string.chars last.heap = string.chars world.heap) ∧
      world.contents = Contents.run World.start World.start.contents before ∧
      ∀ event ∈ after.head?,
        world.outcome event ≠ some .fault ∧
          ∀ buffer, event.call = .toString buffer → world.outcome event = none →
            ∃ string, (world.step event).strings = world.strings ++ [string] ∧
              string.chars (world.step event).heap = world.contents.buffers.getD buffer [] := by
  intro world last
  have both := follows_append_iff.mp spares
  have valid : world.Valid := (World.run_keeps World.start_valid both.1).valid
  have onward : world.Keeps last := by
    have keeps := World.run_keeps valid both.2
    simpa only [World.run, List.foldl_append, world, last] using keeps
  refine ⟨fun string isString => ⟨onward.kept.subset isString, onward.chars_eq string isString⟩,
    World.run_contents World.start_valid both.1, ?_⟩
  intro event isNext
  cases after with
  | nil =>
      cases isNext
  | cons first rest =>
      cases isNext
      have step := world.step_leads valid both.2.1
      refine ⟨step.1, fun buffer isToString returned => ?_⟩
      have leads := step.2
      rw [if_pos returned, isToString] at leads
      exact leads.string_new rfl

/-- Makes a string of a buffer. -/
def makesString : List Event :=
  [ ⟨⟨fun _ => true, true⟩, .newBuffer 2⟩,
    ⟨⟨fun _ => true, true⟩, .changeBuffer 0 (.appendChars (some ⟨[97, 98], by decide⟩))⟩,
    ⟨⟨fun _ => true, true⟩, .toString 0⟩ ]

/-- Cuts a character off the buffer, and appends another one. -/
def cutsBuffer (memory : Memory) : List Event :=
  [ ⟨memory, .changeBuffer 0 (.setLength 1)⟩,
    ⟨⟨fun _ => true, true⟩, .changeBuffer 0 (.appendChar 120)⟩ ]

theorem strings_neverChange_copied :
    let world := World.start.run makesString
    let last := World.start.run (makesString ++ cutsBuffer ⟨fun _ => true, true⟩)
    (∀ string ∈ world.strings, string ∈ last.strings ∧
        string.chars last.heap = string.chars world.heap) ∧
      world.contents = Contents.run World.start World.start.contents makesString ∧
      ∀ event ∈ (cutsBuffer ⟨fun _ => true, true⟩).head?,
        world.outcome event ≠ some .fault ∧
          ∀ buffer, event.call = .toString buffer → world.outcome event = none →
            ∃ string, (world.step event).strings = world.strings ++ [string] ∧
              string.chars (world.step event).heap = world.contents.buffers.getD buffer [] :=
  strings_neverChange (by decide)

/-- When the array cannot be copied, the buffer keeps the one that the string shares, and the string
changes with it. -/
theorem strings_neverChange_cut :
    ¬ ∀ before after : List Event, ∀ string ∈ (World.start.run before).strings,
      string.chars (World.start.run (before ++ after)).heap =
        string.chars (World.start.run before).heap := by
  intro unchanged
  have changed : (JavaString.mk 1 0 2).chars
      (World.start.run (makesString ++ cutsBuffer ⟨fun _ => false, true⟩)).heap ≠
        (JavaString.mk 1 0 2).chars (World.start.run makesString).heap := by
    decide
  exact changed (unchanged makesString _ _ (by decide))

end PicoJvm.Text
