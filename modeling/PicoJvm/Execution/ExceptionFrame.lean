import PicoJvm.Lib.Fallible

/-!
# Finding the frame for an exception

`JavaFrame::find_exception_frame` over the frames of a thread. The first entry
frame of a thread is at the bottom of every stack, so a stack is the list of the
frames above it, innermost first.
-/

namespace PicoJvm.Execution

/-! ## Frames -/

/-- A thrown object, by the id of its class. -/
structure Exn where
  object : Nat
  klass : Nat
  deriving DecidableEq, Repr

/-- A row of an exception table; catch type 0 is any. -/
structure TableEntry where
  startBci : Nat
  endBci : Nat
  handlerBci : Nat
  catchType : Nat
  deriving DecidableEq, Repr

/-- What the walk reads of a method. `klassAt` resolves a catch type, and may throw. -/
structure ThrowingMethod where
  exceptionTable : List TableEntry
  isSynchronized : Bool
  klassAt : Nat → Except Exn Nat

/-- A Java frame. The owner of a stack lock that is not in use is none. A frame built
to report a stack overflow has no locks yet. -/
structure JavaFrame where
  method : ThrowingMethod
  bci : Nat
  isOverflow : Bool
  locks : List (Option Nat)
  expressionStack : List Exn
  overflowUnlocked : isOverflow = true → locks = []

/-- A frame above the first entry frame. -/
inductive Frame
  | java (frame : JavaFrame)
  | entry

/-- The type hierarchy: `is_subtype_of`. -/
abbrev Subtypes := Nat → Nat → Bool

/-! ## The handler of a frame -/

/-- `Method::exception_handler_bci_for`. -/
def exceptionHandlerBciFor (isSubtypeOf : Subtypes) (method : ThrowingMethod)
    (exceptionClass bci : Nat) : List TableEntry → Except Exn (Option Nat)
  | [] => .ok none
  | entry :: rest =>
      if entry.startBci ≤ bci ∧ bci < entry.endBci then
        if entry.catchType = 0 then
          .ok (some entry.handlerBci)
        else
          match method.klassAt entry.catchType with
          | .error raised => .error raised
          | .ok catchClass =>
              if catchClass = exceptionClass ∨ isSubtypeOf exceptionClass catchClass then
                .ok (some entry.handlerBci)
              else
                exceptionHandlerBciFor isSubtypeOf method exceptionClass bci rest
      else
        exceptionHandlerBciFor isSubtypeOf method exceptionClass bci rest

/-! ## The locks of a frame -/

/-- The loop over the stack locks: the slots unlocked, from a slot on. -/
def unlockAll : Nat → List (Option Nat) → List Nat
  | _, [] => []
  | slot, none :: rest => unlockAll (slot + 1) rest
  | slot, some _ :: rest => slot :: unlockAll (slot + 1) rest

/-- The release of the locks of a frame that is given up: the slots unlocked in
order, and whether that shows an illegal monitor state. A synchronized method must
have its own monitor in slot 0, unless its frame is still to be built. -/
def releaseLocks (frame : JavaFrame) : List Nat × Bool :=
  if frame.method.isSynchronized ∧ frame.isOverflow = false then
    match frame.locks with
    | [] => ([], true)
    | none :: rest => (unlockAll 1 rest, true)
    | some _ :: rest =>
        let others := unlockAll 1 rest
        (0 :: others, decide (others ≠ []))
  else
    let slots := unlockAll 0 frame.locks
    (slots, decide (slots ≠ []))

/-- The frame once its locks are released. -/
def JavaFrame.unlocked (frame : JavaFrame) : JavaFrame :=
  { frame with
    locks := frame.locks.map fun _ => none
    overflowUnlocked := fun isOverflow => by rw [frame.overflowUnlocked isOverflow]; rfl }

/-! ## The walk -/

/-- What the caller finds afterwards. -/
inductive Outcome
  /-- The frame resumes at its handler; below it the stack is unchanged. -/
  | resumed (frame : JavaFrame) (below : List Frame)
  /-- The first entry frame holds the exception. -/
  | entryFrame (pending : Exn)
  /-- An exception left the function, which returns what it returns for the entry
  frame, while the thread still has all its frames. -/
  | raised (exception : Exn) (frames : List Frame)

/-- The outcome, and the unlocked stack locks in order: the position of the frame,
counted from the innermost, and the slot. -/
structure Walk where
  outcome : Outcome
  unlocks : List (Nat × Nat)

/-- The frame at its handler, with the exception alone on its stack. -/
def JavaFrame.resumeAt (frame : JavaFrame) (bci : Nat) (exception : Exn) : JavaFrame :=
  { frame with bci := bci, expressionStack := [exception] }

/-- The search for a handler in a frame. A thread that is being killed runs none. -/
def handlerOf (isSubtypeOf : Subtypes) (killing : Bool) (exception : Exn)
    (frame : JavaFrame) : Except Exn (Option Nat) :=
  if killing then
    .ok none
  else
    exceptionHandlerBciFor isSubtypeOf frame.method exception.klass frame.bci
      frame.method.exceptionTable

/-- The pairs for the slots a frame unlocked. -/
def slotsAt (position : Nat) (slots : List Nat) : List (Nat × Nat) :=
  slots.map fun slot => (position, slot)

/-- The loop of `find_exception_frame`. `replacement` is the pending exception after
`illegal_monitor_state_exception`, which may be the one of its failure; it replaces
the exception at most once, and then the frame is searched again. -/
def walk (isSubtypeOf : Subtypes) (killing : Bool) (replacement : Exn) (all : List Frame) :
    Nat → Bool → Exn → List (Nat × Nat) → List Frame → Walk
  | _, _, exception, unlocks, [] => ⟨.entryFrame exception, unlocks⟩
  | position, sticky, exception, unlocks, .entry :: below =>
      walk isSubtypeOf killing replacement all (position + 1) sticky exception unlocks below
  | position, sticky, exception, unlocks, .java frame :: below =>
      match handlerOf isSubtypeOf killing exception frame with
      | .error raised => ⟨.raised raised all, unlocks⟩
      | .ok (some bci) => ⟨.resumed (frame.resumeAt bci exception) below, unlocks⟩
      | .ok none =>
          let slots := slotsAt position (releaseLocks frame).1
          if (releaseLocks frame).2 ∧ sticky = false then
            match handlerOf isSubtypeOf killing replacement frame with
            | .error raised => ⟨.raised raised all, unlocks ++ slots⟩
            | .ok (some bci) =>
                ⟨.resumed (frame.unlocked.resumeAt bci replacement) below, unlocks ++ slots⟩
            | .ok none =>
                walk isSubtypeOf killing replacement all (position + 1) true replacement
                  (unlocks ++ slots ++ slotsAt position (releaseLocks frame.unlocked).1) below
          else
            walk isSubtypeOf killing replacement all (position + 1) sticky exception
              (unlocks ++ slots) below

/-- The frame built for a stack overflow has no locals and no handlers of its own. -/
def isOverflowFrame : Frame → Bool
  | .java frame => frame.isOverflow
  | .entry => false

/-- `JavaFrame::find_exception_frame`. -/
def findExceptionFrame (isSubtypeOf : Subtypes) (killing : Bool) (replacement : Exn)
    (exception : Exn) : List Frame → Walk
  | [] => walk isSubtypeOf killing replacement [] 0 killing exception [] []
  | top :: below =>
      if isOverflowFrame top then
        walk isSubtypeOf killing replacement (top :: below) 1 killing exception [] below
      else
        walk isSubtypeOf killing replacement (top :: below) 0 killing exception [] (top :: below)

end PicoJvm.Execution
