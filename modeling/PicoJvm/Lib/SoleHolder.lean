import Mathlib.Data.List.Basic
import Mathlib.Data.List.Induction
import Mathlib.Logic.Function.Basic

/-!
# Sole holders

For each key an entry keeps the one holder that has claimed it. A second claim bars
the entry for good, and so does a ban; in which order they come makes no difference.
-/

namespace PicoJvm.Lib.SoleHolder

universe u v

variable {key : Type u} {holder : Type v}

inductive Entry (holder : Type v)
  | vacant
  | heldBy (owner : holder)
  | barred
  deriving DecidableEq, Repr

def Entry.claim (owner : holder) : Entry holder → Entry holder
  | .vacant => .heldBy owner
  | _ => .barred

inductive Event (key : Type u) (holder : Type v)
  | claim (place : key) (owner : holder)
  | bar (place : key)
  deriving DecidableEq, Repr

section Record

variable [DecidableEq key]

def record (entries : key → Entry holder) : Event key holder → key → Entry holder
  | .claim place owner => Function.update entries place ((entries place).claim owner)
  | .bar place => Function.update entries place .barred

def recordAll (events : List (Event key holder)) (entries : key → Entry holder) :
    key → Entry holder :=
  events.foldl record entries

theorem recordAll_append (first second : List (Event key holder))
    (entries : key → Entry holder) :
    recordAll (first ++ second) entries = recordAll second (recordAll first entries) :=
  List.foldl_append

theorem foldl_record_map {item : Type*} (items : List item) (entries : key → Entry holder)
    (event : item → Event key holder) :
    items.foldl (fun entries item => record entries (event item)) entries =
      recordAll (items.map event) entries := by
  rw [recordAll, List.foldl_map]

/-- The claims to a place, in order. -/
def claimsTo (place : key) : List (Event key holder) → List holder
  | [] => []
  | .claim other owner :: rest =>
      if other = place then owner :: claimsTo place rest else claimsTo place rest
  | .bar _ :: rest => claimsTo place rest

theorem claimsTo_append (place : key) (first second : List (Event key holder)) :
    claimsTo place (first ++ second) = claimsTo place first ++ claimsTo place second := by
  induction first with
  | nil =>
      rfl
  | cons event rest inductionHypothesis =>
      cases event with
      | claim other owner =>
          by_cases here : other = place
          · simp [claimsTo, here, inductionHypothesis]
          · simp [claimsTo, here, inductionHypothesis]
      | bar other =>
          exact inductionHypothesis

theorem claimsTo_flatMap {source : Type*} (place : key) (items : List source)
    (events : source → List (Event key holder)) :
    claimsTo place (items.flatMap events) =
      items.flatMap fun item => claimsTo place (events item) := by
  induction items with
  | nil =>
      rfl
  | cons item rest inductionHypothesis =>
      rw [List.flatMap_cons, List.flatMap_cons, claimsTo_append, inductionHypothesis]

/-- What the claims and a ban come to. -/
def verdict (isBarred : Prop) [Decidable isBarred] (owners : List holder) : Entry holder :=
  if isBarred then
    .barred
  else
    match owners with
    | [] => .vacant
    | [owner] => .heldBy owner
    | _ => .barred

theorem recordAll_eq_verdict
    [DecidableEq holder]
    (events : List (Event key holder)) (place : key) :
    recordAll events (fun _ => .vacant) place =
      verdict (.bar place ∈ events) (claimsTo place events) := by
  induction events using List.reverseRecOn with
  | nil =>
      rfl
  | append_singleton events event inductionHypothesis =>
      rw [recordAll] at inductionHypothesis ⊢
      rw [List.foldl_append, List.foldl_cons, List.foldl_nil, claimsTo_append]
      cases event with
      | claim other owner =>
          by_cases here : other = place
          · subst here
            simp only [record, Function.update_self, inductionHypothesis, verdict,
              List.mem_append, List.mem_singleton, reduceCtorEq, or_false, claimsTo, if_true]
            by_cases isBarred : Event.bar other ∈ events
            · simp [isBarred, Entry.claim]
            · simp only [isBarred, if_false]
              rcases claimsTo other events with _ | ⟨first, _ | ⟨second, rest⟩⟩ <;> rfl
          · simp only [record, Function.update_of_ne (Ne.symm here), inductionHypothesis,
              List.mem_append, List.mem_singleton, reduceCtorEq, or_false, claimsTo, here,
              if_false, List.append_nil]
      | bar other =>
          by_cases here : other = place
          · subst here
            simp [record, verdict]
          · simp [record, inductionHypothesis, claimsTo, Ne.symm here, verdict]

/-- A place has a holder when it was claimed exactly once, and never barred. -/
theorem recordAll_eq_heldBy_iff
    [DecidableEq holder]
    {events : List (Event key holder)} {place : key} {owner : holder} :
    recordAll events (fun _ => .vacant) place = .heldBy owner ↔
      .bar place ∉ events ∧ claimsTo place events = [owner] := by
  rw [recordAll_eq_verdict]
  unfold verdict
  by_cases isBarred : Event.bar place ∈ events
  · simp [isBarred]
  · rw [if_neg isBarred]
    generalize claimsTo place events = owners
    match owners with
    | [] =>
        simp
    | [first] =>
        simp [isBarred]
    | first :: second :: rest =>
        simp

end Record

end PicoJvm.Lib.SoleHolder
