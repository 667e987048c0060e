import Mathlib.Data.List.Infix
import Mathlib.Data.List.Nodup

/-!
# Queues in order

Members leave a queue in front and others come behind. A member that stays is not overtaken.
-/

namespace PicoJvm.Lib.QueueOrder

universe u

variable {member : Type u} {comes : member → Prop} {before between after : List member}

/-- Some of the first members leave the queue, and others come behind the last one. -/
def Serves (comes : member → Prop) (before after : List member) : Prop :=
  ∃ served rest added, before = served ++ rest ∧ after = rest ++ added ∧
    ∀ other ∈ added, comes other

theorem Serves.refl (queue : List member) : Serves comes queue queue :=
  ⟨[], queue, [], rfl, (List.append_nil queue).symm, by simp⟩

theorem Serves.append
    {added : List member}
    (areNew : ∀ other ∈ added, comes other) :
    Serves comes before (before ++ added) :=
  ⟨[], before, added, rfl, rfl, areNew⟩

/-! ## Locks with a queue -/

/-- Members come to a lock, which is its owner and its queue. -/
inductive Enters (comes : member → Prop) :
    Option member × List member → Option member × List member → Prop
  | same (standing : Option member × List member) : Enters comes standing standing
  | taken {one : member} {added : List member} (isNew : comes one)
      (areNew : ∀ other ∈ added, comes other) : Enters comes (none, []) (some one, added)
  | joined (owner : member) (queue : List member) {added : List member}
      (areNew : ∀ other ∈ added, comes other) :
      Enters comes (some owner, queue) (some owner, queue ++ added)

theorem Enters.mono
    {comes' : member → Prop} {standing standing' : Option member × List member}
    (enters : Enters comes standing standing')
    (more : ∀ other, comes other → comes' other) :
    Enters comes' standing standing' := by
  cases enters with
  | same => exact .same _
  | taken isNew areNew =>
      exact .taken (more _ isNew) (fun other inAdded => more other (areNew other inAdded))
  | joined owner queue areNew =>
      exact .joined owner queue (fun other inAdded => more other (areNew other inAdded))

theorem Enters.trans
    {standing standing' standing'' : Option member × List member}
    (enters : Enters comes standing standing')
    (enters' : Enters comes standing' standing'') :
    Enters comes standing standing'' := by
  cases enters with
  | same => exact enters'
  | taken isNew areNew =>
      cases enters' with
      | same => exact .taken isNew areNew
      | joined owner queue areNew' =>
          refine .taken isNew ?_
          intro other isOther
          rcases List.mem_append.mp isOther with inAdded | inAdded
          · exact areNew other inAdded
          · exact areNew' other inAdded
  | joined owner queue areNew =>
      cases enters' with
      | same => exact .joined owner queue areNew
      | joined owner' queue' areNew' =>
          rw [List.append_assoc]
          refine .joined owner queue ?_
          intro other isOther
          rcases List.mem_append.mp isOther with inAdded | inAdded
          · exact areNew other inAdded
          · exact areNew' other inAdded

/-- What may happen to a lock in one step: members come, or the owner leaves it to the first of the
queue. -/
inductive LockStep (acts comes : member → Prop) :
    Option member × List member → Option member × List member → Prop
  | entered {standing standing' : Option member × List member}
      (enters : Enters comes standing standing') : LockStep acts comes standing standing'
  | freed {owner : member} (isActing : acts owner) : LockStep acts comes (some owner, []) (none, [])
  | handed {owner : member} (isActing : acts owner) (first : member) (rest : List member) :
      LockStep acts comes (some owner, first :: rest) (some first, rest)

theorem LockStep.serves
    {acts : member → Prop} {standing standing' : Option member × List member}
    (step : LockStep acts comes standing standing') :
    Serves comes standing.2 standing'.2 := by
  cases step with
  | entered enters =>
      cases enters with
      | same => exact .refl _
      | taken isNew areNew => exact ⟨[], [], _, rfl, rfl, areNew⟩
      | joined owner queue areNew => exact .append areNew
  | freed isActing => exact .refl _
  | handed isActing first rest =>
      exact ⟨[first], rest, [], rfl, (List.append_nil rest).symm, by simp⟩

/-! ## Those in front -/

variable [DecidableEq member]

/-- The members in front of one. -/
def ahead (queue : List member) (one : member) : List member :=
  queue.takeWhile (fun other => other != one)

theorem ahead_append
    {front : List member} {one : member}
    (notIn : one ∉ front)
    (back : List member) :
    ahead (front ++ back) one = front ++ ahead back one := by
  rw [ahead, ahead, List.takeWhile_append_of_pos]
  intro other inFront
  simp only [bne_iff_ne, ne_eq]
  rintro rfl
  exact notIn inFront

theorem ahead_of_mem
    {front : List member} {one : member}
    (isIn : one ∈ front)
    (back : List member) :
    ahead (front ++ back) one = ahead front one := by
  induction front with
  | nil => exact absurd isIn List.not_mem_nil
  | cons first front inductionHypothesis =>
      by_cases isOne : first = one
      · simp [ahead, isOne]
      · have isIn' : one ∈ front := by simpa [Ne.symm isOne] using isIn
        have same := inductionHypothesis isIn'
        simp only [ahead] at same
        simp [ahead, isOne, same]

/-- A member that stays in the queue has some of those in front of it left there, and no others. -/
theorem Serves.ahead_suffix
    {one : member}
    (serves : Serves comes before after)
    (nodup : before.Nodup)
    (stays : one ∈ after)
    (isOld : ¬comes one) :
    ahead after one <:+ ahead before one := by
  obtain ⟨served, rest, added, isBefore, isAfter, areNew⟩ := serves
  have inRest : one ∈ rest := by
    rw [isAfter] at stays
    rcases List.mem_append.mp stays with inRest | inAdded
    · exact inRest
    · exact absurd (areNew one inAdded) isOld
  rw [isBefore] at nodup
  have notServed : one ∉ served := fun inServed =>
    List.disjoint_of_nodup_append nodup inServed inRest
  rw [isBefore, isAfter, ahead_of_mem inRest, ahead_append notServed]
  exact List.suffix_append _ _

end PicoJvm.Lib.QueueOrder
