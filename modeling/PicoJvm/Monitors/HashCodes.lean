import PicoJvm.Monitors.MonitorSteps

/-!
# Hash codes

The hash of an object lies in its near. An object without one gets a near of its own, also when it
is locked, and from then on its hash stays.
-/

namespace PicoJvm.Monitors

open State

variable {state : State} {reals : Nat → JavaNear}

/-! ## New hashes -/

theorem toNat_and_hashMask (value : BitVec 32) :
    (value &&& hashMask).toNat = value.toNat % 0x40000000 := by
  rw [BitVec.toNat_and]
  exact Nat.and_two_pow_sub_one_eq_mod value.toNat 30

/-- After a draw that gives no hash the next one gives one. -/
theorem localRand_and_hashMask
    {random : BitVec 32}
    (noHash : random &&& hashMask = noHashValue) :
    localRand random &&& hashMask ≠ noHashValue := by
  intro noHash'
  have before := congrArg BitVec.toNat noHash
  have after := congrArg BitVec.toNat noHash'
  have multiplier : (0xDEECE66D : BitVec 32).toNat = 3740067437 := rfl
  have addend : (0xB : BitVec 32).toNat = 11 := rfl
  have zero : noHashValue.toNat = 0 := rfl
  rw [toNat_and_hashMask, zero] at before after
  rw [localRand, BitVec.toNat_add, BitVec.toNat_mul, multiplier, addend] at after
  omega

theorem drawHash_ne (random : BitVec 32) : (drawHash 2 random).1 ≠ noHashValue := by
  simp only [drawHash]
  split
  · next noHash =>
      rw [if_neg (localRand_and_hashMask noHash)]
      exact localRand_and_hashMask noHash
  · assumption

theorem drawHash_and_hashMask (draws : Nat) (random : BitVec 32) :
    (drawHash draws random).1 &&& hashMask = (drawHash draws random).1 := by
  induction draws generalizing random with
  | zero => exact BitVec.zero_and
  | succ draws inductionHypothesis =>
      simp only [drawHash]
      split
      · exact inductionHypothesis _
      · rw [BitVec.and_assoc, BitVec.and_self]

namespace JavaNear

theorem hashValue_setHash (near : JavaNear) (hashValue : BitVec 32) :
    (near.setHash hashValue).hashValue = (hashValue <<< 2).sshiftRight 2 := by
  have outside : ~~~hashMaskInPlace &&& hashMaskInPlace = 0#32 := by decide
  have inside : (hashValue <<< 2) &&& hashMaskInPlace = hashValue <<< 2 := by
    have split := masks (hashValue <<< 2)
    rw [shiftLeft_and_lockMask, BitVec.or_zero] at split
    exact split.symm
  simp only [JavaNear.hashValue, setHash]
  rw [BitVec.and_or_distrib_right, BitVec.and_assoc, outside, BitVec.and_zero, BitVec.zero_or,
    inside]

/-- A hash that is not zero is kept. -/
theorem hashValue_setHash_ne
    (near : JavaNear) {hashValue : BitVec 32}
    (isHash : hashValue ≠ noHashValue)
    (isMasked : hashValue &&& hashMask = hashValue) :
    (near.setHash hashValue).hashValue ≠ noHashValue := by
  rw [hashValue_setHash]
  intro isZero
  have noBit (i : Nat) : noHashValue.getLsbD i = false := BitVec.getLsbD_zero
  refine isHash (BitVec.eq_of_getLsbD_eq ?_)
  intro i inside
  rw [noBit]
  by_cases low : i < 30
  · have bit := congrArg (BitVec.getLsbD · i) isZero
    have inside' : 2 + i < 32 := by omega
    have notHigh : ¬32 ≤ i := by omega
    have notLow : ¬2 + i < 2 := by omega
    rw [noBit, BitVec.getLsbD_sshiftRight, if_pos inside', BitVec.getLsbD_shiftLeft,
      Nat.add_sub_cancel_left] at bit
    rw [decide_eq_true inside', decide_eq_false notHigh, decide_eq_false notLow] at bit
    simpa only [Bool.not_false, Bool.true_and] using bit
  · have clear : hashMask.getLsbD i = false := by
      have bound : i = 30 ∨ i = 31 := by omega
      rcases bound with rfl | rfl <;> decide
    rw [← isMasked, BitVec.getLsbD_and, clear, Bool.and_false]

end JavaNear

/-! ## The near of an object -/

/-- An object keeps its class, and its hash once it has one. -/
structure KeepsNears (reals reals' : Nat → JavaNear) : Prop where
  klass : ∀ obj, (reals' obj).klass = (reals obj).klass
  classInfo : ∀ obj, (reals' obj).classInfo = (reals obj).classInfo
  hashValue : ∀ obj, (reals obj).hashValue ≠ noHashValue →
    (reals' obj).hashValue = (reals obj).hashValue

theorem KeepsNears.refl (reals : Nat → JavaNear) : KeepsNears reals reals :=
  ⟨fun _ => rfl, fun _ => rfl, fun _ _ => rfl⟩

/-- The near of a locked object is a copy of its real near, but for the lock. -/
theorem Invariant.nearOf_eq
    {loose : Nat → Nat → Nat → Prop} {pending : Nat → List Nat}
    (invariant : Invariant reals loose pending state)
    (obj : Nat) :
    state.nearOf obj = reals obj ∨
      ∃ waiters, state.nearOf obj = (reals obj).setLock (lockWord waiters) := by
  have isReal := invariant.reals obj
  cases isKlass : state.klass obj with
  | heap near =>
      rw [realNear_of_heap isKlass] at isReal
      left
      rw [nearOf, isKlass]
      exact Option.some.inj isReal
  | stack lock =>
      obtain ⟨near, isNear, _, isCopy⟩ := (invariant.locked isKlass).real
      rw [realNear_of_stack isKlass, isNear] at isReal
      have isReal' : state.nears near = reals obj := Option.some.inj isReal
      right
      refine ⟨(state.locks lock).waiters, ?_⟩
      rw [nearOf, isKlass, ← isReal']
      exact isCopy

section NearOf

variable {loose : Nat → Nat → Nat → Prop} {pending : Nat → List Nat}

theorem Invariant.hashValue_nearOf
    (invariant : Invariant reals loose pending state)
    (obj : Nat) :
    (state.nearOf obj).hashValue = (reals obj).hashValue := by
  rcases invariant.nearOf_eq obj with isReal | ⟨waiters, isCopy⟩
  · rw [isReal]
  · rw [isCopy, JavaNear.hashValue_setLock _ (lockWord_isLock waiters)]

theorem Invariant.klass_nearOf
    (invariant : Invariant reals loose pending state)
    (obj : Nat) :
    (state.nearOf obj).klass = (reals obj).klass ∧
      (state.nearOf obj).classInfo = (reals obj).classInfo := by
  rcases invariant.nearOf_eq obj with isReal | ⟨waiters, isCopy⟩
  · rw [isReal]
    exact ⟨rfl, rfl⟩
  · rw [isCopy]
    exact ⟨rfl, rfl⟩

end NearOf

/-- The near that an object gets for its hash. -/
def JavaNear.renewed (near : JavaNear) (newHash : BitVec 32) : JavaNear :=
  ({ near with value := 0 } : JavaNear).setHash newHash

namespace JavaNear

theorem lockValue_renewed (near : JavaNear) (newHash : BitVec 32) :
    (near.renewed newHash).lockValue = unlockedValue := by
  rw [renewed, lockValue_setHash]
  exact BitVec.zero_and

/-- A copy of the new near is the old copy with the hash. -/
theorem setHash_eq_renewed
    {near : JavaNear} {word newHash : BitVec 32}
    (isLock : word = lockedValue ∨ word = waitersValue)
    (unlocked : near.lockValue = unlockedValue) :
    (near.setLock word).setHash newHash =
      ((near.setLock word).renewed newHash).setLock word := by
  have outside : ~~~hashMaskInPlace = lockMaskInPlace := by decide
  have isZero : near.value &&& lockMaskInPlace = 0#32 := unlocked
  rw [setHash_setLock _ isLock]
  simp only [renewed, setHash, setLock, outside, isZero, BitVec.zero_or]
  rw [show (0 : BitVec 32) &&& lockMaskInPlace = 0#32 from BitVec.zero_and, BitVec.zero_or]

end JavaNear

theorem keepsNears_update
    {obj : Nat} {near : JavaNear}
    (noHash : (reals obj).hashValue = noHashValue)
    (sameKlass : near.klass = (reals obj).klass)
    (sameInfo : near.classInfo = (reals obj).classInfo) :
    KeepsNears reals (Function.update reals obj near) := by
  constructor
  · intro obj'
    by_cases isObj : obj' = obj
    · simp [isObj, sameKlass]
    · rw [Function.update_of_ne isObj]
  · intro obj'
    by_cases isObj : obj' = obj
    · simp [isObj, sameInfo]
    · rw [Function.update_of_ne isObj]
  · intro obj' hasHash
    have isOther : obj' ≠ obj := by
      rintro rfl
      exact hasHash noHash
    rw [Function.update_of_ne isOther]

/-! ## `hash_code` -/

/-- The state with a near for the hash. -/
def State.withNear (state : State) (near : JavaNear) (random : BitVec 32) : State :=
  { state with
    nears := Function.update state.nears state.nearCount near
    nearCount := state.nearCount + 1
    random := random }

section NewNear

variable {obj : Nat} {near : JavaNear}

/-- An object that is not locked points at the new near. -/
theorem Invariant.hash_unlocked
    (invariant : Invariant reals nowhere nobody state)
    (random : BitVec 32)
    (isUnlocked : near.lockValue = unlockedValue)
    (notLocked : (state.nearOf obj).isLocked = false) :
    Invariant (Function.update reals obj near) nowhere nobody
      ((state.withNear near random).putKlass obj (.heap state.nearCount)) := by
  have extended : Invariant reals nowhere nobody (state.withNear near random) :=
    invariant.newNear isUnlocked
  have isNew : (state.withNear near random).nears state.nearCount = near := by
    simp [State.withNear]
  cases isKlass : state.klass obj with
  | heap number =>
      have isHeap : (state.withNear near random).klass obj = .heap number := isKlass
      have repointed := extended.repoint isHeap (Nat.lt_succ_self state.nearCount)
      rw [isNew] at repointed
      exact repointed
  | stack lock =>
      have isLocked := (invariant.isLocked_iff obj).mpr ⟨lock, isKlass⟩
      rw [notLocked] at isLocked
      cases isLocked

/-- The stack lock of a locked object gets the new near, and a copy of it. -/
theorem Invariant.hash_locked
    (invariant : Invariant reals nowhere nobody state)
    {lock : Nat} {newHash : BitVec 32}
    (random : BitVec 32)
    (isStack : state.klass obj = .stack lock)
    (isNear : near = (state.nearOf obj).renewed newHash) :
    Invariant (Function.update reals obj near) nowhere nobody
      ((state.withNear near random).putLock lock
        { state.locks lock with
          realJavaNear := some state.nearCount
          near := (state.locks lock).near.setHash newHash }) := by
  have isUnlocked : near.lockValue = unlockedValue := by
    rw [isNear]
    exact JavaNear.lockValue_renewed _ _
  have extended : Invariant reals nowhere nobody (state.withNear near random) :=
    invariant.newNear isUnlocked
  have isNew : (state.withNear near random).nears state.nearCount = near := by
    simp [State.withNear]
  obtain ⟨real, _, _, isCopy⟩ := (invariant.locked isStack).real
  have sameNear : state.nearOf obj = (state.locks lock).near := by rw [nearOf, isStack]
  have isStack' : (state.withNear near random).klass obj = .stack lock := isStack
  have reneared := extended.renear isStack' (Nat.lt_succ_self state.nearCount)
  have copied : (state.locks lock).near.setHash newHash =
      near.setLock (lockWord (state.locks lock).waiters) := by
    rw [isNear, sameNear, isCopy]
    exact JavaNear.setHash_eq_renewed (lockWord_isLock _) (invariant.unlocked real)
  rw [isNew] at reneared
  rw [copied]
  exact reneared

end NewNear

/-- The object has the new hash, whether it is locked or not. -/
theorem Invariant.giveHash
    (invariant : Invariant reals nowhere nobody state)
    {obj : Nat} {newHash : BitVec 32}
    (random : BitVec 32)
    (noHash : (reals obj).hashValue = noHashValue)
    (isHash : newHash ≠ noHashValue)
    (isMasked : newHash &&& hashMask = newHash) :
    ∃ reals', Invariant reals' nowhere nobody (state.giveHash obj newHash random).2 ∧
      KeepsNears reals reals' ∧
      (state.giveHash obj newHash random).1 = (reals' obj).hashValue ∧
        (reals' obj).hashValue ≠ noHashValue := by
  obtain ⟨sameKlass, sameInfo⟩ := invariant.klass_nearOf obj
  have newValue := JavaNear.hashValue_setHash_ne { state.nearOf obj with value := 0 } isHash
    isMasked
  refine ⟨Function.update reals obj ((state.nearOf obj).renewed newHash), ?_,
    keepsNears_update noHash sameKlass sameInfo, ?_, ?_⟩
  · rw [State.giveHash]
    cases isKlass : state.klass obj with
    | heap number =>
        have notLocked : (state.nearOf obj).isLocked = false := by
          simpa [isKlass] using invariant.isLocked_iff obj
        rw [notLocked]
        exact invariant.hash_unlocked random (JavaNear.lockValue_renewed _ _) notLocked
    | stack lock =>
        rw [(invariant.isLocked_iff obj).mpr ⟨lock, isKlass⟩]
        have isNear : (state.nearOf obj).renewed newHash = (state.nearOf obj).renewed newHash := rfl
        have locked := invariant.hash_locked random isKlass isNear
        simpa [State.withNear, fromJavaOop, isKlass, JavaNear.renewed] using locked
  · rw [State.giveHash, Function.update_self]
    cases isKlass : state.klass obj with
    | heap number =>
        have notLocked : (state.nearOf obj).isLocked = false := by
          simpa [isKlass] using invariant.isLocked_iff obj
        rw [notLocked]
        rfl
    | stack lock =>
        rw [(invariant.isLocked_iff obj).mpr ⟨lock, isKlass⟩]
        simp [nearOf, fromJavaOop, isKlass, JavaNear.renewed, JavaNear.hashValue_setHash]
  · rw [Function.update_self]
    exact newValue

/-- The hash that is returned is not zero, and is the one of the object from then on. -/
theorem Invariant.hashCode
    (invariant : Invariant reals nowhere nobody state)
    (memory : Bool) (obj : Nat) :
    ∃ reals', Invariant reals' nowhere nobody (state.hashCode memory obj).2 ∧
      KeepsNears reals reals' ∧
      ∀ value, (state.hashCode memory obj).1 = some value →
        value = (reals' obj).hashValue ∧ value ≠ noHashValue := by
  have sameHash := invariant.hashValue_nearOf obj
  rw [State.hashCode]
  by_cases hasHash : (state.nearOf obj).hasHash
  · refine ⟨reals, ?_, .refl reals, ?_⟩
    · simpa [hasHash] using invariant
    · intro value isValue
      simp only [hasHash, if_true, Option.some.injEq] at isValue
      rw [← isValue]
      exact ⟨sameHash, by simpa [JavaNear.hasHash] using hasHash⟩
  · have noHash : (reals obj).hashValue = noHashValue := by
      rw [← sameHash]
      simpa [JavaNear.hasHash] using hasHash
    cases memory with
    | false => exact ⟨reals, by simpa [hasHash] using invariant, .refl reals, by simp [hasHash]⟩
    | true =>
        have given := invariant.giveHash (drawHash 2 state.random).2 noHash
          (drawHash_ne state.random) (drawHash_and_hashMask 2 state.random)
        generalize drawHash 2 state.random = drawn at given ⊢
        obtain ⟨reals', invariant', keeps, isValue, hasValue⟩ := given
        refine ⟨reals', by simpa [hasHash] using invariant', keeps, ?_⟩
        intro value isReturned
        have isValue' : value = (reals' obj).hashValue := by
          rw [← isValue]
          simpa [hasHash] using isReturned.symm
        exact ⟨isValue', isValue' ▸ hasValue⟩

end PicoJvm.Monitors
