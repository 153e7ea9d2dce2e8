import Parvane.Foundation.Convergence
import Mathlib.Order.Basic

/-!
# Last-writer-wins registers

A register keeps the greatest value it has been offered, in the order of a rank
such as a time stamp.  Offers of equal rank are only harmless when they carry the
same value, so convergence is stated for a set of values on which the rank is
injective.
-/

namespace Convergence

section

variable [LinearOrder κ] (rank : ν -> κ)

/-- Offer a value to a register. -/
def keepGreatest (slot : Option ν) (value : ν) : Option ν :=
  match slot with
  | none => some value
  | some current => if rank current < rank value then some value else some current

@[simp] theorem keepGreatest_none (value : ν) : keepGreatest rank none value = some value := rfl

theorem keepGreatest_some (current value : ν) :
    keepGreatest rank (some current) value =
      if rank current < rank value then some value else some current := rfl

/-- A register that was offered a value holds one. -/
theorem keepGreatest_eq_some (slot : Option ν) (value : ν) :
    ∃ kept, keepGreatest rank slot value = some kept ∧
      (kept = value ∨ slot = some kept) := by
  cases slot with
  | none => exact ⟨value, rfl, Or.inl rfl⟩
  | some current =>
      rw [keepGreatest_some]
      split
      · exact ⟨value, rfl, Or.inl rfl⟩
      · exact ⟨current, rfl, Or.inr rfl⟩

/-- What a register holds is at least what it was offered and what it held. -/
theorem le_of_keepGreatest {slot : Option ν} {value kept : ν}
    (isKept : keepGreatest rank slot value = some kept) :
    rank value ≤ rank kept ∧ ∀ current, slot = some current -> rank current ≤ rank kept := by
  cases slot with
  | none =>
      cases isKept
      exact ⟨le_rfl, nofun⟩
  | some current =>
      rw [keepGreatest_some] at isKept
      split at isKept
      · next less =>
          cases isKept
          refine ⟨le_rfl, ?_⟩
          intro other same
          rw [← Option.some.inj same]
          exact less.le
      · next notLess =>
          cases isKept
          refine ⟨not_lt.1 notLess, ?_⟩
          intro other same
          exact (congrArg rank (Option.some.inj same)).ge

/-- Registers converge on every set of values that the rank tells apart. -/
theorem keepGreatest_commutesOn {values : Set ν}
    (rank_injOn : Set.InjOn rank values) :
    CommutesOn (keepGreatest rank)
      (fun slot => ∀ value ∈ slot, value ∈ values)
      (· ∈ values) := by
  refine ⟨?_, ?_, ?_⟩
  · intro slot value holds admissible kept keptEq
    obtain ⟨result, resultEq, fromValue | fromSlot⟩ :=
      keepGreatest_eq_some rank slot value
    · rw [Option.mem_def, resultEq] at keptEq
      rw [← Option.some.inj keptEq, fromValue]
      exact admissible
    · rw [Option.mem_def, resultEq, ← fromSlot] at keptEq
      exact holds kept keptEq
  · intro slot first second holds firstIn secondIn
    have tie : rank first = rank second -> first = second :=
      fun equal => rank_injOn firstIn secondIn equal
    cases slot with
    | none =>
        simp only [keepGreatest_none, keepGreatest_some]
        rcases lt_trichotomy (rank first) (rank second) with less | equal | greater
        · rw [if_pos less, if_neg less.asymm]
        · rw [tie equal]
        · rw [if_neg greater.asymm, if_pos greater]
    | some current =>
        simp only [keepGreatest_some]
        rcases lt_trichotomy (rank first) (rank second) with less | equal | greater
        · by_cases aboveFirst : rank current < rank first
          · simp [keepGreatest_some, aboveFirst, aboveFirst.trans less, less, less.asymm]
          · by_cases aboveSecond : rank current < rank second
            · simp [keepGreatest_some, aboveFirst, aboveSecond, less.asymm]
            · simp [keepGreatest_some, aboveFirst, aboveSecond]
        · rw [tie equal]
        · by_cases aboveSecond : rank current < rank second
          · simp [keepGreatest_some, aboveSecond, aboveSecond.trans greater,
              greater, greater.asymm]
          · by_cases aboveFirst : rank current < rank first
            · simp [keepGreatest_some, aboveFirst, aboveSecond, greater.asymm]
            · simp [keepGreatest_some, aboveFirst, aboveSecond]
  · intro slot value _ _
    cases slot with
    | none => simp [keepGreatest_some]
    | some current =>
        by_cases above : rank current < rank value
        · simp [keepGreatest_some, above]
        · simp [keepGreatest_some, above]

end

/-- A counter that only grows converges without any condition. -/
theorem max_commutesOn [LinearOrder κ] (value : α -> κ) :
    CommutesOn (fun current operation => max current (value operation))
      (fun _ => True) (fun _ => True) where
  preserves _ _ _ _ := trivial
  comm current first second _ _ _ := by
    rw [max_assoc, max_comm (value first), ← max_assoc]
  absorbs current operation _ _ := by
    rw [max_assoc, max_self]

end Convergence
