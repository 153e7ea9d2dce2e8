import Mathlib.Logic.Basic

/-!
# Loops that may fail or never end

A loop goes on while its condition holds.  It is followed for a number of rounds, after which it
has ended, has failed in its body, or still runs.
-/

namespace Loops

inductive Outcome (σ : Type)
  | failed
  | running (state : σ)
  | ended (state : σ)

/-- What became of a loop after so many rounds. -/
def loop {σ : Type} (goes : σ -> Bool) (body : σ -> Option σ) : Nat -> σ -> Outcome σ
  | 0, state => if goes state then .running state else .ended state
  | rounds + 1, state =>
      if goes state then
        match body state with
        | none => .failed
        | some next => loop goes body rounds next
      else .ended state

section

variable {σ : Type} {goes : σ -> Bool} {body : σ -> Option σ} {invariant : σ -> Prop}
  {state : σ}

/-- A loop whose rounds succeed and lower a measure ends. -/
theorem exists_ended {measure : σ -> Nat}
    (lowers : ∀ state, invariant state -> goes state = true ->
      ∃ next, body state = some next ∧ invariant next ∧ measure next < measure state)
    (initially : invariant state) :
    ∃ rounds final, loop goes body rounds state = .ended final ∧ invariant final ∧
      goes final = false := by
  induction bound : measure state using Nat.strongRecOn generalizing state with
  | _ bound inductionHypothesis =>
      subst bound
      cases going : goes state with
      | false =>
          refine ⟨0, state, ?_, initially, going⟩
          rw [loop, going]
          rfl
      | true =>
          obtain ⟨next, isNext, stillHolds, less⟩ := lowers state initially going
          obtain ⟨rounds, final, ends, atEnd, stops⟩ :=
            inductionHypothesis (measure next) less stillHolds rfl
          refine ⟨rounds + 1, final, ?_, atEnd, stops⟩
          rw [loop, going, if_pos rfl, isNext]
          exact ends

/-- A loop that goes on wherever an invariant holds, and keeps it, does not end. -/
theorem ne_ended
    (goesOn : ∀ state, invariant state -> goes state = true)
    (keeps : ∀ state next, invariant state -> body state = some next -> invariant next)
    (initially : invariant state) (rounds : Nat)
    (final : σ) : loop goes body rounds state ≠ .ended final := by
  induction rounds generalizing state with
  | zero =>
      rw [loop, goesOn state initially, if_pos rfl]
      nofun
  | succ rounds inductionHypothesis =>
      rw [loop, goesOn state initially, if_pos rfl]
      cases isNext : body state with
      | none => nofun
      | some next => exact inductionHypothesis (keeps state next initially isNext)

end

end Loops
