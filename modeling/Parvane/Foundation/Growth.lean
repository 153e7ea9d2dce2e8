import Parvane.Foundation.Register

/-!
# Steps that never lead back

Where no steps lead back from a change, a run that ends where it began has changed nothing on
its way.  Registers that keep the greatest value are of this kind, and so is what is built of
them.
-/

namespace Convergence

/-- A run that ends where it began consists of steps without effect. -/
def NoReturn (step : σ -> α -> σ) : Prop :=
  ∀ (state : σ) (operations : List α), operations.foldl step state = state ->
    ∀ operation ∈ operations, step state operation = state

namespace NoReturn

variable {step : σ -> α -> σ} {operations : List α} {state : σ}

/-- Steps without effect make a run without effect. -/
theorem foldl_eq_self
    (still : ∀ operation ∈ operations, step state operation = state) :
    operations.foldl step state = state := by
  induction operations with
  | nil => rfl
  | cons operation operations inductionHypothesis =>
      rw [List.foldl_cons, still operation List.mem_cons_self]
      exact inductionHypothesis fun other member => still other (List.mem_cons_of_mem _ member)

theorem foldl_eq_self_iff (noReturn : NoReturn step) :
    operations.foldl step state = state ↔
      ∀ operation ∈ operations, step state operation = state :=
  ⟨noReturn state operations, foldl_eq_self⟩

/-- It is enough that no steps lead back from the first change. -/
theorem of_first
    (first : ∀ (state : σ) (operation : α) (operations : List α),
      operations.foldl step (step state operation) = state -> step state operation = state) :
    NoReturn step := by
  intro state operations returns
  induction operations with
  | nil => simp
  | cons operation operations inductionHypothesis =>
      have still := first state operation operations returns
      rw [List.foldl_cons, still] at returns
      exact List.forall_mem_cons.2 ⟨still, inductionHypothesis returns⟩

/-- A part of a state that evolves by itself. -/
theorem project {partStep : τ -> α -> τ}
    (noReturn : NoReturn partStep) (part : σ -> τ)
    (part_step : ∀ state operation,
      partStep (part state) operation = part (step state operation))
    (returns : operations.foldl step state = state) :
    ∀ operation ∈ operations, part (step state operation) = part state := by
  have partReturns : operations.foldl partStep (part state) = part state := by
    rw [List.foldl_hom part part_step, returns]
  intro operation member
  rw [← part_step]
  exact noReturn _ _ partReturns operation member

/-- Operations that may carry nothing for this part of the state. -/
theorem optional (noReturn : NoReturn step) (view : β -> Option α) :
    NoReturn fun state operation => (view operation).elim state (step state) := by
  intro state operations returns operation member
  rw [foldl_optional] at returns
  change (view operation).elim state (step state) = state
  cases carries : view operation with
  | none => rfl
  | some carried =>
      exact noReturn _ _ returns carried (List.mem_filterMap.2 ⟨operation, member, carries⟩)

/-- A state that comes into being with the first operation. -/
theorem defaulted (noReturn : NoReturn step) (initial : σ) :
    NoReturn fun slot operation => some (step (slot.getD initial) operation) := by
  apply of_first
  intro slot operation operations returns
  rw [ConvergesFrom.foldl_defaulted] at returns
  cases slot with
  | none =>
      split at returns
      · exact returns
      · cases returns
  | some current =>
      have runReturns : (operation :: operations).foldl step current = current := by
        split at returns
        · next empty =>
            subst empty
            exact Option.some.inj returns
        · exact Option.some.inj returns
      exact congrArg some (noReturn _ _ runReturns operation List.mem_cons_self)

/-- A keyed store with such slots. -/
theorem alterAt [Ord κ] [Std.TransOrd κ] [Std.LawfulEqOrd κ]
    {slotStep : Option ν -> α -> Option ν} (noReturn : NoReturn slotStep) (target : α -> Option κ) :
    NoReturn (Convergence.alterAt target slotStep) := by
  classical
  intro store operations returns operation member
  apply Std.ExtTreeMap.ext_getElem?
  intro key
  rw [getElem?_alterAt]
  split
  · next addressed =>
      have slotReturns := congrArg (fun store : Std.ExtTreeMap κ ν => store[key]?) returns
      simp only [ConvergesFrom.getElem?_foldl_alterAt] at slotReturns
      exact noReturn _ _ slotReturns operation
        (List.mem_filter.2 ⟨member, decide_eq_true addressed⟩)
  · rfl

end NoReturn

section

variable [LinearOrder κ] (rank : ν -> κ)

/-- A register only goes up. -/
theorem keepGreatest_foldl_le (values : List ν) (current : ν) :
    ∃ kept, values.foldl (keepGreatest rank) (some current) = some kept ∧
      rank current ≤ rank kept := by
  induction values generalizing current with
  | nil => exact ⟨current, rfl, le_rfl⟩
  | cons value values inductionHypothesis =>
      rw [List.foldl_cons, keepGreatest_some]
      split
      · next newer =>
          obtain ⟨kept, keeps, above⟩ := inductionHypothesis value
          exact ⟨kept, keeps, newer.le.trans above⟩
      · exact inductionHypothesis current

theorem keepGreatest_foldl_some (values : List ν) (current : ν) :
    ∃ kept, values.foldl (keepGreatest rank) (some current) = some kept ∧
      (kept = current ∨ rank current < rank kept) := by
  induction values generalizing current with
  | nil => exact ⟨current, rfl, .inl rfl⟩
  | cons value values inductionHypothesis =>
      rw [List.foldl_cons, keepGreatest_some]
      split
      · next newer =>
          obtain ⟨kept, keeps, same | above⟩ := inductionHypothesis value
          · exact ⟨kept, keeps, .inr (same ▸ newer)⟩
          · exact ⟨kept, keeps, .inr (newer.trans above)⟩
      · exact inductionHypothesis current

/-- A register that came by its value in several steps may take it in one. -/
theorem keepGreatest_foldl_absorbs (values : List ν) (slot : Option ν) :
    (values.foldl (keepGreatest rank) slot).elim slot (keepGreatest rank slot) =
      values.foldl (keepGreatest rank) slot := by
  cases slot with
  | none => cases values.foldl (keepGreatest rank) none <;> rfl
  | some current =>
      obtain ⟨kept, keeps, same | above⟩ := keepGreatest_foldl_some rank values current
      · rw [keeps, same, Option.elim_some, keepGreatest_some, if_neg (lt_irrefl _)]
      · rw [keeps, Option.elim_some, keepGreatest_some, if_pos above]

theorem keepGreatest_noReturn : NoReturn (keepGreatest rank) := by
  apply NoReturn.of_first
  intro slot value values returns
  cases slot with
  | none =>
      obtain ⟨kept, keeps, -⟩ := keepGreatest_foldl_le rank values value
      rw [keepGreatest_none, keeps] at returns
      cases returns
  | some current =>
      by_cases newer : rank current < rank value
      · obtain ⟨kept, keeps, above⟩ := keepGreatest_foldl_le rank values value
        rw [keepGreatest_some, if_pos newer, keeps] at returns
        cases returns
        exact absurd newer above.not_gt
      · rw [keepGreatest_some, if_neg newer]

end

end Convergence
