import Parvane.Repeats.Expansion

/-!
# Steps of weeks

Whole weeks are stepped through, and in a week the positions that the rule has.  A day is found
in one week only, at one position.
-/

namespace Parvane.Repeats

open Calendar Sweeping

theorem mondayBased_eq {weekday : Int} (low : 0 ≤ weekday) :
    mondayBased weekday = (weekday + 6) % 7 :=
  Int.tmod_eq_emod_of_nonneg (by omega)

theorem mondayBased_weekdayOfEpoch (epoch : Int) :
    mondayBased (weekdayOfEpoch epoch) = (epoch + 3) % 7 := by
  rw [weekdayOfEpoch_eq, mondayBased_eq (by omega)]
  omega

theorem mem_zipIdx_iff {positions : List Int}
    (sorted : positions.Pairwise (· < ·))
    {position : Int} {index : Nat} :
    (position, index) ∈ positions.zipIdx ↔
      position ∈ positions ∧ index = positions.idxOf position := by
  have nodup : positions.Nodup := sorted.imp Int.ne_of_lt
  rw [List.mk_mem_zipIdx_iff_getElem?, List.getElem?_eq_some_iff]
  constructor
  · rintro ⟨inside, rfl⟩
    exact ⟨List.getElem_mem inside, (nodup.idxOf_getElem index inside).symm⟩
  · rintro ⟨member, rfl⟩
    exact ⟨List.idxOf_lt_length_of_mem member, List.getElem_idxOf _⟩

theorem pairwise_zipIdx {positions : List Int}
    (sorted : positions.Pairwise (· < ·))
    (index : Nat) :
    (positions.zipIdx index).Pairwise fun first second =>
      first.1 < second.1 ∧ first.2 < second.2 := by
  induction positions generalizing index with
  | nil => exact List.Pairwise.nil
  | cons position rest inductionHypothesis =>
      obtain ⟨first, others⟩ := List.pairwise_cons.1 sorted
      rw [List.zipIdx_cons, List.pairwise_cons]
      refine ⟨?_, inductionHypothesis others (index + 1)⟩
      rintro ⟨other, next⟩ member
      exact ⟨first other (List.fst_mem_of_mem_zipIdx member),
        Nat.lt_of_succ_le (List.le_snd_of_mem_zipIdx member)⟩

namespace CompiledRepeat

variable {rule : CompiledRepeat} {start : Date} {lo hi : Int}

/-- The positions of a rule are days of a week, in order, and the mask has the same days. -/
structure HasPositions (rule : CompiledRepeat) : Prop where
  sorted : rule.positions.Pairwise (· < ·)
  bounds : ∀ position ∈ rule.positions, 0 ≤ position ∧ position ≤ 6
  hasWeekday_iff : ∀ weekday, 0 ≤ weekday -> weekday ≤ 6 ->
    (rule.hasWeekday weekday = true ↔ mondayBased weekday ∈ rule.positions)

theorem HasPositions.hasWeekday_epoch (positions : rule.HasPositions) (epoch : Int) :
    rule.hasWeekday (weekdayOfEpoch epoch) = true ↔ (epoch + 3) % 7 ∈ rule.positions := by
  have weekday := weekdayOfEpoch_eq epoch
  rw [positions.hasWeekday_iff _ (by omega) (by omega), mondayBased_weekdayOfEpoch]

/-- The number of weeks that are passed over, in steps of the rule. -/
def firstStep (rule : CompiledRepeat) (lo : Int) : Int :=
  ceilDiv (weekIndexOfEpoch lo - rule.startWeek) rule.interval

theorem weekOf_eq (rule : CompiledRepeat) (lo : Int) (round : Nat) :
    rule.weekOf lo round = rule.startWeek + (rule.firstStep lo + round) * rule.interval := by
  rw [weekOf, firstStep, Int.add_mul]
  omega

/-- A candidate of a week is at a position of the rule. -/
theorem HasPositions.mem_weeklyBlock
    (positions : rule.HasPositions) (interval_pos : 1 ≤ rule.interval)
    {epoch ordinal : Int} {round : Nat} :
    (epoch, ordinal) ∈ rule.weeklyBlock lo round ↔
      ∃ position ∈ rule.positions,
        epoch = mondayOfWeek (rule.weekOf lo round) + position ∧
          ordinal = (rule.firstStep lo + round) * rule.positions.length +
            rule.positions.idxOf position + 1 - rule.skippedInFirstWeek := by
  have steps : (rule.weekOf lo round - rule.startWeek).tdiv rule.interval =
      rule.firstStep lo + round := by
    rw [weekOf_eq, add_sub_cancel_left, Int.mul_tdiv_cancel _ (by omega)]
  unfold weeklyBlock
  dsimp only
  rw [steps, List.mem_map]
  constructor
  · rintro ⟨⟨position, index⟩, member, same⟩
    obtain ⟨hasPosition, rfl⟩ := (mem_zipIdx_iff positions.sorted).1 member
    rw [Prod.mk.injEq] at same
    exact ⟨position, hasPosition, same.1.symm, by omega⟩
  · rintro ⟨position, hasPosition, rfl, rfl⟩
    refine ⟨_, (mem_zipIdx_iff positions.sorted).2 ⟨hasPosition, rfl⟩, ?_⟩
    rw [Prod.mk.injEq]
    exact ⟨rfl, by omega⟩

theorem weekOf_lt
    (interval_pos : 1 ≤ rule.interval) {round next : Nat}
    (earlier : round < next) : rule.weekOf lo round < rule.weekOf lo next := by
  have steps : (rule.firstStep lo + round) * rule.interval <
      (rule.firstStep lo + next) * rule.interval :=
    Int.mul_lt_mul_of_pos_right (by omega) (by omega)
  rw [weekOf_eq, weekOf_eq]
  omega

theorem HasPositions.inOrder
    (positions : rule.HasPositions) (interval_pos : 1 ≤ rule.interval) :
    InOrder Before (rule.isLate hi)
      (fun round => decide (mondayOfWeek (rule.weekOf lo round) > hi)) (rule.weeklyBlock lo) where
  within round := by
    unfold weeklyBlock
    rw [List.pairwise_map]
    apply (pairwise_zipIdx positions.sorted 0).imp
    rintro ⟨position, index⟩ ⟨other, next⟩ ⟨before, earlier⟩
    exact ⟨by dsimp only at before ⊢; omega, by dsimp only at earlier ⊢; omega⟩
  across round next earlier := by
    rintro ⟨epoch, ordinal⟩ member ⟨otherEpoch, otherOrdinal⟩ otherMember
    obtain ⟨position, hasPosition, rfl, rfl⟩ := (positions.mem_weeklyBlock interval_pos).1 member
    obtain ⟨other, hasOther, rfl, rfl⟩ := (positions.mem_weeklyBlock interval_pos).1 otherMember
    have week := @weekOf_lt rule lo interval_pos _ _ earlier
    have inside := positions.bounds position hasPosition
    have otherInside := positions.bounds other hasOther
    have index := List.idxOf_lt_length_of_mem hasPosition
    have blocks : (rule.firstStep lo + round + 1) * rule.positions.length ≤
        (rule.firstStep lo + next) * rule.positions.length :=
      Int.mul_le_mul_of_nonneg_right (by omega) (by omega)
    rw [Int.add_mul _ 1, Int.one_mul] at blocks
    unfold mondayOfWeek
    exact ⟨by dsimp only; omega, by dsimp only; omega⟩
  staysLate := isLate_stays
  halted round next halted le := by
    rintro ⟨epoch, ordinal⟩ member
    obtain ⟨position, hasPosition, rfl, rfl⟩ := (positions.mem_weeklyBlock interval_pos).1 member
    have inside := positions.bounds position hasPosition
    have week : rule.weekOf lo round ≤ rule.weekOf lo next := by
      rcases Nat.eq_or_lt_of_le le with rfl | earlier
      · exact Int.le_refl _
      · exact Int.le_of_lt (weekOf_lt interval_pos earlier)
    rw [decide_eq_true_eq] at halted
    rw [isLate, Bool.or_eq_true, decide_eq_true_eq]
    right
    unfold mondayOfWeek at halted ⊢
    dsimp only
    omega

theorem exists_halted (interval_pos : 1 ≤ rule.interval) (lo hi : Int) :
    ∃ last, mondayOfWeek (rule.weekOf lo last) > hi := by
  have grows (round : Nat) : rule.weekOf lo 0 + round ≤ rule.weekOf lo round := by
    induction round with
    | zero => simp
    | succ round inductionHypothesis =>
        have next := @weekOf_lt rule lo interval_pos _ _ (Nat.lt_add_one round)
        omega
  refine ⟨hi.natAbs + (rule.weekOf lo 0).natAbs + 4, ?_⟩
  have far := grows (hi.natAbs + (rule.weekOf lo 0).natAbs + 4)
  unfold mondayOfWeek
  omega

theorem Started.steps_weekly
    (started : rule.Started start) (positions : rule.HasPositions) (isWeekly : rule.kind = "weekly")
    (ahead : epochOfDate start ≤ lo) (ends : ∀ last, rule.end_ = some last -> hi ≤ last) :
    rule.Steps (epochOfDate start) lo hi := by
  have positive := started.interval_pos
  have isBlock : rule.block (epochOfDate start) lo = rule.weeklyBlock lo := by
    rw [block, if_pos isWeekly]
  have isHalts : rule.halts lo hi =
      fun round => decide (mondayOfWeek (rule.weekOf lo round) > hi) := by
    funext round
    rw [halts, decide_eq_true isWeekly, Bool.true_and]
  constructor
  · rw [isBlock, isHalts]
    exact positions.inOrder positive
  · obtain ⟨last, late⟩ := exists_halted positive lo hi
    exact ⟨last, .inl (by rw [isHalts]; exact decide_eq_true late)⟩
  · intro epoch ordinal above below
    have week := weekIndexOfEpoch_eq epoch
    have loWeek := weekIndexOfEpoch_eq lo
    have startWeek := weekIndexOfEpoch_eq (epochOfDate start)
    have weeksAhead : 0 ≤ weekIndexOfEpoch epoch - rule.startWeek := by
      rw [started.startWeek]
      omega
    rw [ordinalOfEpoch_between started.isValid started.isStart (by omega) fun last isLast =>
      Int.le_trans below (ends last isLast), if_pos isWeekly, isBlock]
    simp only [positions.mem_weeklyBlock positive]
    rw [Option.ite_none_left_eq_some, Bool.not_eq_true', Bool.not_eq_false,
      positions.hasWeekday_epoch, Option.ite_none_left_eq_some, not_not, Option.some.injEq,
      mondayBased_weekdayOfEpoch]
    constructor
    · rintro ⟨round, position, hasPosition, onDay, rfl⟩
      have inside := positions.bounds position hasPosition
      have isPosition : (epoch + 3) % 7 = position := by
        unfold mondayOfWeek at onDay
        omega
      have weeks : weekIndexOfEpoch epoch - rule.startWeek =
          (rule.firstStep lo + round) * rule.interval := by
        have isWeek : weekIndexOfEpoch epoch = rule.weekOf lo round := by
          unfold mondayOfWeek at onDay
          omega
        rw [isWeek, weekOf_eq, add_sub_cancel_left]
      rw [isPosition, weeks, Int.mul_tdiv_cancel _ (by omega)]
      exact ⟨hasPosition, Int.mul_tmod_left _ _, rfl⟩
    · rintro ⟨hasPosition, whole, rfl⟩
      have weeks := Int.tdiv_mul_cancel_of_tmod_eq_zero whole
      have notBefore : rule.firstStep lo ≤
          (weekIndexOfEpoch epoch - rule.startWeek).tdiv rule.interval := by
        rw [firstStep, ceilDiv_le_iff (by omega), weeks]
        omega
      generalize (weekIndexOfEpoch epoch - rule.startWeek).tdiv rule.interval = step
        at weeks notBefore ⊢
      have same : rule.firstStep lo + (step - rule.firstStep lo).toNat = step := by omega
      refine ⟨(step - rule.firstStep lo).toNat, _, hasPosition, ?_, by rw [same]⟩
      rw [weekOf_eq, same, weeks, mondayOfWeek]
      omega

end CompiledRepeat

end Parvane.Repeats
