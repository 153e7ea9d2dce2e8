import Parvane.Repeats.Weeks
import Mathlib.Data.Nat.Bitwise

/-!
# Accepted rules, compiled

What a compiled rule has when the rule was accepted and its first day is real.
-/

namespace Parvane.Repeats

open Calendar

/-! ## Days of the week -/

theorem foldl_unique {unique items : List Int}
    (nodup : (unique ++ items).Nodup) :
    items.foldl (fun unique item => if item ∈ unique then unique else unique ++ [item]) unique =
      unique ++ items := by
  induction items generalizing unique with
  | nil => rw [List.foldl_nil, List.append_nil]
  | cons item rest inductionHypothesis =>
      have fresh : item ∉ unique := fun member =>
        List.disjoint_of_nodup_append nodup member List.mem_cons_self
      rw [List.append_cons] at nodup ⊢
      rw [List.foldl_cons, if_neg fresh, inductionHypothesis nodup]

theorem uniqueOf_eq_self {items : List Int} (nodup : items.Nodup) : uniqueOf items = items :=
  foldl_unique nodup

theorem mondayBased_bounds {weekday : Int} (low : 0 ≤ weekday) :
    0 ≤ mondayBased weekday ∧ mondayBased weekday ≤ 6 := by
  rw [mondayBased_eq low]
  omega

theorem mondayBased_injective {first second : Int}
    (low : 0 ≤ first) (high : first ≤ 6) (otherLow : 0 ≤ second) (otherHigh : second ≤ 6)
    (same : mondayBased first = mondayBased second) : first = second := by
  rw [mondayBased_eq low, mondayBased_eq otherLow] at same
  omega

/-- The day of the week that a position stands for. -/
theorem mondayBased_eq_iff {weekday position : Int}
    (low : 0 ≤ weekday) (high : weekday ≤ 6) (positionLow : 0 ≤ position)
    (positionHigh : position ≤ 6) :
    mondayBased weekday = position ↔ weekday = (position + 1).tmod 7 := by
  rw [mondayBased_eq low, Int.tmod_eq_emod_of_nonneg (by omega)]
  omega

theorem bitOf_eq {n : Int} (low : 0 ≤ n) (high : n ≤ 31) : bitOf n = 2 ^ n.toNat := by
  rw [bitOf, Nat.one_shiftLeft, Int.tmod_eq_of_lt low (by omega),
    Int.tmod_eq_emod_of_nonneg (by omega), Int.add_emod_right, Int.emod_eq_of_lt low (by omega)]

theorem and_two_pow_ne_zero_iff {mask bit : Nat} :
    mask &&& 2 ^ bit ≠ 0 ↔ mask.testBit bit = true := by
  rw [Nat.and_two_pow]
  cases mask.testBit bit <;> simp

/-- The mask has the days of the week that the positions stand for, and no others. -/
theorem testBit_mask {positions : List Int}
    (bounds : ∀ position ∈ positions, 0 ≤ position ∧ position ≤ 6) {weekday : Int}
    (low : 0 ≤ weekday) (high : weekday ≤ 6) (mask : Nat) :
    (positions.foldl (fun mask position => mask ||| bitOf ((position + 1).tmod 7)) mask).testBit
        weekday.toNat = true ↔
      mask.testBit weekday.toNat = true ∨ mondayBased weekday ∈ positions := by
  induction positions generalizing mask with
  | nil => simp
  | cons position rest inductionHypothesis =>
      obtain ⟨positionLow, positionHigh⟩ := bounds position List.mem_cons_self
      have dayLow : 0 ≤ (position + 1).tmod 7 := Int.tmod_nonneg _ (by omega)
      have dayHigh : (position + 1).tmod 7 < 7 := Int.tmod_lt_of_pos _ (by decide)
      have sameBit : ((position + 1).tmod 7).toNat = weekday.toNat ↔
          mondayBased weekday = position := by
        rw [mondayBased_eq_iff low high positionLow positionHigh]
        omega
      rw [List.foldl_cons,
        inductionHypothesis (fun other member => bounds other (List.mem_cons_of_mem _ member)),
        Nat.testBit_or, bitOf_eq dayLow (by omega), Nat.testBit_two_pow, Bool.or_eq_true,
        decide_eq_true_eq, sameBit, List.mem_cons, or_assoc]

/-! ## Accepted rules -/

/-- What the checks of a rule find. -/
structure Accepted (rule : Repeat) : Prop where
  interval_pos : 1 ≤ rule.interval
  weekdays : rule.kind = "weekly" ->
    (∀ day ∈ rule.weekdays.getD [], 0 ≤ day ∧ day ≤ 6) ∧ (rule.weekdays.getD []).Nodup
  monthDay : ∀ day, rule.monthDay = some day -> 1 ≤ day
  startDay : rule.startDay = "" -> rule.kind = "weekly"
  endDay : ∀ day, truthy rule.endDay = some day -> rule.startDay ≠ "" -> rule.startDay ≤ day
  count : ∀ count, rule.count = some count -> 1 ≤ count

/-- A check passes, and so do those after it. -/
theorem check_eq_none_iff {failed : Prop}
    [Decidable failed]
    {field : String} {others : Option String} :
    (if failed then some field else others) = none ↔ ¬failed ∧ others = none := by
  by_cases isFailed : failed <;> simp [isFailed]

theorem accepted_of_validateRepeat {rule : Repeat}
    (valid : validateRepeat rule = none) : Accepted rule := by
  unfold validateRepeat at valid
  dsimp only at valid
  simp only [check_eq_none_iff] at valid
  obtain ⟨interval, weekdays, monthDay, startDay, endDay, count, -⟩ := valid
  constructor
  · simp only [Bool.or_eq_true, decide_eq_true_eq] at interval
    omega
  · intro isWeekly
    simp [isWeekly] at weekdays
    exact ⟨weekdays.1.2, weekdays.2⟩
  · intro day isDay
    simp only [isDay, Option.any_some, Bool.or_eq_true, decide_eq_true_eq] at monthDay
    omega
  · intro isEmpty
    simpa [isEmpty] using startDay
  · intro day isEnd notEmpty
    simp only [isEnd, Option.any_some, Bool.or_eq_true, Bool.and_eq_true, decide_eq_true_eq,
      not_or, not_and] at endDay
    exact endDay.2 (by simpa using notEmpty)
  · intro value isCount
    simp only [isCount, Option.any_some, Bool.or_eq_true, decide_eq_true_eq] at count
    omega

/-! ## The compiled rule -/

section

variable {rule : Repeat} {start : Date}

theorem isEmpty_keyOf (isDay : IsDay start) : (keyOf start).isEmpty = false := by
  have length := congrArg List.length (toList_keyOf isDay)
  rw [Bool.eq_false_iff]
  intro isEmpty
  rw [String.isEmpty_iff] at isEmpty
  rw [isEmpty] at length
  simp at length

/-- The positions are the days of the week, in the order of a week that begins on Monday. -/
theorem hasPositions_compileRepeat
    (accepted : Accepted rule)
    (isWeekly : rule.kind = "weekly") : (compileRepeat rule).HasPositions := by
  obtain ⟨days, nodup⟩ := accepted.weekdays isWeekly
  have isPositions : (compileRepeat rule).positions =
      ((rule.weekdays.getD []).map mondayBased).mergeSort fun first second =>
        decide (first ≤ second) := by
    rw [← uniqueOf_eq_self nodup]
    rfl
  have bounds : ∀ position ∈ (compileRepeat rule).positions, 0 ≤ position ∧ position ≤ 6 := by
    intro position member
    rw [isPositions, List.mem_mergeSort, List.mem_map] at member
    obtain ⟨day, isDay, rfl⟩ := member
    exact mondayBased_bounds (days day isDay).1
  refine ⟨?_, bounds, ?_⟩
  · have ordered : (compileRepeat rule).positions.Pairwise (· ≤ ·) := by
      rw [isPositions]
      simpa using @List.pairwise_mergeSort Int (fun first second => decide (first ≤ second))
        (fun a b c => by simpa using Int.le_trans) (fun a b => by simpa using Int.le_total a b)
        ((rule.weekdays.getD []).map mondayBased)
    have distinct : (compileRepeat rule).positions.Nodup := by
      rw [isPositions, (List.mergeSort_perm _ _).nodup_iff]
      refine nodup.map_on fun first member second otherMember => ?_
      exact mondayBased_injective (days first member).1 (days first member).2
        (days second otherMember).1 (days second otherMember).2
    exact (ordered.and distinct).imp fun both => lt_of_le_of_ne both.1 both.2
  · intro weekday low high
    rw [CompiledRepeat.hasWeekday, bne_iff_ne, bitOf_eq low (by omega), and_two_pow_ne_zero_iff]
    exact (testBit_mask bounds low high 0).trans (by simp)

theorem started_compileRepeat
    (accepted : Accepted rule) (isDay : IsDay start)
    (isStart : rule.startDay = keyOf start) : (compileRepeat rule).Started start := by
  have notEmpty : rule.startDay.isEmpty = false := by rw [isStart, isEmpty_keyOf isDay]
  have isEpoch : epochDays rule.startDay = epochOfDate start := by
    rw [isStart, epochDays_keyOf isDay]
  have isParts : parts rule.startDay = start := by rw [isStart, parts_keyOf isDay]
  constructor
  case isDay => exact isDay
  case isValid => exact decide_eq_true accepted.interval_pos
  case interval_pos => exact accepted.interval_pos
  case monthDay_pos =>
    unfold compileRepeat
    simp only [notEmpty, isParts, Bool.false_eq_true, if_false]
    cases isMonthDay : rule.monthDay with
    | none => exact isDay.isReal.date_pos
    | some day =>
        have positive := accepted.monthDay day isMonthDay
        have notZero : (day != 0) = true := by
          rw [bne_iff_ne]
          omega
        rwa [Option.filter_some, if_pos notZero, Option.getD_some]
  all_goals
    unfold compileRepeat
    simp only [notEmpty, isParts, isEpoch, Bool.false_eq_true, if_false, Option.map_some,
      Option.getD_some]

end

end Parvane.Repeats
