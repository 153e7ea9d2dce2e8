import Parvane.Repeats.Agreement
import Mathlib.Data.Set.Card
import Mathlib.Order.Interval.Set.Nat

/-!
# The days of a rule, numbered

The days of a rule with a first day lie on a line: every step has one day, and later steps have
later days.  The ordinal of a day is its step, counted from one on; in the first week the steps
before the first day are not counted.
-/

namespace Parvane.Repeats

open Calendar

/-- The items below a bound are the first ones of a list in order. -/
theorem lt_countP_iff {items : List Int}
    (sorted : items.Pairwise (· < ·))
    {bound : Int} {index : Nat} (inside : index < items.length) :
    index < items.countP (fun item => decide (item < bound)) ↔ items[index] < bound := by
  induction items generalizing index with
  | nil => cases inside
  | cons item rest inductionHypothesis =>
      obtain ⟨first, others⟩ := List.pairwise_cons.1 sorted
      rw [List.countP_cons]
      by_cases below : item < bound
      · rw [decide_eq_true below, if_pos rfl]
        cases index with
        | zero => simpa using below
        | succ index =>
            rw [Nat.add_lt_add_iff_right, List.getElem_cons_succ]
            exact inductionHypothesis others (Nat.lt_of_succ_lt_succ inside)
      · have none : rest.countP (fun item => decide (item < bound)) = 0 := by
          rw [List.countP_eq_zero]
          intro other member
          have after := first other member
          simp only [decide_eq_true_eq]
          omega
        have above : bound ≤ (item :: rest)[index] := by
          cases index with
          | zero => exact Int.not_lt.1 below
          | succ index =>
              have after := first _ (List.getElem_mem (Nat.lt_of_succ_lt_succ inside))
              rw [List.getElem_cons_succ]
              omega
        rw [decide_eq_false below, none]
        simp only [Bool.false_eq_true, if_false, Nat.add_zero, Nat.not_lt_zero, false_iff,
          Int.not_lt]
        exact above

namespace CompiledRepeat

variable (rule : CompiledRepeat)

/-- The number of the month in which a rule begins. -/
def startIndex : Int :=
  12 * rule.startYear + rule.startMonth - 1

/-- The day of a step of the rule. -/
def dayAt (step : Int) : Int :=
  if rule.kind = "weekly" then
    mondayOfWeek (rule.startWeek + step / rule.positions.length * rule.interval) +
      rule.positions.getD (step % rule.positions.length).toNat 0
  else if rule.kind = "daily" then rule.start.getD 0 + step * rule.interval
  else if rule.kind = "monthly" then
    dayOfMonth rule.monthDay (rule.startIndex + step * rule.interval)
  else dayOfMonth rule.startDate (rule.startIndex + 12 * (step * rule.interval))

/-- The number of steps that have no ordinal. -/
def skipped : Int :=
  if rule.kind = "weekly" then rule.skippedInFirstWeek else 0

/-- A rule was compiled with a first day, which is not before the month it was given. -/
structure Begins (rule : CompiledRepeat) (first : Int) : Prop where
  isValid : rule.isValid = true
  interval_pos : 1 ≤ rule.interval
  isStart : rule.start = some first
  startWeek : rule.startWeek = weekIndexOfEpoch first
  month_pos : 1 ≤ rule.startMonth
  month_le : rule.startMonth ≤ 12
  date_pos : 1 ≤ rule.startDate
  monthDay_pos : 1 ≤ rule.monthDay
  late : 100 ≤ (civilFromDays first).year
  behind : rule.startIndex ≤ (civilFromDays first).monthIndex
  positions : rule.kind = "weekly" ->
    rule.HasPositions ∧ rule.positions ≠ [] ∧
      rule.skippedInFirstWeek =
        rule.positions.countP fun position => decide (position < (first + 3) % 7)

/-- The rule with another end and another count. -/
def withEnd (last count : Option Int) : CompiledRepeat :=
  { rule with end_ := last, count := count }

section

variable (last count : Option Int)

include last

@[simp] theorem withEnd_end_ : (rule.withEnd last count).end_ = last :=
  rfl

@[simp] theorem withEnd_count : (rule.withEnd last count).count = count :=
  rfl

@[simp] theorem withEnd_dayAt :
    (rule.withEnd last count).dayAt = rule.dayAt :=
  rfl

@[simp] theorem withEnd_skipped :
    (rule.withEnd last count).skipped = rule.skipped :=
  rfl

end

theorem Begins.withEnd {rule : CompiledRepeat} {first : Int}
    (begins : rule.Begins first)
    (last count : Option Int) : (rule.withEnd last count).Begins first where
  isValid := begins.isValid
  interval_pos := begins.interval_pos
  isStart := begins.isStart
  startWeek := begins.startWeek
  month_pos := begins.month_pos
  month_le := begins.month_le
  date_pos := begins.date_pos
  monthDay_pos := begins.monthDay_pos
  late := begins.late
  behind := begins.behind
  positions isWeekly := by
    obtain ⟨positions, others⟩ := begins.positions isWeekly
    exact ⟨⟨positions.sorted, positions.bounds, positions.hasWeekday_iff⟩, others⟩

section

variable {rule} {first epoch ordinal : Int}

/-- A step of weeks is a whole number of rounds and a position. -/
theorem dayAt_weekly
    (isWeekly : rule.kind = "weekly") (round : Int) {index : Nat}
    (inside : index < rule.positions.length) :
    rule.dayAt (round * rule.positions.length + index) =
      mondayOfWeek (rule.startWeek + round * rule.interval) + rule.positions[index] := by
  have notEmpty : (rule.positions.length : Int) ≠ 0 := by omega
  have whole : (round * rule.positions.length + index) / rule.positions.length = round := by
    rw [Int.add_comm, Int.add_mul_ediv_right _ _ notEmpty,
      Int.ediv_eq_zero_of_lt (by omega) (by omega), Int.zero_add]
  have rest : (round * rule.positions.length + index) % rule.positions.length = index := by
    rw [Int.add_comm, Int.add_mul_emod_self_right, Int.emod_eq_of_lt (by omega) (by omega)]
  rw [dayAt, if_pos isWeekly, whole, rest, Int.toNat_natCast,
    List.getD_eq_getElem _ _ inside]

section

variable (begins : rule.Begins first)

include begins

/-- Every step is such a number. -/
theorem Begins.exists_round
    (isWeekly : rule.kind = "weekly") (step : Int) :
    ∃ round, ∃ index : Nat, index < rule.positions.length ∧
      step = round * rule.positions.length + index := by
  obtain ⟨-, notEmpty, -⟩ := begins.positions isWeekly
  have positive : 0 < (rule.positions.length : Int) := by
    have := List.length_pos_of_ne_nil notEmpty
    omega
  have low := Int.emod_nonneg step (Int.ne_of_gt positive)
  have high := Int.emod_lt_of_pos step positive
  refine ⟨step / rule.positions.length, (step % rule.positions.length).toNat, by omega, ?_⟩
  have whole := Int.ediv_mul_add_emod step rule.positions.length
  omega

theorem Begins.dayAt_lt_weekly
    (isWeekly : rule.kind = "weekly") {step next : Int}
    (earlier : step < next) : rule.dayAt step < rule.dayAt next := by
  obtain ⟨positions, -, -⟩ := begins.positions isWeekly
  have positive := begins.interval_pos
  obtain ⟨round, index, inside, rfl⟩ := begins.exists_round isWeekly step
  obtain ⟨other, place, otherInside, rfl⟩ := begins.exists_round isWeekly next
  rw [dayAt_weekly isWeekly _ inside, dayAt_weekly isWeekly _ otherInside]
  have bounds := positions.bounds _ (List.getElem_mem inside)
  have otherBounds := positions.bounds _ (List.getElem_mem otherInside)
  unfold mondayOfWeek
  rcases Int.lt_trichotomy round other with before | rfl | after
  · have weeks := Int.mul_le_mul_of_nonneg_right (Int.add_one_le_of_lt before)
      (show 0 ≤ rule.interval by omega)
    rw [Int.add_mul, Int.one_mul] at weeks
    omega
  · have place := (List.pairwise_iff_getElem.1 positions.sorted) index place inside otherInside
      (by omega)
    omega
  · have rounds := Int.mul_le_mul_of_nonneg_right (Int.add_one_le_of_lt after)
      (Int.natCast_nonneg rule.positions.length)
    rw [Int.add_mul, Int.one_mul] at rounds
    omega

theorem Begins.ordinal_weekly
    (isWeekly : rule.kind = "weekly") (above : first ≤ epoch)
    (below : ∀ last, rule.end_ = some last -> epoch ≤ last) :
    rule.ordinalOfEpoch epoch = some ordinal ↔
      ∃ step, 0 ≤ step ∧ epoch = rule.dayAt step ∧ ordinal = step + 1 - rule.skipped := by
  obtain ⟨positions, -, -⟩ := begins.positions isWeekly
  have positive := begins.interval_pos
  have week := weekIndexOfEpoch_eq epoch
  have firstWeek := weekIndexOfEpoch_eq first
  have weeksAhead : 0 ≤ weekIndexOfEpoch epoch - rule.startWeek := by
    rw [begins.startWeek]
    omega
  rw [ordinalOfEpoch_between begins.isValid begins.isStart above below, if_pos isWeekly,
    Option.ite_none_left_eq_some, Bool.not_eq_true', Bool.not_eq_false,
    positions.hasWeekday_epoch, Option.ite_none_left_eq_some, not_not, Option.some.injEq,
    mondayBased_weekdayOfEpoch, skipped, if_pos isWeekly]
  constructor
  · rintro ⟨hasPosition, whole, rfl⟩
    have weeks := Int.tdiv_mul_cancel_of_tmod_eq_zero whole
    have notBefore : 0 ≤ (weekIndexOfEpoch epoch - rule.startWeek).tdiv rule.interval :=
      Int.tdiv_nonneg weeksAhead (by omega)
    generalize (weekIndexOfEpoch epoch - rule.startWeek).tdiv rule.interval = round
      at weeks notBefore ⊢
    have inside := List.idxOf_lt_length_of_mem hasPosition
    refine ⟨round * rule.positions.length + rule.positions.idxOf ((epoch + 3) % 7), ?_, ?_, rfl⟩
    · have rounds := Int.mul_nonneg notBefore (Int.natCast_nonneg rule.positions.length)
      omega
    · rw [dayAt_weekly isWeekly _ inside, List.getElem_idxOf, mondayOfWeek, weeks]
      omega
  · rintro ⟨step, notBefore, rfl, rfl⟩
    obtain ⟨round, index, inside, rfl⟩ := begins.exists_round isWeekly step
    have nodup : rule.positions.Nodup := positions.sorted.imp Int.ne_of_lt
    have bounds := positions.bounds _ (List.getElem_mem inside)
    rw [dayAt_weekly isWeekly _ inside] at *
    unfold mondayOfWeek at *
    have isPosition : ((rule.startWeek + round * rule.interval) * 7 - 3 +
        rule.positions[index] + 3) % 7 = rule.positions[index] := by
      omega
    have isWeek : weekIndexOfEpoch ((rule.startWeek + round * rule.interval) * 7 - 3 +
        rule.positions[index]) = rule.startWeek + round * rule.interval := by
      omega
    rw [isPosition, isWeek, add_sub_cancel_left, nodup.idxOf_getElem,
      Int.mul_tdiv_cancel _ (by omega)]
    exact ⟨List.getElem_mem inside, Int.mul_tmod_left _ _, rfl⟩

/-- In the first week, the steps that are not counted are those before the first day. -/
theorem Begins.le_dayAt_weekly
    (isWeekly : rule.kind = "weekly") {step : Int}
    (notBefore : 0 ≤ step) : first ≤ rule.dayAt step ↔ rule.skipped ≤ step := by
  obtain ⟨positions, -, isSkipped⟩ := begins.positions isWeekly
  have positive := begins.interval_pos
  have firstWeek := weekIndexOfEpoch_eq first
  obtain ⟨round, index, inside, rfl⟩ := begins.exists_round isWeekly step
  have bounds := positions.bounds _ (List.getElem_mem inside)
  have few : rule.skippedInFirstWeek ≤ rule.positions.length := by
    rw [isSkipped]
    exact List.countP_le_length
  have isFirst := @lt_countP_iff _ positions.sorted ((first + 3) % 7) _ inside
  rw [← isSkipped] at isFirst
  rw [dayAt_weekly isWeekly _ inside, skipped, if_pos isWeekly, begins.startWeek]
  unfold mondayOfWeek
  rcases Int.lt_trichotomy round 0 with before | rfl | after
  · have rounds := Int.mul_le_mul_of_nonneg_right (Int.add_one_le_of_lt before)
      (Int.natCast_nonneg rule.positions.length)
    rw [Int.add_mul, Int.one_mul] at rounds
    omega
  · rw [Int.zero_mul, Int.zero_mul]
    omega
  · have weeks := Int.mul_le_mul_of_nonneg_right (Int.add_one_le_of_lt after)
      (show 0 ≤ rule.interval by omega)
    have rounds := Int.mul_le_mul_of_nonneg_right (Int.add_one_le_of_lt after)
      (Int.natCast_nonneg rule.positions.length)
    omega

end

end

section

variable {rule} {first epoch ordinal : Int}

section

variable (begins : rule.Begins first)

include begins

theorem Begins.ordinal_daily
    (isDaily : rule.kind = "daily") (above : first ≤ epoch)
    (below : ∀ last, rule.end_ = some last -> epoch ≤ last) :
    rule.ordinalOfEpoch epoch = some ordinal ↔
      ∃ step, 0 ≤ step ∧ epoch = rule.dayAt step ∧ ordinal = step + 1 - rule.skipped := by
  have positive := begins.interval_pos
  have notWeekly : rule.kind ≠ "weekly" := by
    rw [isDaily]
    decide
  rw [ordinalOfEpoch_between begins.isValid begins.isStart above below, if_neg notWeekly,
    if_pos isDaily]
  dsimp only
  rw [Option.ite_none_right_eq_some, Option.some.injEq, exists_step_iff positive (by omega)]
  apply exists_congr
  intro step
  rw [dayAt, if_neg notWeekly, if_pos isDaily, begins.isStart, Option.getD_some, skipped,
    if_neg notWeekly]
  constructor
  · rintro ⟨whole, rfl⟩
    have notBefore : 0 ≤ step :=
      Int.nonneg_of_mul_nonneg_left (by omega) (show 0 < rule.interval by omega)
    omega
  · omega

/-- Days after the first one are in months that are not before the first month. -/
theorem Begins.behind_epoch
    (above : first ≤ epoch) :
    rule.startIndex ≤ (civilFromDays epoch).monthIndex ∧ 100 ≤ (civilFromDays epoch).year := by
  have behind := begins.behind
  have late := begins.late
  have order := civilFromDays_monthIndex_mono above
  have firstMonth := (civilFromDays_spec first).1.month_pos
  have lastMonth := (civilFromDays_spec epoch).1.month_le
  unfold Date.monthIndex at behind order ⊢
  omega

theorem Begins.ordinal_monthly
    (isMonthly : rule.kind = "monthly") (above : first ≤ epoch)
    (below : ∀ last, rule.end_ = some last -> epoch ≤ last) :
    rule.ordinalOfEpoch epoch = some ordinal ↔
      ∃ step, 0 ≤ step ∧ epoch = rule.dayAt step ∧ ordinal = step + 1 - rule.skipped := by
  have positive := begins.interval_pos
  have notWeekly : rule.kind ≠ "weekly" := by
    rw [isMonthly]
    decide
  have notDaily : rule.kind ≠ "daily" := by
    rw [isMonthly]
    decide
  obtain ⟨behind, late⟩ := begins.behind_epoch above
  have months : (civilFromDays epoch).year * 12 + (civilFromDays epoch).month -
      (rule.startYear * 12 + rule.startMonth) =
      (civilFromDays epoch).monthIndex - rule.startIndex := by
    rw [startIndex, Date.monthIndex]
    omega
  rw [ordinalOfEpoch_between begins.isValid begins.isStart above below, if_neg notWeekly,
    if_neg notDaily, if_pos isMonthly]
  dsimp only
  rw [months, Option.ite_none_left_eq_some, not_not, Option.ite_none_right_eq_some,
    Option.some.injEq, and_left_comm, exists_step_iff positive (by omega), ← exists_and_left]
  apply exists_congr
  intro step
  have isDay := @epochOfDate_eq_dayOfMonth_iff _ _ (rule.startIndex + step * rule.interval)
    (civilFromDays_spec epoch).1 begins.monthDay_pos late
  rw [epochOfDate_civilFromDays] at isDay
  rw [dayAt, if_neg notWeekly, if_neg notDaily, if_pos isMonthly, isDay, skipped,
    if_neg notWeekly]
  constructor
  · rintro ⟨date, whole, rfl⟩
    refine ⟨?_, ⟨by omega, date⟩, by omega⟩
    exact Int.nonneg_of_mul_nonneg_left (by omega) (show 0 < rule.interval by omega)
  · rintro ⟨-, ⟨index, date⟩, rfl⟩
    exact ⟨date, by omega, by omega⟩

theorem Begins.ordinal_yearly
    (notWeekly : rule.kind ≠ "weekly") (notDaily : rule.kind ≠ "daily")
    (notMonthly : rule.kind ≠ "monthly") (above : first ≤ epoch)
    (below : ∀ last, rule.end_ = some last -> epoch ≤ last) :
    rule.ordinalOfEpoch epoch = some ordinal ↔
      ∃ step, 0 ≤ step ∧ epoch = rule.dayAt step ∧ ordinal = step + 1 - rule.skipped := by
  have positive := begins.interval_pos
  obtain ⟨behind, late⟩ := begins.behind_epoch above
  have isDate := (civilFromDays_spec epoch).1
  have dayLow := isDate.month_pos
  have dayHigh := isDate.month_le
  have monthLow := begins.month_pos
  have monthHigh := begins.month_le
  have isIndex : rule.startIndex = 12 * rule.startYear + rule.startMonth - 1 := rfl
  have dayIndex : (civilFromDays epoch).monthIndex =
      12 * (civilFromDays epoch).year + (civilFromDays epoch).month - 1 := rfl
  have yearsAhead : rule.startYear ≤ (civilFromDays epoch).year := by omega
  rw [ordinalOfEpoch_between begins.isValid begins.isStart above below, if_neg notWeekly,
    if_neg notDaily, if_neg notMonthly]
  dsimp only
  rw [Option.ite_none_left_eq_some, not_or, not_not, not_not, Option.ite_none_right_eq_some,
    Option.some.injEq, skipped, if_neg notWeekly]
  have counted := @exists_step_iff ordinal _ _ positive (Int.sub_nonneg_of_le yearsAhead)
  have isDay (step : Int) := @epochOfDate_eq_dayOfMonth_iff _ _
    (rule.startIndex + 12 * (step * rule.interval)) isDate begins.date_pos late
  have isDayAt (step : Int) : rule.dayAt step =
      dayOfMonth rule.startDate (rule.startIndex + 12 * (step * rule.interval)) := by
    rw [dayAt, if_neg notWeekly, if_neg notDaily, if_neg notMonthly]
  rw [epochOfDate_civilFromDays] at isDay
  constructor
  · rintro ⟨⟨whole, month⟩, date, count⟩
    obtain ⟨step, distance, rfl⟩ := counted.1 ⟨whole, count⟩
    refine ⟨step, ?_, ?_, by omega⟩
    · exact Int.nonneg_of_mul_nonneg_left (by omega) (show 0 < rule.interval by omega)
    · rw [isDayAt, isDay]
      exact ⟨by omega, date⟩
  · rintro ⟨step, -, onDay, rfl⟩
    rw [isDayAt, isDay] at onDay
    obtain ⟨index, date⟩ := onDay
    obtain ⟨whole, count⟩ := counted.2 ⟨step, by omega, by omega⟩
    exact ⟨⟨whole, by omega⟩, date, by omega⟩

/-- Later steps have later days. -/
theorem Begins.dayAt_lt {step next : Int}
    (earlier : step < next) : rule.dayAt step < rule.dayAt next := by
  have positive := begins.interval_pos
  have steps := Int.mul_lt_mul_of_pos_right earlier (show 0 < rule.interval by omega)
  by_cases isWeekly : rule.kind = "weekly"
  · exact begins.dayAt_lt_weekly isWeekly earlier
  by_cases isDaily : rule.kind = "daily"
  · rw [dayAt, dayAt, if_neg isWeekly, if_pos isDaily, if_neg isWeekly, if_pos isDaily]
    omega
  by_cases isMonthly : rule.kind = "monthly"
  · rw [dayAt, dayAt, if_neg isWeekly, if_neg isDaily, if_pos isMonthly, if_neg isWeekly,
      if_neg isDaily, if_pos isMonthly]
    exact dayOfMonth_lt begins.monthDay_pos (by omega)
  · rw [dayAt, dayAt, if_neg isWeekly, if_neg isDaily, if_neg isMonthly, if_neg isWeekly,
      if_neg isDaily, if_neg isMonthly]
    exact dayOfMonth_lt begins.date_pos (by omega)

theorem Begins.strictMono_dayAt : StrictMono rule.dayAt :=
  fun _ _ => begins.dayAt_lt

/-- A day has an ordinal when it is the day of a step. -/
theorem Begins.ordinalOfEpoch_eq_some_iff
    (above : first ≤ epoch) (below : ∀ last, rule.end_ = some last -> epoch ≤ last) :
    rule.ordinalOfEpoch epoch = some ordinal ↔
      ∃ step, 0 ≤ step ∧ epoch = rule.dayAt step ∧ ordinal = step + 1 - rule.skipped := by
  by_cases isWeekly : rule.kind = "weekly"
  · exact begins.ordinal_weekly isWeekly above below
  by_cases isDaily : rule.kind = "daily"
  · exact begins.ordinal_daily isDaily above below
  by_cases isMonthly : rule.kind = "monthly"
  · exact begins.ordinal_monthly isMonthly above below
  · exact begins.ordinal_yearly isWeekly isDaily isMonthly above below

end

end

end CompiledRepeat

end Parvane.Repeats
