import Parvane.Repeats.Expansion

/-!
# Steps of months and of years

Months and years are stepped through by the number of a month.  In every month the day is the
wanted one, or the last one of a month that is too short.
-/

namespace Parvane.Repeats

open Calendar Sweeping

/-- The number of the wanted day of a month. -/
def dayOfMonth (wanted index : Int) : Int :=
  monthStart index + min wanted (monthLength (index / 12) (index % 12 + 1)) - 1 - 719468

section

variable {day : Date} {epoch wanted first second : Int}

theorem epochOf_clamped {year month : Int}
    (low : 1 ≤ month) (high : month ≤ 12) (late : 100 ≤ year) (wanted : Int) :
    epochOf year month (min wanted (daysInMonth year month)) =
      dayOfMonth wanted (12 * year + month - 1) := by
  have sameYear : (12 * year + month - 1) / 12 = year := by omega
  have sameMonth : (12 * year + month - 1) % 12 + 1 = month := by omega
  rw [epochOf_eq late, daysInMonth_eq low high late, dayOfMonth, sameYear, sameMonth]

theorem dayOfMonth_lt
    (positive : 1 ≤ wanted)
    (before : first < second) : dayOfMonth wanted first < dayOfMonth wanted second := by
  have next := strictMono_monthStart.monotone (Int.add_one_le_of_lt before)
  have some_day := monthLength_pos (second / 12) (second % 12 + 1)
  rw [monthStart_succ] at next
  unfold dayOfMonth
  omega

/-- A day is the wanted one of a month when it is in that month and has the wanted date. -/
theorem epochOfDate_eq_dayOfMonth_iff
    (isReal : day.IsReal) (positive : 1 ≤ wanted) (late : 100 ≤ day.year) :
    epochOfDate day = dayOfMonth wanted first ↔
      day.monthIndex = first ∧ day.date = min wanted (daysInMonth day.year day.month) := by
  obtain ⟨low, high, datePos, dateLe⟩ := isReal
  have sameYear : day.monthIndex / 12 = day.year := by
    unfold Date.monthIndex
    omega
  have sameMonth : day.monthIndex % 12 + 1 = day.month := by
    unfold Date.monthIndex
    omega
  rw [daysInMonth_eq low high late]
  constructor
  · intro same
    have isIn := Date.IsReal.in_month ⟨low, high, datePos, dateLe⟩
    have some_day := monthLength_pos (first / 12) (first % 12 + 1)
    have number : day.number = epochOfDate day + 719468 := by
      unfold epochOfDate
      omega
    have inMonth : day.monthIndex = first := by
      apply month_unique isIn.1 isIn.2
      · rw [number, same, dayOfMonth]
        omega
      · rw [number, same, dayOfMonth, monthStart_succ]
        omega
    refine ⟨inMonth, ?_⟩
    rw [epochOfDate, Date.number_eq low high, dayOfMonth, ← inMonth, sameYear, sameMonth] at same
    omega
  · rintro ⟨rfl, isDate⟩
    rw [epochOfDate, Date.number_eq low high, dayOfMonth, sameYear, sameMonth, isDate]

/-- Later days are not in earlier months. -/
theorem monthIndex_le
    (isReal : day.IsReal)
    (le : epochOfDate day ≤ epoch) : day.monthIndex ≤ (civilFromDays epoch).monthIndex := by
  obtain ⟨otherReal, number⟩ := civilFromDays_spec epoch
  have order := otherReal.number_lt_iff isReal
  rw [epochOfDate] at le
  omega

theorem civilFromDays_monthIndex_mono
    (le : first ≤ second) :
    (civilFromDays first).monthIndex ≤ (civilFromDays second).monthIndex := by
  apply monthIndex_le (civilFromDays_spec first).1
  rwa [epochOfDate_civilFromDays]

end

namespace CompiledRepeat

variable {rule : CompiledRepeat} {start : Date} {lo hi : Int}

theorem monthlyBlock_eq (rule : CompiledRepeat) (lo : Int) (round : Nat) :
    rule.monthlyBlock lo round =
      let startIndex := rule.startYear * 12 + rule.startMonth - 1
      let skip := max 0
        (ceilDiv ((civilFromDays lo).year * 12 + (civilFromDays lo).month - 1 - startIndex)
          rule.interval)
      let index := startIndex + (skip + round) * rule.interval
      let year := index / 12
      let month := index % 12 + 1
      [(epochOf year month (min rule.monthDay (daysInMonth year month)), skip + round + 1)] := by
  have rest (index : Int) : index - index / 12 * 12 = index % 12 := by omega
  simp only [monthlyBlock, floorDiv_eq _ (show (0 : Int) < 12 by decide), rest]

theorem Started.steps_monthly
    (started : rule.Started start) (isMonthly : rule.kind = "monthly")
    (ahead : epochOfDate start ≤ lo) (ends : ∀ last, rule.end_ = some last -> hi ≤ last) :
    rule.Steps (epochOfDate start) lo hi := by
  have positive := started.interval_pos
  have notWeekly : rule.kind ≠ "weekly" := by
    rw [isMonthly]
    decide
  have notDaily : rule.kind ≠ "daily" := by
    rw [isMonthly]
    decide
  have late := started.isDay.year_low
  have monthLow := started.isDay.isReal.month_pos
  have onLine : OnLine
      (fun step => dayOfMonth rule.monthDay (start.monthIndex + step * rule.interval))
      (max 0 (ceilDiv ((civilFromDays lo).monthIndex - start.monthIndex) rule.interval))
      (rule.block (epochOfDate start) lo) := by
    constructor
    · intro first second _ less
      have steps := Int.mul_lt_mul_of_pos_right less (show 0 < rule.interval by omega)
      exact dayOfMonth_lt started.monthDay_pos (by omega)
    · intro round
      have startIndex : rule.startYear * 12 + rule.startMonth - 1 = start.monthIndex := by
        rw [started.startYear, started.startMonth, Date.monthIndex]
        omega
      have loIndex : (civilFromDays lo).year * 12 + (civilFromDays lo).month - 1 =
          (civilFromDays lo).monthIndex := by
        rw [Date.monthIndex]
        omega
      rw [block, if_neg notWeekly, if_neg notDaily, if_pos isMonthly, monthlyBlock_eq]
      dsimp only
      rw [startIndex, loIndex]
      generalize isSkip :
        max 0 (ceilDiv ((civilFromDays lo).monthIndex - start.monthIndex) rule.interval) = skip
      have notBefore : 0 ≤ (skip + round) * rule.interval :=
        Int.mul_nonneg (by omega) (by omega)
      have far : 12000 ≤ start.monthIndex + (skip + round) * rule.interval := by
        unfold Date.monthIndex
        omega
      generalize start.monthIndex + (skip + round) * rule.interval = index at far ⊢
      rw [epochOf_clamped (by omega) (by omega) (by omega),
        show 12 * (index / 12) + (index % 12 + 1) - 1 = index by omega]
  refine onLine.steps notWeekly fun epoch ordinal above below => ?_
  have isDate := (civilFromDays_spec epoch).1
  have behind := monthIndex_le started.isDay.isReal (Int.le_trans ahead above)
  have loBehind := civilFromDays_monthIndex_mono above
  have lateDay : 100 ≤ (civilFromDays epoch).year := by
    have high := isDate.month_le
    unfold Date.monthIndex at behind
    omega
  have months : (civilFromDays epoch).year * 12 + (civilFromDays epoch).month -
      (rule.startYear * 12 + rule.startMonth) =
      (civilFromDays epoch).monthIndex - start.monthIndex := by
    rw [started.startYear, started.startMonth, Date.monthIndex, Date.monthIndex]
    omega
  rw [ordinalOfEpoch_between started.isValid started.isStart (by omega) fun last isLast =>
    Int.le_trans below (ends last isLast), if_neg notWeekly, if_neg notDaily, if_pos isMonthly]
  dsimp only
  rw [months, Option.ite_none_left_eq_some, not_not, Option.ite_none_right_eq_some,
    Option.some.injEq, and_left_comm, exists_step_iff positive (by omega), ← exists_and_left]
  apply exists_congr
  intro step
  have isDay := @epochOfDate_eq_dayOfMonth_iff _ _ (start.monthIndex + step * rule.interval)
    isDate started.monthDay_pos lateDay
  rw [epochOfDate_civilFromDays] at isDay
  rw [isDay, Int.max_le, ceilDiv_le_iff (by omega)]
  constructor
  · rintro ⟨date, whole, rfl⟩
    refine ⟨⟨?_, by omega⟩, ⟨by omega, date⟩, rfl⟩
    exact Int.nonneg_of_mul_nonneg_left (by omega) (show 0 < rule.interval by omega)
  · rintro ⟨-, ⟨index, date⟩, rfl⟩
    exact ⟨date, by omega, rfl⟩

theorem Started.steps_yearly
    (started : rule.Started start) (notWeekly : rule.kind ≠ "weekly")
    (notDaily : rule.kind ≠ "daily") (notMonthly : rule.kind ≠ "monthly")
    (ahead : epochOfDate start ≤ lo) (ends : ∀ last, rule.end_ = some last -> hi ≤ last) :
    rule.Steps (epochOfDate start) lo hi := by
  have positive := started.interval_pos
  have late := started.isDay.year_low
  have monthLow := started.isDay.isReal.month_pos
  have monthHigh := started.isDay.isReal.month_le
  have datePos := started.isDay.isReal.date_pos
  have startIndex : start.monthIndex = 12 * start.year + start.month - 1 := rfl
  have onLine : OnLine
      (fun step => dayOfMonth start.date (start.monthIndex + 12 * (step * rule.interval)))
      (max 0 (ceilDiv ((civilFromDays lo).year - start.year) rule.interval))
      (rule.block (epochOfDate start) lo) := by
    constructor
    · intro first second _ less
      have steps := Int.mul_lt_mul_of_pos_right less (show 0 < rule.interval by omega)
      exact dayOfMonth_lt datePos (by omega)
    · intro round
      rw [block, if_neg notWeekly, if_neg notDaily, if_neg notMonthly, yearlyBlock,
        started.startYear, started.startMonth, started.startDate]
      generalize isSkip :
        max 0 (ceilDiv ((civilFromDays lo).year - start.year) rule.interval) = skip
      have notBefore : 0 ≤ (skip + round) * rule.interval :=
        Int.mul_nonneg (by omega) (by omega)
      rw [epochOf_clamped monthLow monthHigh (by omega), startIndex]
      congr 3
      omega
  refine onLine.steps notWeekly fun epoch ordinal above below => ?_
  have isDate := (civilFromDays_spec epoch).1
  have behind := monthIndex_le started.isDay.isReal (Int.le_trans ahead above)
  have loBehind := civilFromDays_monthIndex_mono above
  have loDate := (civilFromDays_spec lo).1
  have dayIndex : (civilFromDays epoch).monthIndex =
      12 * (civilFromDays epoch).year + (civilFromDays epoch).month - 1 := rfl
  have loIndex : (civilFromDays lo).monthIndex =
      12 * (civilFromDays lo).year + (civilFromDays lo).month - 1 := rfl
  have dayLow := isDate.month_pos
  have dayHigh := isDate.month_le
  have yearsAhead : start.year ≤ (civilFromDays epoch).year := by omega
  have loYears : (civilFromDays lo).year ≤ (civilFromDays epoch).year := by
    have loLow := loDate.month_pos
    omega
  rw [ordinalOfEpoch_between started.isValid started.isStart (by omega) fun last isLast =>
    Int.le_trans below (ends last isLast), if_neg notWeekly, if_neg notDaily, if_neg notMonthly,
    started.startYear, started.startMonth, started.startDate]
  dsimp only
  rw [Option.ite_none_left_eq_some, not_or, not_not, not_not, Option.ite_none_right_eq_some,
    Option.some.injEq]
  have counted := @exists_step_iff ordinal _ _ positive (Int.sub_nonneg_of_le yearsAhead)
  have isDay (step : Int) := @epochOfDate_eq_dayOfMonth_iff _ _
    (start.monthIndex + 12 * (step * rule.interval)) isDate datePos (by omega)
  rw [epochOfDate_civilFromDays] at isDay
  constructor
  · rintro ⟨⟨whole, month⟩, date, count⟩
    obtain ⟨step, distance, rfl⟩ := counted.1 ⟨whole, count⟩
    refine ⟨step, ?_, (isDay step).2 ⟨by omega, date⟩, rfl⟩
    rw [Int.max_le, ceilDiv_le_iff (by omega)]
    refine ⟨?_, by omega⟩
    exact Int.nonneg_of_mul_nonneg_left (by omega) (show 0 < rule.interval by omega)
  · rintro ⟨step, -, onDay, rfl⟩
    obtain ⟨index, date⟩ := (isDay step).1 onDay
    obtain ⟨whole, count⟩ := counted.2 ⟨step, by omega, rfl⟩
    exact ⟨⟨whole, by omega⟩, date, count⟩

end CompiledRepeat

end Parvane.Repeats
