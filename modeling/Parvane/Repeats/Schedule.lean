import Parvane.Repeats.Counting

/-!
# Days of four-digit years

For days with a text, the order of the texts is that of the days, and a rule occurs on the days
of its steps.
-/

namespace Parvane.Repeats

open Calendar

theorem isDay_iff {day : Date} :
    IsDay day ↔
      (1 ≤ day.month ∧ day.month ≤ 12 ∧ 1 ≤ day.date ∧ day.date ≤ monthLength day.year day.month) ∧
        1000 ≤ day.year ∧ day.year ≤ 9999 := by
  constructor
  · rintro ⟨⟨monthPos, monthLe, datePos, dateLe⟩, low, high⟩
    exact ⟨⟨monthPos, monthLe, datePos, dateLe⟩, low, high⟩
  · rintro ⟨⟨monthPos, monthLe, datePos, dateLe⟩, low, high⟩
    exact ⟨⟨monthPos, monthLe, datePos, dateLe⟩, low, high⟩

instance (day : Date) : Decidable (IsDay day) :=
  decidable_of_iff _ isDay_iff.symm

section

variable {day other first last : String} {epoch : Int}

section

variable (isDay : RealDay day)

include isDay

theorem RealDay.lt_iff (isOther : RealDay other) :
    day < other ↔ epochDays day < epochDays other := by
  obtain ⟨date, isDate, rfl⟩ := isDay
  obtain ⟨otherDate, isOtherDate, rfl⟩ := isOther
  rw [keyOf_lt_iff isDate isOtherDate, epochDays_keyOf isDate, epochDays_keyOf isOtherDate]

theorem RealDay.le_iff (isOther : RealDay other) :
    day ≤ other ↔ epochDays day ≤ epochDays other := by
  rw [← String.not_lt, isOther.lt_iff isDay, Int.not_lt]

theorem RealDay.keyOfEpoch_epochDays : keyOfEpoch (epochDays day) = day := by
  obtain ⟨date, isDate, rfl⟩ := isDay
  rw [epochDays_keyOf isDate, keyOfEpoch, civilFromDays_epochOfDate isDate.isReal]

theorem RealDay.injective
    (isOther : RealDay other)
    (same : epochDays day = epochDays other) : day = other := by
  rw [← isDay.keyOfEpoch_epochDays, same, isOther.keyOfEpoch_epochDays]

theorem RealDay.isReal : (parts day).IsReal := by
  obtain ⟨date, isDate, rfl⟩ := isDay
  rw [parts_keyOf isDate]
  exact isDate.isReal

theorem RealDay.year_low : 1000 ≤ (parts day).year := by
  obtain ⟨date, isDate, rfl⟩ := isDay
  rw [parts_keyOf isDate]
  exact isDate.year_low

theorem RealDay.civilFromDays_epochDays : civilFromDays (epochDays day) = parts day := by
  obtain ⟨date, isDate, rfl⟩ := isDay
  rw [epochDays_keyOf isDate, parts_keyOf isDate, civilFromDays_epochOfDate isDate.isReal]

end

/-- Between two such days there are only such days. -/
theorem RealDay.between
    (isFirst : RealDay first) (isLast : RealDay last) (above : epochDays first ≤ epoch)
    (below : epoch ≤ epochDays last) :
    RealDay (keyOfEpoch epoch) ∧ epochDays (keyOfEpoch epoch) = epoch := by
  obtain ⟨date, isDate, rfl⟩ := isFirst
  obtain ⟨otherDate, isOtherDate, rfl⟩ := isLast
  rw [epochDays_keyOf isDate] at above
  rw [epochDays_keyOf isOtherDate] at below
  have isDay := isDay_civilFromDays isDate isOtherDate above below
  refine ⟨⟨_, isDay, rfl⟩, ?_⟩
  rw [keyOfEpoch, epochDays_keyOf isDay, epochOfDate_civilFromDays]

theorem RealDay.occursOn_eq (rule : Repeat) (isDay : RealDay day) :
    occursOn rule day = (compileRepeat rule).occursOnEpoch (epochDays day) := by
  obtain ⟨date, isDate, rfl⟩ := isDay
  rw [occursOn_keyOf rule isDate, epochDays_keyOf isDate]

end

/-! ## Steps of a rule -/

/-- A rule has its days at the steps from the opening one on. -/
structure Scheduled (rule : Repeat) (opening : Int) : Prop where
  begins : (compileRepeat rule).Begins (epochDays rule.startDay)
  opens : (compileRepeat rule).Opens (epochDays rule.startDay) opening

section

variable {rule : Repeat} {opening epoch step : Int} {day : String}

theorem exists_scheduled
    (valid : validateRepeat rule = none)
    (isStart : RealDay rule.startDay) : ∃ opening, Scheduled rule opening := by
  have begins := begins_compileRepeat valid isStart.isReal
  obtain ⟨opening, opens⟩ := begins.exists_opens
  exact ⟨opening, begins, opens⟩

theorem Scheduled.occursOnEpoch_iff (scheduled : Scheduled rule opening) :
    (compileRepeat rule).occursOnEpoch epoch = true ↔
      (∀ last, (compileRepeat rule).end_ = some last -> epoch ≤ last) ∧
        ∃ step, opening ≤ step ∧ epoch = (compileRepeat rule).dayAt step ∧
          ∀ count, (compileRepeat rule).count = some count ->
            step + 1 - (compileRepeat rule).skipped ≤ count :=
  scheduled.begins.occursOnEpoch_iff scheduled.opens

/-- Every step before an occurrence, from the opening one on, is an occurrence. -/
theorem Scheduled.occursOnEpoch_of_lt
    (scheduled : Scheduled rule opening)
    (occurs : (compileRepeat rule).occursOnEpoch ((compileRepeat rule).dayAt step) = true)
    {earlier : Int} (opened : opening ≤ earlier) (le : earlier ≤ step) :
    (compileRepeat rule).occursOnEpoch ((compileRepeat rule).dayAt earlier) = true := by
  obtain ⟨ends, other, -, same, counted⟩ := scheduled.occursOnEpoch_iff.1 occurs
  have isStep := scheduled.begins.strictMono_dayAt.injective same
  have before := scheduled.begins.strictMono_dayAt.monotone le
  refine scheduled.occursOnEpoch_iff.2 ⟨fun last isEnd => ?_, earlier, opened, rfl, ?_⟩
  · exact Int.le_trans before (ends last isEnd)
  · intro count isCount
    have inCount := counted count isCount
    omega

theorem lt_dayOfMonth {wanted index : Int}
    (positive : 1 ≤ wanted)
    (before : (civilFromDays epoch).monthIndex < index) : epoch < dayOfMonth wanted index := by
  obtain ⟨isReal, number⟩ := civilFromDays_spec epoch
  have isIn := isReal.in_month.2
  have start := strictMono_monthStart.monotone (Int.add_one_le_of_lt before)
  have some_day := monthLength_pos (index / 12) (index % 12 + 1)
  unfold dayOfMonth
  omega

/-- At most the first step is before the first day, when it is numbered. -/
theorem Scheduled.opening_le
    (scheduled : Scheduled rule opening) (valid : validateRepeat rule = none)
    (isStart : RealDay rule.startDay) : opening ≤ (compileRepeat rule).skipped + 1 := by
  have positive := scheduled.begins.interval_pos
  by_cases fromStart : CountsFromStart rule
  · rw [(opening_eq_skipped_iff valid isStart.isReal scheduled.opens).2 fromStart]
    omega
  · unfold CountsFromStart at fromStart
    obtain ⟨notWeekly, notDaily, notFirst⟩ : rule.kind ≠ "weekly" ∧ rule.kind ≠ "daily" ∧ _ := by
      simpa only [not_or] using fromStart
    have isMonthly : rule.kind = "monthly" := by
      by_contra notMonthly
      have late := isStart.year_low
      exact notFirst ⟨by omega, fun isMonthly => absurd isMonthly notMonthly⟩
    have isIndex : (civilFromDays (epochDays rule.startDay)).monthIndex =
        (compileRepeat rule).startIndex := by
      rw [isStart.civilFromDays_epochDays, CompiledRepeat.startIndex,
        compileRepeat_eq (isEmpty_of_isReal isStart.isReal), Date.monthIndex]
    have next : epochDays rule.startDay ≤ (compileRepeat rule).dayAt 1 := by
      rw [CompiledRepeat.dayAt, kind_compileRepeat, if_neg notWeekly, if_neg notDaily, if_pos isMonthly]
      exact Int.le_of_lt (lt_dayOfMonth scheduled.begins.monthDay_pos (by omega))
    rw [CompiledRepeat.skipped, kind_compileRepeat, if_neg notWeekly]
    exact (scheduled.opens.le_dayAt_iff 1 (by decide)).1 next

end

end Parvane.Repeats
