import Parvane.Repeats.Schedule

/-!
# Rules that begin again

A rule that begins again on one of its days goes on as before, unless that day is the last one of
a month that is too short for the date of the first day.
-/

namespace Parvane.Repeats

open Calendar

/-- The rule with another first day, without end and count. -/
def restartedAt (rule : Repeat) (day : String) : Repeat :=
  { rule with startDay := day, endDay := none, count := none }

theorem kind_restartedAt (rule : Repeat) (day : String) :
    (compileRepeat (restartedAt rule day)).kind = rule.kind := rfl

theorem interval_restartedAt (rule : Repeat) (day : String) :
    (compileRepeat (restartedAt rule day)).interval = rule.interval := rfl

/-- The dates of the rule do not come from its first day, or a day has the date of that. -/
def KeepsDate (rule : Repeat) (day : String) : Prop :=
  rule.kind = "weekly" ∨ rule.kind = "daily" ∨ (rule.kind = "monthly" ∧ rule.monthDay ≠ none) ∨
    (parts day).date = (parts rule.startDay).date

section

variable {rule : Repeat} {day : String} {opening step : Int}

theorem validateRepeat_restartedAt
    (valid : validateRepeat rule = none)
    (isDay : RealDay day) : validateRepeat (restartedAt rule day) = none := by
  have notEmpty := isEmpty_of_isReal isDay.isReal
  have isKey : isDayKey day = true := by
    obtain ⟨date, isDate, rfl⟩ := isDay
    exact isDayKey_keyOf isDate
  unfold validateRepeat at valid ⊢
  dsimp only at valid ⊢
  simp only [check_eq_none_iff] at valid ⊢
  obtain ⟨interval, weekdays, monthDay, -⟩ := valid
  refine ⟨interval, weekdays, monthDay, ?_⟩
  simp [restartedAt, notEmpty, isKey, truthy]

/-- The wanted day of the month of a day of the rule is that day. -/
theorem dayAt_of_monthIndex {wanted index : Int}
    (isDay : RealDay day) (positive : 1 ≤ wanted)
    (isStep : epochDays day = dayOfMonth wanted index) :
    (parts day).monthIndex = index ∧ (parts day).date ≤ wanted := by
  have late := isDay.year_low
  have isEpoch : epochDays day = epochOfDate (parts day) :=
    epochOf_date isDay.isReal.month_pos isDay.isReal.month_le (by omega)
  rw [isEpoch, epochOfDate_eq_dayOfMonth_iff isDay.isReal positive (by omega)] at isStep
  obtain ⟨isIndex, isDate⟩ := isStep
  exact ⟨isIndex, by omega⟩

theorem monthIndex_of_step
    (scheduled : Scheduled rule opening) (isDay : RealDay day)
    (isStep : epochDays day = (compileRepeat rule).dayAt step)
    (notWeekly : rule.kind ≠ "weekly") (notDaily : rule.kind ≠ "daily") :
    if rule.kind = "monthly" then
      (parts day).monthIndex = (compileRepeat rule).startIndex + step * rule.interval ∧
        (parts day).date ≤ (compileRepeat rule).monthDay
    else
      (parts day).monthIndex = (compileRepeat rule).startIndex + 12 * (step * rule.interval) := by
  rw [CompiledRepeat.dayAt, kind_compileRepeat, if_neg notWeekly, if_neg notDaily] at isStep
  split
  case isTrue isMonthly =>
    rw [if_pos isMonthly] at isStep
    exact dayAt_of_monthIndex isDay scheduled.begins.monthDay_pos isStep
  case isFalse notMonthly =>
    rw [if_neg notMonthly] at isStep
    exact (dayAt_of_monthIndex isDay scheduled.begins.date_pos isStep).1

theorem offset_weekly
    (scheduled : Scheduled rule opening) (isDay : RealDay day)
    (isStep : epochDays day = (compileRepeat rule).dayAt step)
    (isWeekly : rule.kind = "weekly") :
    ∃ offset ≤ step, ∀ later,
      (compileRepeat (restartedAt rule day)).dayAt later =
        (compileRepeat rule).dayAt (offset + later) := by
  have restarted := @compileRepeat_eq (restartedAt rule day) (isEmpty_of_isReal isDay.isReal)
  obtain ⟨round, index, inside, rfl⟩ := scheduled.begins.exists_round isWeekly step
  obtain ⟨positions, -, -⟩ := scheduled.begins.positions isWeekly
  have bounds := positions.bounds _ (List.getElem_mem inside)
  rw [CompiledRepeat.dayAt_weekly isWeekly _ inside, mondayOfWeek] at isStep
  have isWeek : (compileRepeat (restartedAt rule day)).startWeek =
      (compileRepeat rule).startWeek + round * rule.interval := by
    have week := weekIndexOfEpoch_eq (epochDays day)
    have shown : (compileRepeat (restartedAt rule day)).startWeek =
        weekIndexOfEpoch (epochDays day) := congrArg CompiledRepeat.startWeek restarted
    rw [interval_compileRepeat] at isStep
    omega
  refine ⟨round * (compileRepeat rule).positions.length, by omega, fun later => ?_⟩
  obtain ⟨other, place, placed, rfl⟩ := scheduled.begins.exists_round isWeekly later
  have sum : round * ((compileRepeat rule).positions.length : Int) +
      (other * (compileRepeat rule).positions.length + place) =
      (round + other) * (compileRepeat rule).positions.length + place := by
    rw [Int.add_mul, Int.add_assoc]
  have shown := @CompiledRepeat.dayAt_weekly (compileRepeat (restartedAt rule day)) isWeekly other
    place placed
  rw [isWeek] at shown
  rw [sum, CompiledRepeat.dayAt_weekly isWeekly _ placed, Int.add_mul, ← Int.add_assoc]
  exact shown

theorem offset_daily
    (isDay : RealDay day)
    (isStep : epochDays day = (compileRepeat rule).dayAt step)
    (isDaily : rule.kind = "daily") (later : Int) :
    (compileRepeat (restartedAt rule day)).dayAt later =
      (compileRepeat rule).dayAt (step + later) := by
  have restarted := @compileRepeat_eq (restartedAt rule day) (isEmpty_of_isReal isDay.isReal)
  have first : (compileRepeat (restartedAt rule day)).start = some (epochDays day) :=
    congrArg CompiledRepeat.start restarted
  have notWeekly : rule.kind ≠ "weekly" := by
    rw [isDaily]
    decide
  rw [CompiledRepeat.dayAt, kind_compileRepeat, if_neg notWeekly, if_pos isDaily,
    interval_compileRepeat] at isStep
  rw [CompiledRepeat.dayAt, CompiledRepeat.dayAt, kind_restartedAt, kind_compileRepeat,
    if_neg notWeekly, if_pos isDaily, if_neg notWeekly, if_pos isDaily, first, Option.getD_some,
    isStep, interval_restartedAt, interval_compileRepeat,
    Int.add_mul, Int.add_assoc]

section

variable (valid : validateRepeat rule = none)

include valid

theorem offset_byMonth
    (scheduled : Scheduled rule opening)
    (isStart : RealDay rule.startDay) (isDay : RealDay day)
    (isStep : epochDays day = (compileRepeat rule).dayAt step)
    (notWeekly : rule.kind ≠ "weekly") (notDaily : rule.kind ≠ "daily")
    (keepsDate : KeepsDate rule day) (later : Int) :
    (compileRepeat (restartedAt rule day)).dayAt later =
      (compileRepeat rule).dayAt (step + later) := by
  have compiled := compileRepeat_eq (isEmpty_of_isReal isStart.isReal)
  have restarted := @compileRepeat_eq (restartedAt rule day) (isEmpty_of_isReal isDay.isReal)
  have isIndex : (compileRepeat (restartedAt rule day)).startIndex = (parts day).monthIndex := by
    rw [CompiledRepeat.startIndex, restarted]
    rfl
  have index := monthIndex_of_step scheduled isDay isStep notWeekly notDaily
  rw [CompiledRepeat.dayAt, CompiledRepeat.dayAt, kind_restartedAt, kind_compileRepeat,
    if_neg notWeekly, if_neg notDaily, if_neg notWeekly, if_neg notDaily, isIndex,
    interval_restartedAt, interval_compileRepeat,
    Int.add_mul]
  by_cases isMonthly : rule.kind = "monthly"
  · rw [if_pos isMonthly] at index
    have sameDate : (compileRepeat (restartedAt rule day)).monthDay =
        (compileRepeat rule).monthDay := by
      rw [compiled, restarted]
      rcases keepsDate with isWeekly | isDaily | ⟨-, given⟩ | sameDate
      · exact absurd isWeekly notWeekly
      · exact absurd isDaily notDaily
      · obtain ⟨wanted, isWanted⟩ := Option.ne_none_iff_exists'.1 given
        have positive := (accepted_of_validateRepeat valid).monthDay wanted isWanted
        have sameDay : (restartedAt rule day).monthDay = some wanted := isWanted
        rw [sameDay, isWanted, filter_ne_zero positive]
        rfl
      · exact congrArg (Option.getD _) sameDate
    rw [if_pos isMonthly, if_pos isMonthly, index.1, sameDate, Int.add_assoc]
  · rw [if_neg isMonthly] at index
    have sameDate : (compileRepeat (restartedAt rule day)).startDate =
        (compileRepeat rule).startDate := by
      rw [compiled, restarted]
      rcases keepsDate with isWeekly | isDaily | ⟨monthly, -⟩ | sameDate
      · exact absurd isWeekly notWeekly
      · exact absurd isDaily notDaily
      · exact absurd monthly isMonthly
      · exact sameDate
    rw [if_neg isMonthly, if_neg isMonthly, index, sameDate, Int.mul_add, Int.add_assoc]

/-- The steps of the rule that begins again are those of the rule from an earlier step on. -/
theorem exists_offset
    (scheduled : Scheduled rule opening)
    (isStart : RealDay rule.startDay) (isDay : RealDay day)
    (isStep : epochDays day = (compileRepeat rule).dayAt step)
    (keepsDate : KeepsDate rule day) :
    ∃ offset ≤ step, ∀ later,
      (compileRepeat (restartedAt rule day)).dayAt later =
        (compileRepeat rule).dayAt (offset + later) := by
  by_cases isWeekly : rule.kind = "weekly"
  · exact offset_weekly scheduled isDay isStep isWeekly
  by_cases isDaily : rule.kind = "daily"
  · exact ⟨step, Int.le_refl _, offset_daily isDay isStep isDaily⟩
  · exact ⟨step, Int.le_refl _,
      offset_byMonth valid scheduled isStart isDay isStep isWeekly isDaily keepsDate⟩

/-- The rule that begins again counts from the day on. -/
theorem countsFromStart_restartedAt
    (scheduled : Scheduled rule opening)
    (isStart : RealDay rule.startDay) (isDay : RealDay day)
    (isStep : epochDays day = (compileRepeat rule).dayAt step) :
    CountsFromStart (restartedAt rule day) := by
  by_cases isWeekly : rule.kind = "weekly"
  · exact .inl isWeekly
  by_cases isDaily : rule.kind = "daily"
  · exact .inr (.inl isDaily)
  have late := isDay.year_low
  refine .inr (.inr ⟨Int.le_trans (by decide) late, fun isMonthly wanted given => ?_⟩)
  have isKind : rule.kind = "monthly" := isMonthly
  have isGiven : rule.monthDay = some wanted := given
  have index := monthIndex_of_step scheduled isDay isStep isWeekly isDaily
  rw [if_pos isKind, compileRepeat_eq (isEmpty_of_isReal isStart.isReal), isGiven,
    filter_ne_zero ((accepted_of_validateRepeat valid).monthDay _ isGiven)] at index
  exact index.2

/-- The days of the rule that begins again are those of the later steps, counted anew. -/
theorem occursOnEpoch_restartedAt_iff
    (scheduled : Scheduled rule opening)
    (isStart : RealDay rule.startDay) (isDay : RealDay day)
    (isStep : epochDays day = (compileRepeat rule).dayAt step)
    (keepsDate : KeepsDate rule day) (last count : Option Int) {epoch : Int} :
    ((compileRepeat (restartedAt rule day)).withEnd last count).occursOnEpoch epoch = true ↔
      (∀ end_, last = some end_ -> epoch ≤ end_) ∧
        ∃ later ≥ step, epoch = (compileRepeat rule).dayAt later ∧
          ∀ most, count = some most -> later + 1 - step ≤ most := by
  obtain ⟨offset, before, same⟩ := exists_offset valid scheduled isStart isDay isStep keepsDate
  have validRestart := validateRepeat_restartedAt valid isDay
  obtain ⟨first, restarts⟩ := exists_scheduled validRestart isDay
  have isSkipped := (opening_eq_skipped_iff validRestart isDay.isReal restarts.opens).2
    (countsFromStart_restartedAt valid scheduled isStart isDay isStep)
  have isFirst : first = step - offset := by
    refine restarts.opens.eq ⟨by omega, fun later notNegative => ?_⟩
    have shown : epochDays (restartedAt rule day).startDay = (compileRepeat rule).dayAt step :=
      isStep
    rw [same, shown, scheduled.begins.strictMono_dayAt.le_iff_le]
    omega
  rw [(restarts.begins.withEnd last count).occursOnEpoch_iff (restarts.opens.withEnd last count),
    CompiledRepeat.withEnd_end_, CompiledRepeat.withEnd_count, CompiledRepeat.withEnd_dayAt,
    CompiledRepeat.withEnd_skipped, ← isSkipped, isFirst]
  apply and_congr_right
  intro _
  constructor
  · rintro ⟨later, opened, rfl, inCount⟩
    refine ⟨offset + later, by omega, same later, fun most isCount => ?_⟩
    have := inCount most isCount
    omega
  · rintro ⟨later, after, rfl, inCount⟩
    refine ⟨later - offset, by omega, ?_, fun most isCount => ?_⟩
    · rw [same, add_sub_cancel]
    · have := inCount most isCount
      omega

end

end

end Parvane.Repeats
