import Parvane.Repeats.Numbering
import Mathlib.Data.Int.Interval
import Mathlib.Order.Interval.Finset.Basic

/-!
# Counted rules

A rule with a count has that many days when its first day is the one that is numbered first.
The days of a week before the first day are left out of the numbering, but the day of the first
month, when it is before the first day, is not.
-/

namespace Parvane.Repeats

open Calendar

namespace CompiledRepeat

variable {rule : CompiledRepeat} {first opening epoch : Int}

/-- The first step whose day is not before the first day. -/
structure Opens (rule : CompiledRepeat) (first opening : Int) : Prop where
  notNegative : 0 ≤ opening
  le_dayAt_iff : ∀ step, 0 ≤ step -> (first ≤ rule.dayAt step ↔ opening ≤ step)

theorem Opens.withEnd (opens : rule.Opens first opening) (last count : Option Int) :
    (rule.withEnd last count).Opens first opening :=
  ⟨opens.notNegative, opens.le_dayAt_iff⟩

theorem Begins.add_le_dayAt (begins : rule.Begins first) (steps : Nat) :
    rule.dayAt 0 + steps ≤ rule.dayAt steps := by
  induction steps with
  | zero => simp
  | succ steps inductionHypothesis =>
      have next := @Begins.dayAt_lt rule first begins steps (steps + 1 : Nat) (by omega)
      omega

theorem Begins.exists_opens (begins : rule.Begins first) : ∃ opening, rule.Opens first opening := by
  have reached : ∃ steps : Nat, first ≤ rule.dayAt steps := by
    refine ⟨(first - rule.dayAt 0).toNat, ?_⟩
    have far := begins.add_le_dayAt (first - rule.dayAt 0).toNat
    omega
  classical
  refine ⟨Nat.find reached, Int.natCast_nonneg _, fun step notNegative => ?_⟩
  obtain ⟨step, rfl⟩ := Int.eq_ofNat_of_zero_le notNegative
  rw [Int.ofNat_le]
  constructor
  · exact Nat.find_min' reached
  · intro le
    exact Int.le_trans (Nat.find_spec reached)
      (begins.strictMono_dayAt.monotone (Int.ofNat_le.2 le))

theorem Opens.eq {other : Int} (opens : rule.Opens first opening)
    (otherOpens : rule.Opens first other) : opening = other := by
  have le := (opens.le_dayAt_iff other otherOpens.notNegative).1
    ((otherOpens.le_dayAt_iff other otherOpens.notNegative).2 (Int.le_refl _))
  have ge := (otherOpens.le_dayAt_iff opening opens.notNegative).1
    ((opens.le_dayAt_iff opening opens.notNegative).2 (Int.le_refl _))
  exact Int.le_antisymm le ge

/-- A rule occurs on the days of its steps, from the opening one to the last one counted. -/
theorem Begins.occursOnEpoch_iff
    (begins : rule.Begins first) (opens : rule.Opens first opening) :
    rule.occursOnEpoch epoch = true ↔
      (∀ last, rule.end_ = some last -> epoch ≤ last) ∧
        ∃ step, opening ≤ step ∧ epoch = rule.dayAt step ∧
          ∀ count, rule.count = some count -> step + 1 - rule.skipped ≤ count := by
  have counted (step : Int) :
      (rule.count.any fun count => decide (step + 1 - rule.skipped > count)) = false ↔
        ∀ count, rule.count = some count -> step + 1 - rule.skipped ≤ count := by
    cases rule.count with
    | none => simp
    | some count => simp
  constructor
  · intro occurs
    obtain ⟨behind, ends⟩ := between_of_occursOnEpoch occurs
    have above := behind first begins.isStart
    obtain ⟨ordinal, isOrdinal, inCount⟩ := CompiledRepeat.occursOnEpoch_iff.1 occurs
    obtain ⟨step, notNegative, rfl, rfl⟩ :=
      (begins.ordinalOfEpoch_eq_some_iff above ends).1 isOrdinal
    exact ⟨ends, step, (opens.le_dayAt_iff step notNegative).1 above, rfl,
      (counted step).1 inCount⟩
  · rintro ⟨ends, step, opened, rfl, inCount⟩
    have notNegative := Int.le_trans opens.notNegative opened
    have above := (opens.le_dayAt_iff step notNegative).2 opened
    exact CompiledRepeat.occursOnEpoch_iff.2 ⟨_,
      (begins.ordinalOfEpoch_eq_some_iff above ends).2 ⟨step, notNegative, rfl, rfl⟩,
      (counted step).2 inCount⟩

/-- A counted rule without an end has the days of the steps that are counted. -/
theorem Begins.encard_occurrences
    (begins : rule.Begins first) (opens : rule.Opens first opening) {count : Int}
    (isCount : rule.count = some count) (noEnd : rule.end_ = none) :
    {epoch | rule.occursOnEpoch epoch = true}.encard = (count + rule.skipped - opening).toNat := by
  have days : {epoch | rule.occursOnEpoch epoch = true} =
      rule.dayAt '' Set.Ico opening (count + rule.skipped) := by
    ext epoch
    rw [Set.mem_ofPred_eq, begins.occursOnEpoch_iff opens, isCount, noEnd]
    constructor
    · rintro ⟨-, step, opened, rfl, inCount⟩
      have last := inCount count rfl
      exact ⟨step, ⟨opened, by omega⟩, rfl⟩
    · rintro ⟨step, ⟨opened, inCount⟩, rfl⟩
      refine ⟨by simp, step, opened, rfl, fun last isLast => ?_⟩
      cases isLast
      omega
  rw [days, begins.strictMono_dayAt.injective.encard_image, ← Finset.coe_Ico,
    Set.encard_coe_eq_coe_finsetCard, Int.card_Ico]

end CompiledRepeat

/-! ## Rules that begin on a real date -/

section

variable {rule : Repeat} {year month date epoch index : Int}

theorem parts_year_nonneg (day : String) : 0 ≤ (parts day).year := by
  have nonneg (part : List Char) : 0 ≤ numberOf part := by
    unfold numberOf
    dsimp only
    split
    · exact Int.natCast_nonneg _
    · exact Int.le_refl 0
  unfold parts
  dsimp only
  cases (day.toList.splitOn '-')[0]? with
  | none => exact Int.le_refl 0
  | some part => exact nonneg part

/-- The first years are read as those of the twentieth century. -/
theorem epochOf_early (low : 0 ≤ year) (high : year ≤ 99) (month date : Int) :
    epochOf year month date = epochOf (year + 1900) month date := by
  unfold epochOf
  rw [if_pos ⟨low, high⟩, if_neg (by omega)]

theorem le_monthIndex (started : monthStart index ≤ epoch + 719468) :
    index ≤ (civilFromDays epoch).monthIndex := by
  obtain ⟨isReal, number⟩ := civilFromDays_spec epoch
  have isIn := isReal.in_month.2
  rw [show (civilFromDays epoch).number = epoch + 719468 by omega] at isIn
  have before := strictMono_monthStart.lt_iff_lt.1 (Int.lt_of_le_of_lt started isIn)
  omega

/-- A real date is not read as a day before its month. -/
theorem le_monthIndex_epochDays {day : String} (isReal : (parts day).IsReal) :
    (parts day).monthIndex ≤ (civilFromDays (epochDays day)).monthIndex ∧
      100 ≤ (civilFromDays (epochDays day)).year ∧
      ((parts day).year ≤ 99 ->
        (parts day).monthIndex < (civilFromDays (epochDays day)).monthIndex) := by
  obtain ⟨monthLow, monthHigh, dateLow, dateHigh⟩ := isReal
  have notNegative := parts_year_nonneg day
  have lastMonth := (civilFromDays_spec (epochDays day)).1.month_le
  have read (year : Int) (late : 100 ≤ year)
      (same : epochDays day = epochOf year (parts day).month (parts day).date) :
      12 * year + (parts day).month - 1 ≤ (civilFromDays (epochDays day)).monthIndex := by
    apply le_monthIndex
    rw [same, epochOf_eq late]
    omega
  by_cases early : (parts day).year ≤ 99
  · have behind := read ((parts day).year + 1900) (by omega)
      (epochOf_early notNegative early _ _)
    unfold Date.monthIndex at behind ⊢
    omega
  · have behind := read (parts day).year (by omega) rfl
    unfold Date.monthIndex at behind ⊢
    omega

theorem weekdays_ne_nil
    (valid : validateRepeat rule = none)
    (isWeekly : rule.kind = "weekly") : rule.weekdays.getD [] ≠ [] := by
  unfold validateRepeat at valid
  dsimp only at valid
  simp only [check_eq_none_iff] at valid
  obtain ⟨-, weekdays, -⟩ := valid
  intro isEmpty
  rw [isEmpty] at weekdays
  exact weekdays (by simp [isWeekly])

theorem filter_ne_zero {value : Int} (positive : 1 ≤ value) :
    (some value).filter (fun value => value != 0) = some value := by
  have notZero : (value != 0) = true := by
    rw [bne_iff_ne]
    omega
  rw [Option.filter_some, if_pos notZero]

/-- The end and the count of a rule are compiled on their own. -/
theorem compileRepeat_withEnd (rule : Repeat) (endDay : Option String) (count : Option Int) :
    compileRepeat { rule with endDay := endDay, count := count } =
      (compileRepeat rule).withEnd ((truthy endDay).map epochDays)
        (count.filter fun count => count != 0) :=
  rfl

/-- What a rule with a first day is compiled to. -/
theorem compileRepeat_eq (notEmpty : rule.startDay.isEmpty = false) :
    compileRepeat rule =
      { kind := rule.kind
        interval := rule.interval
        isValid := decide (1 ≤ rule.interval)
        start := some (epochDays rule.startDay)
        end_ := (truthy rule.endDay).map epochDays
        count := rule.count.filter fun count => count != 0
        positions := (compileRepeat rule).positions
        weekdayMask := (compileRepeat rule).weekdayMask
        startWeek := weekIndexOfEpoch (epochDays rule.startDay)
        skippedInFirstWeek := (compileRepeat rule).positions.countP fun position =>
          decide (position < (epochDays rule.startDay + 3) % 7)
        startYear := (parts rule.startDay).year
        startMonth := (parts rule.startDay).month
        startDate := (parts rule.startDay).date
        monthDay := (rule.monthDay.filter fun day => day != 0).getD (parts rule.startDay).date } := by
  rw [← mondayBased_weekdayOfEpoch]
  unfold compileRepeat
  simp only [notEmpty, Bool.false_eq_true, if_false, Option.map_some, Option.getD_some,
    Option.isSome_some, if_true]

theorem isEmpty_of_isReal {day : String} (isReal : (parts day).IsReal) : day.isEmpty = false := by
  rw [Bool.eq_false_iff]
  intro isEmpty
  rw [String.isEmpty_iff.1 isEmpty] at isReal
  exact absurd isReal.month_pos (by decide +kernel)

theorem positions_ne_nil
    (valid : validateRepeat rule = none)
    (isWeekly : rule.kind = "weekly") : (compileRepeat rule).positions ≠ [] := by
  obtain ⟨-, nodup⟩ := (accepted_of_validateRepeat valid).weekdays isWeekly
  have isPositions : (compileRepeat rule).positions =
      ((rule.weekdays.getD []).map mondayBased).mergeSort fun first second =>
        decide (first ≤ second) := by
    rw [← uniqueOf_eq_self nodup]
    rfl
  rw [isPositions, ← List.length_pos_iff, List.length_mergeSort, List.length_map,
    List.length_pos_iff]
  exact weekdays_ne_nil valid isWeekly

theorem begins_compileRepeat
    (valid : validateRepeat rule = none)
    (isReal : (parts rule.startDay).IsReal) :
    (compileRepeat rule).Begins (epochDays rule.startDay) := by
  have accepted := accepted_of_validateRepeat valid
  obtain ⟨behind, late, -⟩ := le_monthIndex_epochDays isReal
  have compiled := compileRepeat_eq (isEmpty_of_isReal isReal)
  constructor
  case late => exact late
  case interval_pos => exact accepted.interval_pos
  case isValid => exact decide_eq_true accepted.interval_pos
  case isStart => rw [compiled]
  case startWeek => rw [compiled]
  case month_pos =>
    rw [compiled]
    exact isReal.month_pos
  case month_le =>
    rw [compiled]
    exact isReal.month_le
  case date_pos =>
    rw [compiled]
    exact isReal.date_pos
  case behind =>
    rw [CompiledRepeat.startIndex, compiled]
    exact behind
  case monthDay_pos =>
    rw [compiled]
    dsimp only
    cases isMonthDay : rule.monthDay with
    | none => exact isReal.date_pos
    | some day =>
        have positive := accepted.monthDay day isMonthDay
        rwa [filter_ne_zero positive, Option.getD_some]
  case positions =>
    intro isWeekly
    refine ⟨hasPositions_compileRepeat accepted isWeekly, positions_ne_nil valid isWeekly, ?_⟩
    exact congrArg CompiledRepeat.skippedInFirstWeek compiled

/-- The wanted day of the first month is not before the first day. -/
theorem epochDays_le_dayOfMonth_iff {day : String}
    (isReal : (parts day).IsReal)
    (wanted : Int) :
    epochDays day ≤ dayOfMonth wanted (parts day).monthIndex ↔
      100 ≤ (parts day).year ∧ (parts day).date ≤ wanted := by
  obtain ⟨-, -, later⟩ := le_monthIndex_epochDays isReal
  by_cases late : 100 ≤ (parts day).year
  · have isEpoch : epochDays day = epochOfDate (parts day) :=
      epochOf_date isReal.month_pos isReal.month_le late
    have inMonth := isReal.date_le
    have sameYear : (parts day).monthIndex / 12 = (parts day).year := by
      have low := isReal.month_pos
      have high := isReal.month_le
      unfold Date.monthIndex
      omega
    have sameMonth : (parts day).monthIndex % 12 + 1 = (parts day).month := by
      have low := isReal.month_pos
      have high := isReal.month_le
      unfold Date.monthIndex
      omega
    rw [isEpoch, epochOfDate, Date.number_eq isReal.month_pos isReal.month_le, dayOfMonth,
      sameYear, sameMonth]
    omega
  · have after := later (by omega)
    have start := strictMono_monthStart.monotone (Int.add_one_le_of_lt after)
    obtain ⟨dayReal, number⟩ := civilFromDays_spec (epochDays day)
    have isIn := dayReal.in_month.1
    rw [monthStart_succ] at start
    unfold dayOfMonth
    omega

/-- The first day that a rule has is the one that is numbered first. -/
def CountsFromStart (rule : Repeat) : Prop :=
  rule.kind = "weekly" ∨ rule.kind = "daily" ∨
    100 ≤ (parts rule.startDay).year ∧
      (rule.kind = "monthly" -> ∀ day, rule.monthDay = some day ->
        (parts rule.startDay).date ≤ day)

instance (rule : Repeat) : Decidable (CountsFromStart rule) :=
  inferInstanceAs (Decidable (_ ∨ _ ∨ _ ∧ _))

theorem opening_eq_skipped_iff
    (valid : validateRepeat rule = none)
    (isReal : (parts rule.startDay).IsReal)
    {opening : Int}
    (opens : (compileRepeat rule).Opens (epochDays rule.startDay) opening) :
    opening = (compileRepeat rule).skipped ↔ CountsFromStart rule := by
  have begins := begins_compileRepeat valid isReal
  have compiled := compileRepeat_eq (isEmpty_of_isReal isReal)
  by_cases isWeekly : rule.kind = "weekly"
  · refine iff_of_true (opens.eq ⟨?_, fun step => begins.le_dayAt_weekly isWeekly⟩) (.inl isWeekly)
    rw [CompiledRepeat.skipped, kind_compileRepeat, if_pos isWeekly]
    exact Int.natCast_nonneg _
  have notNegative := opens.notNegative
  have isOpen := opens.le_dayAt_iff 0 (Int.le_refl 0)
  have fromZero : opening = (compileRepeat rule).skipped ↔
      epochDays rule.startDay ≤ (compileRepeat rule).dayAt 0 := by
    rw [CompiledRepeat.skipped, kind_compileRepeat, if_neg isWeekly]
    omega
  have isIndex : (compileRepeat rule).startIndex = (parts rule.startDay).monthIndex := by
    rw [CompiledRepeat.startIndex, compiled, Date.monthIndex]
  rw [fromZero, CompiledRepeat.dayAt, kind_compileRepeat, if_neg isWeekly]
  by_cases isDaily : rule.kind = "daily"
  · rw [if_pos isDaily, begins.isStart, Option.getD_some]
    exact iff_of_true (by omega) (.inr (.inl isDaily))
  by_cases isMonthly : rule.kind = "monthly"
  · have isMonthDay : (compileRepeat rule).monthDay =
        (rule.monthDay.filter fun day => day != 0).getD (parts rule.startDay).date := by
      rw [compiled]
    rw [if_neg isDaily, if_pos isMonthly, isMonthDay, isIndex, Int.zero_mul, Int.add_zero,
      epochDays_le_dayOfMonth_iff isReal]
    have notOther : CountsFromStart rule ↔
        100 ≤ (parts rule.startDay).year ∧
          ∀ day, rule.monthDay = some day -> (parts rule.startDay).date ≤ day := by
      unfold CountsFromStart
      rw [or_iff_right isWeekly, or_iff_right isDaily, forall_prop_of_true isMonthly]
    rw [notOther]
    cases isDay : rule.monthDay with
    | none => simp
    | some day =>
        have positive := (accepted_of_validateRepeat valid).monthDay day isDay
        rw [filter_ne_zero positive, Option.getD_some]
        simp only [Option.some.injEq, forall_eq']
  · have isDate : (compileRepeat rule).startDate = (parts rule.startDay).date := by rw [compiled]
    rw [if_neg isDaily, if_neg isMonthly, isDate, isIndex, Int.zero_mul, Int.mul_zero,
      Int.add_zero, epochDays_le_dayOfMonth_iff isReal]
    simp [CountsFromStart, isWeekly, isDaily, isMonthly]

/-- The days of a counted rule are as many as are left after the first step that has a day. -/
theorem exists_opening
    (valid : validateRepeat rule = none)
    (isReal : (parts rule.startDay).IsReal)
    {count : Int} (isCount : rule.count = some count) (noEnd : truthy rule.endDay = none) :
    ∃ opening, (compileRepeat rule).Opens (epochDays rule.startDay) opening ∧
      {epoch | (compileRepeat rule).occursOnEpoch epoch = true}.encard =
        (count + (compileRepeat rule).skipped - opening).toNat := by
  have begins := begins_compileRepeat valid isReal
  have positive := (accepted_of_validateRepeat valid).count count isCount
  obtain ⟨opening, opens⟩ := begins.exists_opens
  refine ⟨opening, opens, begins.encard_occurrences opens ?_ ?_⟩
  · rw [compileRepeat_eq (isEmpty_of_isReal isReal)]
    dsimp only
    rw [isCount, filter_ne_zero positive]
  · rw [compileRepeat_eq (isEmpty_of_isReal isReal), noEnd]
    rfl

/-- A count is honoured exactly when the first day that the rule has is numbered first. -/
theorem encard_occurrences_eq_count_iff
    {count : Int}
    (valid : validateRepeat rule = none)
    (isReal : (parts rule.startDay).IsReal)
    (isCount : rule.count = some count)
    (noEnd : truthy rule.endDay = none) :
    {epoch | (compileRepeat rule).occursOnEpoch epoch = true}.encard = count.toNat ↔
      CountsFromStart rule := by
  have positive := (accepted_of_validateRepeat valid).count count isCount
  obtain ⟨opening, opens, size⟩ := exists_opening valid isReal isCount noEnd
  have notNegative := opens.notNegative
  rw [size, Nat.cast_inj, ← opening_eq_skipped_iff valid isReal opens]
  omega

end

theorem encard_occurrences_lastOfMonth :
    {epoch | (compileRepeat lastOfMonth).occursOnEpoch epoch = true}.encard = (3 : Int).toNat := by
  have isDate : parts lastOfMonth.startDay = ⟨2024, 1, 31⟩ := by decide +kernel
  have isReal : (parts lastOfMonth.startDay).IsReal := by
    rw [isDate]
    exact ⟨by decide, by decide, by decide, by decide⟩
  exact (encard_occurrences_eq_count_iff (by decide +kernel) isReal rfl rfl).2 (by decide +kernel)

/-- The tenth day of every month, three times from the middle of January on. -/
def tenthOfMonth : Repeat where
  kind := "monthly"
  interval := 1
  weekdays := none
  monthDay := some 10
  startDay := "2024-01-15"
  endDay := none
  count := some 3

/-- It has two days only. -/
theorem tenthOfMonth_not_counted :
    validateRepeat tenthOfMonth = none ∧ (parts tenthOfMonth.startDay).IsReal ∧
      tenthOfMonth.count = some 3 ∧ truthy tenthOfMonth.endDay = none ∧
      {epoch | (compileRepeat tenthOfMonth).occursOnEpoch epoch = true}.encard ≠ 3 := by
  have valid : validateRepeat tenthOfMonth = none := by decide +kernel
  have isDate : parts tenthOfMonth.startDay = ⟨2024, 1, 15⟩ := by decide +kernel
  have isReal : (parts tenthOfMonth.startDay).IsReal := by
    rw [isDate]
    exact ⟨by decide, by decide, by decide, by decide⟩
  refine ⟨valid, isReal, rfl, rfl, ?_⟩
  obtain ⟨opening, opens, size⟩ := @exists_opening tenthOfMonth valid isReal 3 rfl rfl
  have tooEarly : (compileRepeat tenthOfMonth).dayAt 0 < epochDays tenthOfMonth.startDay := by
    decide +kernel
  have skipsNone : (compileRepeat tenthOfMonth).skipped = 0 := by decide +kernel
  have opensAfter := (opens.le_dayAt_iff 0 (Int.le_refl 0)).not.1 (Int.not_le.2 tooEarly)
  rw [size, skipsNone]
  intro same
  have three : (3 + 0 - opening).toNat = 3 := by exact_mod_cast same
  omega

end Parvane.Repeats
