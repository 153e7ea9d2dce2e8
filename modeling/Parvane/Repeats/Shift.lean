import Parvane.Repeats.Schedule
import Mathlib.Order.WellFounded

/-!
# Rules that are moved

A rule by days or weeks is moved with its first day and its days of the week.  Its days move with
it when the weeks that it passes over are the same.
-/

namespace Parvane.Repeats

open Calendar

/-- The day stays one with a text when it is moved by a number of days. -/
def Movable (day : String) (delta : Int) : Prop :=
  RealDay day ∧ IsDay (civilFromDays (epochDays day + delta))

/-- The rule with its first day and its weekdays moved, without end and count. -/
def shiftedBy (rule : Repeat) (delta : Int) : Repeat :=
  { rule with
    startDay := keyOfEpoch (epochDays rule.startDay + delta)
    weekdays :=
      if rule.kind = "weekly" then
        rule.weekdays.map (List.map fun weekday => ((weekday + delta).tmod 7 + 7).tmod 7)
      else rule.weekdays
    endDay := none
    count := none }

/-- Every weekday of the rule passes over as many weeks as the first day, or no week is left
out. -/
def KeepsWeeks (rule : Repeat) (delta : Int) : Prop :=
  rule.kind = "daily" ∨ rule.kind = "weekly" ∧
    (rule.interval = 1 ∨ ∀ weekday ∈ rule.weekdays.getD [],
      (mondayBased weekday + delta) / 7 = ((epochDays rule.startDay + 3) % 7 + delta) / 7)

instance (rule : Repeat) (delta : Int) : Decidable (KeepsWeeks rule delta) :=
  inferInstanceAs (Decidable (_ ∨ _ ∧ (_ ∨ _)))

section

variable {rule : Repeat} {day : String} {delta opening epoch : Int}

theorem Movable.realDay (movable : Movable day delta) :
    RealDay (keyOfEpoch (epochDays day + delta)) ∧
      epochDays (keyOfEpoch (epochDays day + delta)) = epochDays day + delta := by
  obtain ⟨-, isDay⟩ := movable
  exact ⟨⟨_, isDay, rfl⟩, by rw [keyOfEpoch, epochDays_keyOf isDay, epochOfDate_civilFromDays]⟩

/-- A weekday turns with the days. -/
theorem turned_eq (weekday delta : Int) :
    ((weekday + delta).tmod 7 + 7).tmod 7 = (weekday + delta) % 7 := by
  have low := Int.lt_tmod_of_pos (weekday + delta) (show (0 : Int) < 7 by decide)
  rw [Int.tmod_eq_emod_of_nonneg (by omega), Int.tmod_eq_emod]
  split <;> omega

theorem weekdays_shiftedBy (isWeekly : rule.kind = "weekly") (delta : Int) :
    (shiftedBy rule delta).weekdays.getD [] =
      (rule.weekdays.getD []).map fun weekday => (weekday + delta) % 7 := by
  rw [shiftedBy, if_pos isWeekly]
  cases rule.weekdays with
  | none => rfl
  | some weekdays =>
      rw [Option.map_some, Option.getD_some, Option.getD_some]
      apply List.map_congr_left
      intro weekday _
      exact turned_eq weekday delta

theorem validateRepeat_shiftedBy
    (valid : validateRepeat rule = none)
    (movable : Movable rule.startDay delta) : validateRepeat (shiftedBy rule delta) = none := by
  have notEmpty := isEmpty_of_isReal movable.realDay.1.isReal
  have isKey : isDayKey (keyOfEpoch (epochDays rule.startDay + delta)) = true :=
    isDayKey_keyOf movable.2
  have accepted := accepted_of_validateRepeat valid
  have whole := valid
  unfold validateRepeat at valid ⊢
  dsimp only at valid ⊢
  simp only [check_eq_none_iff] at valid ⊢
  obtain ⟨interval, -, monthDay, -⟩ := valid
  refine ⟨interval, ?_, monthDay, ?_⟩
  · by_cases isWeekly : rule.kind = "weekly"
    · have turned := weekdays_shiftedBy isWeekly delta
      have kind : (shiftedBy rule delta).kind = "weekly" := isWeekly
      have some_day := weekdays_ne_nil whole isWeekly
      obtain ⟨days, nodup⟩ := accepted.weekdays isWeekly
      have stillNodup :
          ((rule.weekdays.getD []).map fun weekday => (weekday + delta) % 7).Nodup := by
        refine nodup.map_on fun first member second otherMember same => ?_
        have bounds := days first member
        have otherBounds := days second otherMember
        omega
      have inside (weekday : Int) : 0 ≤ (weekday + delta) % 7 ∧ (weekday + delta) % 7 ≤ 6 := by
        omega
      simp [kind, turned, some_day, stillNodup, inside]
    · simp [shiftedBy, isWeekly]
  · simp [shiftedBy, notEmpty, isKey, truthy]

/-- On a weekday of the rule, the weeks since the first day decide. -/
theorem CompiledRepeat.Begins.exists_ordinal_iff {rule : CompiledRepeat} {first : Int}
    (begins : rule.Begins first) (isWeekly : rule.kind = "weekly") (above : first ≤ epoch)
    (below : ∀ last, rule.end_ = some last -> epoch ≤ last) :
    (∃ ordinal, rule.ordinalOfEpoch epoch = some ordinal) ↔
      (epoch + 3) % 7 ∈ rule.positions ∧
        (weekIndexOfEpoch epoch - weekIndexOfEpoch first).tmod rule.interval = 0 := by
  obtain ⟨positions, -⟩ := begins.positions isWeekly
  rw [CompiledRepeat.ordinalOfEpoch_between begins.isValid begins.isStart above below,
    if_pos isWeekly, begins.startWeek]
  simp only [Option.ite_none_left_eq_some, Bool.not_eq_true', Bool.not_eq_false,
    positions.hasWeekday_epoch, not_not, Option.some.injEq, exists_and_left, exists_eq', and_true]

theorem Scheduled.exists_step_weekly_iff
    (scheduled : Scheduled rule opening) (isWeekly : rule.kind = "weekly") :
    (∃ step ≥ opening, epoch = (compileRepeat rule).dayAt step) ↔
      epochDays rule.startDay ≤ epoch ∧ (epoch + 3) % 7 ∈ (compileRepeat rule).positions ∧
        (weekIndexOfEpoch epoch - weekIndexOfEpoch (epochDays rule.startDay)).tmod rule.interval =
          0 := by
  have begins := scheduled.begins.withEnd none none
  have unending (epoch last : Int)
      (isEnd : ((compileRepeat rule).withEnd none none).end_ = some last) : epoch ≤ last := by
    cases isEnd
  constructor
  · rintro ⟨step, opened, rfl⟩
    have notNegative := Int.le_trans scheduled.opens.notNegative opened
    have above := (scheduled.opens.le_dayAt_iff step notNegative).2 opened
    refine ⟨above, (begins.exists_ordinal_iff isWeekly above (unending _)).1 ?_⟩
    have numbered := (@CompiledRepeat.Begins.ordinalOfEpoch_eq_some_iff _ _ _
      (step + 1 - (compileRepeat rule).skipped) begins above (unending _)).2
      ⟨step, notNegative, rfl, rfl⟩
    exact ⟨_, numbered⟩
  · rintro ⟨above, weeks⟩
    obtain ⟨ordinal, isOrdinal⟩ :=
      (begins.exists_ordinal_iff isWeekly above (unending _)).2 weeks
    obtain ⟨step, notNegative, rfl, -⟩ :=
      (begins.ordinalOfEpoch_eq_some_iff above (unending _)).1 isOrdinal
    exact ⟨step, (scheduled.opens.le_dayAt_iff step notNegative).1 above, rfl⟩

theorem mem_positions_iff
    (valid : validateRepeat rule = none) (isWeekly : rule.kind = "weekly") {position : Int} :
    position ∈ (compileRepeat rule).positions ↔
      ∃ weekday ∈ rule.weekdays.getD [], mondayBased weekday = position := by
  obtain ⟨-, nodup⟩ := (accepted_of_validateRepeat valid).weekdays isWeekly
  have isPositions : (compileRepeat rule).positions =
      ((rule.weekdays.getD []).map mondayBased).mergeSort fun first second =>
        decide (first ≤ second) := by
    rw [← uniqueOf_eq_self nodup]
    rfl
  rw [isPositions, List.mem_mergeSort, List.mem_map]

/-- A weekly rule without end and count has the weekdays of every so many weeks. -/
theorem occursOn_weekly_iff
    (valid : validateRepeat rule = none) (isStart : RealDay rule.startDay) (isDay : RealDay day)
    (isWeekly : rule.kind = "weekly") (noEnd : rule.endDay = none) (noCount : rule.count = none) :
    occursOn rule day = true ↔
      epochDays rule.startDay ≤ epochDays day ∧
        (∃ weekday ∈ rule.weekdays.getD [], mondayBased weekday = (epochDays day + 3) % 7) ∧
        (weekIndexOfEpoch (epochDays day) - weekIndexOfEpoch (epochDays rule.startDay)).tmod
          rule.interval = 0 := by
  obtain ⟨opening, scheduled⟩ := exists_scheduled valid isStart
  have isEnd : (compileRepeat rule).end_ = none := by
    rw [compileRepeat_eq (isEmpty_of_isReal isStart.isReal), noEnd]
    rfl
  have isCount : (compileRepeat rule).count = none := by
    rw [compileRepeat_eq (isEmpty_of_isReal isStart.isReal), noCount]
    rfl
  rw [isDay.occursOn_eq, scheduled.occursOnEpoch_iff, isEnd, isCount,
    ← mem_positions_iff valid isWeekly, ← scheduled.exists_step_weekly_iff isWeekly]
  simp

/-- The positions turn with the days. -/
theorem mem_positions_shiftedBy_iff
    (valid : validateRepeat rule = none) (movable : Movable rule.startDay delta)
    (isWeekly : rule.kind = "weekly") :
    (epoch + delta + 3) % 7 ∈ (compileRepeat (shiftedBy rule delta)).positions ↔
      (epoch + 3) % 7 ∈ (compileRepeat rule).positions := by
  have days := ((accepted_of_validateRepeat valid).weekdays isWeekly).1
  rw [mem_positions_iff (validateRepeat_shiftedBy valid movable) isWeekly,
    mem_positions_iff valid isWeekly, weekdays_shiftedBy isWeekly]
  simp only [List.mem_map, exists_exists_and_eq_and]
  apply exists_congr
  intro weekday
  apply and_congr_right
  intro member
  have low := (days weekday member).1
  rw [mondayBased_eq low, mondayBased_eq (by omega)]
  omega

theorem exists_step_shiftedBy_daily_iff
    (movable : Movable rule.startDay delta) (isDaily : rule.kind = "daily") (step : Int) :
    (compileRepeat (shiftedBy rule delta)).dayAt step =
      (compileRepeat rule).dayAt step + delta := by
  obtain ⟨isMoved, isEpoch⟩ := movable.realDay
  have compiled := compileRepeat_eq (isEmpty_of_isReal movable.1.isReal)
  have shifted := @compileRepeat_eq (shiftedBy rule delta) (isEmpty_of_isReal isMoved.isReal)
  have sameKind : (compileRepeat (shiftedBy rule delta)).kind = rule.kind := rfl
  have sameInterval : (compileRepeat (shiftedBy rule delta)).interval =
      (compileRepeat rule).interval := rfl
  have first : (compileRepeat rule).start = some (epochDays rule.startDay) :=
    congrArg CompiledRepeat.start compiled
  have movedFirst : (compileRepeat (shiftedBy rule delta)).start =
      some (epochDays (shiftedBy rule delta).startDay) :=
    congrArg CompiledRepeat.start shifted
  have isFirst : epochDays (shiftedBy rule delta).startDay = epochDays rule.startDay + delta :=
    isEpoch
  have notWeekly : rule.kind ≠ "weekly" := by
    rw [isDaily]
    decide
  rw [CompiledRepeat.dayAt, CompiledRepeat.dayAt, kind_compileRepeat rule, sameKind, if_neg notWeekly, if_pos isDaily,
    if_neg notWeekly, if_pos isDaily, first, movedFirst, Option.getD_some, Option.getD_some,
    isFirst, sameInterval]
  omega

/-- The days move with the rule. -/
theorem exists_step_shiftedBy_iff {movedOpening : Int}
    (valid : validateRepeat rule = none) (movable : Movable rule.startDay delta)
    (keepsWeeks : KeepsWeeks rule delta) (scheduled : Scheduled rule opening)
    (moved : Scheduled (shiftedBy rule delta) movedOpening) :
    (∃ step ≥ movedOpening, epoch + delta = (compileRepeat (shiftedBy rule delta)).dayAt step) ↔
      ∃ step ≥ opening, epoch = (compileRepeat rule).dayAt step := by
  have isFirst : epochDays (shiftedBy rule delta).startDay = epochDays rule.startDay + delta :=
    movable.realDay.2
  rcases keepsWeeks with isDaily | ⟨isWeekly, weeks⟩
  · have sameDay := exists_step_shiftedBy_daily_iff movable isDaily
    have sameOpening : movedOpening = opening := by
      refine Scheduled.opens moved |>.eq ⟨scheduled.opens.notNegative, fun step notNegative => ?_⟩
      rw [isFirst, sameDay, ← scheduled.opens.le_dayAt_iff step notNegative]
      omega
    rw [sameOpening]
    apply exists_congr
    intro step
    apply and_congr_right
    intro _
    rw [sameDay]
    omega
  · have interval : (shiftedBy rule delta).interval = rule.interval := rfl
    rw [scheduled.exists_step_weekly_iff isWeekly, moved.exists_step_weekly_iff isWeekly,
      mem_positions_shiftedBy_iff valid movable isWeekly, isFirst, interval,
      weekIndexOfEpoch_eq, weekIndexOfEpoch_eq, weekIndexOfEpoch_eq, weekIndexOfEpoch_eq]
    rw [show epochDays rule.startDay + delta ≤ epoch + delta ↔ epochDays rule.startDay ≤ epoch by
      omega]
    apply and_congr_right
    intro _
    apply and_congr_right
    intro hasPosition
    rcases weeks with everyWeek | sameWeeks
    · rw [everyWeek, Int.tmod_one, Int.tmod_one]
    · obtain ⟨weekday, member, isPosition⟩ := (mem_positions_iff valid isWeekly).1 hasPosition
      have crossed := sameWeeks weekday member
      rw [isPosition] at crossed
      have sameDistance : (epoch + delta + 3) / 7 - (epochDays rule.startDay + delta + 3) / 7 =
          (epoch + 3) / 7 - (epochDays rule.startDay + 3) / 7 := by
        omega
      rw [sameDistance]

/-- From the first steps on, the steps move with the rule. -/
theorem dayAt_shiftedBy {movedOpening : Int}
    (valid : validateRepeat rule = none) (movable : Movable rule.startDay delta)
    (keepsWeeks : KeepsWeeks rule delta) (scheduled : Scheduled rule opening)
    (moved : Scheduled (shiftedBy rule delta) movedOpening)
    (later : Nat) :
    (compileRepeat (shiftedBy rule delta)).dayAt (movedOpening + later) =
      (compileRepeat rule).dayAt (opening + later) + delta := by
  have line (rule : Repeat) (opening : Int) (scheduled : Scheduled rule opening) (epoch : Int) :
      epoch ∈ Set.range (fun later : Nat => (compileRepeat rule).dayAt (opening + later)) ↔
        ∃ step ≥ opening, epoch = (compileRepeat rule).dayAt step := by
    constructor
    · rintro ⟨later, rfl⟩
      exact ⟨opening + later, by omega, rfl⟩
    · rintro ⟨step, opened, rfl⟩
      refine ⟨(step - opening).toNat, ?_⟩
      have back : opening + ((step - opening).toNat : Int) = step := by omega
      dsimp only
      rw [back]
  have movedMono : StrictMono fun later : Nat =>
      (compileRepeat (shiftedBy rule delta)).dayAt (movedOpening + later) :=
    fun _ _ earlier => moved.begins.dayAt_lt (by omega)
  have mono : StrictMono fun later : Nat => (compileRepeat rule).dayAt (opening + later) + delta :=
    fun _ _ earlier => Int.add_lt_add_right (scheduled.begins.dayAt_lt (by omega)) delta
  have sameRange := (movedMono.range_inj mono).1 (by
    ext epoch
    have sameDays := @exists_step_shiftedBy_iff _ _ _ (epoch - delta) _ valid movable keepsWeeks
      scheduled moved
    rw [Int.sub_add_cancel, ← line _ _ moved, ← line _ _ scheduled] at sameDays
    rw [sameDays]
    constructor
    · rintro ⟨later, same⟩
      exact ⟨later, by dsimp only at same ⊢; omega⟩
    · rintro ⟨later, same⟩
      exact ⟨later, by dsimp only at same ⊢; omega⟩)
  exact congrFun sameRange later

/-- A rule that is moved with its end occurs on the moved days. -/
theorem occursOnEpoch_shiftedBy_iff
    (valid : validateRepeat rule = none) (movable : Movable rule.startDay delta)
    (keepsWeeks : KeepsWeeks rule delta) :
    ((compileRepeat (shiftedBy rule delta)).withEnd
        ((compileRepeat rule).end_.map fun last => last + delta)
        (compileRepeat rule).count).occursOnEpoch (epoch + delta) = true ↔
      (compileRepeat rule).occursOnEpoch epoch = true := by
  have movedValid := validateRepeat_shiftedBy valid movable
  obtain ⟨opening, scheduled⟩ := exists_scheduled valid movable.1
  obtain ⟨movedOpening, moved⟩ := exists_scheduled movedValid movable.realDay.1
  have fromStart : CountsFromStart rule :=
    keepsWeeks.elim (fun isDaily => .inr (.inl isDaily)) fun both => .inl both.1
  have movedFromStart : CountsFromStart (shiftedBy rule delta) :=
    keepsWeeks.elim (fun isDaily => .inr (.inl isDaily)) fun both => .inl both.1
  have isSkipped := (opening_eq_skipped_iff valid movable.1.isReal scheduled.opens).2 fromStart
  have movedSkipped :=
    (opening_eq_skipped_iff movedValid movable.realDay.1.isReal moved.opens).2 movedFromStart
  have sameDay := dayAt_shiftedBy valid movable keepsWeeks scheduled moved
  rw [(moved.begins.withEnd _ _).occursOnEpoch_iff (moved.opens.withEnd _ _), scheduled.occursOnEpoch_iff,
    CompiledRepeat.withEnd_end_, CompiledRepeat.withEnd_count, CompiledRepeat.withEnd_dayAt,
    CompiledRepeat.withEnd_skipped, ← isSkipped, ← movedSkipped]
  have sameEnd : (∀ last, ((compileRepeat rule).end_.map fun last => last + delta) = some last ->
      epoch + delta ≤ last) ↔ ∀ last, (compileRepeat rule).end_ = some last -> epoch ≤ last := by
    cases (compileRepeat rule).end_ with
    | none => simp
    | some last => simp
  rw [sameEnd]
  apply and_congr_right
  intro _
  constructor
  · rintro ⟨step, opened, same, inCount⟩
    obtain ⟨later, isLater⟩ := Int.eq_ofNat_of_zero_le (Int.sub_nonneg_of_le opened)
    have isStep : step = movedOpening + later := by omega
    rw [isStep, sameDay] at same
    refine ⟨opening + later, by omega, by omega, fun count isCount => ?_⟩
    have most := inCount count isCount
    omega
  · rintro ⟨step, opened, same, inCount⟩
    obtain ⟨later, isLater⟩ := Int.eq_ofNat_of_zero_le (Int.sub_nonneg_of_le opened)
    have isStep : step = opening + later := by omega
    rw [isStep] at same
    refine ⟨movedOpening + later, by omega, by rw [sameDay, same], fun count isCount => ?_⟩
    have most := inCount count isCount
    omega

end

end Parvane.Repeats
