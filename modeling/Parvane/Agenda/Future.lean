import Parvane.Agenda.Past
import Parvane.Repeats.Restart

/-!
# The future of a series

A series that is split goes on in a new one.  The new series has the days of the rule from the
split on, with its end and what is left of its count; it has no marks, so days that were excluded
are its days again.
-/

namespace Parvane.Agenda

open Repeats

/-- What is left of a rule from a day on, when a number of its days is before. -/
def remaining (rule : Repeat) (day : String) (before : Int) : Repeat :=
  { rule with startDay := day, count := rule.count.map fun count => count - before }

section

variable {rule : Repeat} {day other : String} {opening step : Int}

/-- An occurrence is counted, so the count is not used up before it. -/
theorem continuedFrom_eq {patch : ItemPatch}
    (keepsRule : patch.repeatRule = none) (valid : validateRepeat rule = none)
    (scheduled : Scheduled rule opening) (isStart : RealDay rule.startDay) (isDay : RealDay day)
    (isStep : epochDays day = (compileRepeat rule).dayAt step)
    (occurs : occursOn rule day = true) (counts : rule.count = none ∨ CountsFromStart rule) :
    continuedFrom rule day (step - opening) patch = remaining rule day (step - opening) ∧
      ∀ count, rule.count = some count -> 1 ≤ count - (step - opening) := by
  have enough : ∀ count, rule.count = some count -> 1 ≤ count - (step - opening) := by
    intro count isCount
    have fromStart := counts.resolve_left (by rw [isCount]; simp)
    have isSkipped :=
      (opening_eq_skipped_iff valid isStart.isReal scheduled.opens).2 fromStart
    have positive := (accepted_of_validateRepeat valid).count count isCount
    rw [isDay.occursOn_eq, scheduled.occursOnEpoch_iff] at occurs
    obtain ⟨-, other, -, same, inCount⟩ := occurs
    rw [isStep] at same
    have isOther := scheduled.begins.strictMono_dayAt.injective same
    have counted : (compileRepeat rule).count = some count := by
      rw [compileRepeat_eq (isEmpty_of_isReal isStart.isReal), isCount, filter_ne_zero positive]
    have most := inCount count counted
    omega
  refine ⟨?_, enough⟩
  unfold continuedFrom remaining
  rw [keepsRule]
  cases isCount : rule.count with
  | none => rfl
  | some count =>
      rw [Option.map_some, Option.map_some, max_eq_right (enough count isCount)]

/-- What is left of the rule occurs on the days of the rule from the day on. -/
theorem occursOn_remaining_iff
    (valid : validateRepeat rule = none) (scheduled : Scheduled rule opening)
    (isStart : RealDay rule.startDay) (isDay : RealDay day) (opened : opening ≤ step)
    (isStep : epochDays day = (compileRepeat rule).dayAt step)
    (keepsDate : KeepsDate rule day) (counts : rule.count = none ∨ CountsFromStart rule)
    (enough : ∀ count, rule.count = some count -> 1 ≤ count - (step - opening))
    (isOther : RealDay other) :
    occursOn (remaining rule day (step - opening)) other = true ↔
      occursOn rule other = true ∧ day ≤ other := by
  have compiled : compileRepeat (remaining rule day (step - opening)) =
      (compileRepeat (restartedAt rule day)).withEnd ((truthy rule.endDay).map epochDays)
        ((rule.count.map fun count => count - (step - opening)).filter
          fun count => count != 0) :=
    compileRepeat_withEnd (restartedAt rule day) _ _
  have isEnd : (compileRepeat rule).end_ = (truthy rule.endDay).map epochDays := rfl
  have isCounted : (compileRepeat rule).count = rule.count.filter fun count => count != 0 := rfl
  -- A count of the new rule and one of the old rule leave out the same steps.
  have sameCount (later : Int) :
      (∀ most, ((rule.count.map fun count => count - (step - opening)).filter
          fun count => count != 0) = some most -> later + 1 - step ≤ most) ↔
        ∀ count, (rule.count.filter fun count => count != 0) = some count ->
          later + 1 - (compileRepeat rule).skipped ≤ count := by
    cases isCount : rule.count with
    | none => simp
    | some count =>
        have fromStart := counts.resolve_left (by rw [isCount]; simp)
        have isSkipped :=
          (opening_eq_skipped_iff valid isStart.isReal scheduled.opens).2 fromStart
        have positive := (accepted_of_validateRepeat valid).count count isCount
        rw [Option.map_some, filter_ne_zero (enough count isCount), filter_ne_zero positive]
        simp only [Option.some.injEq, forall_eq']
        omega
  rw [isOther.occursOn_eq, compiled,
    occursOnEpoch_restartedAt_iff valid scheduled isStart isDay isStep keepsDate,
    isOther.occursOn_eq, scheduled.occursOnEpoch_iff, isDay.le_iff isOther, isStep, isEnd,
    isCounted, and_assoc]
  apply and_congr_right
  intro _
  constructor
  · rintro ⟨later, after, same, inCount⟩
    rw [same]
    exact ⟨⟨later, Int.le_trans opened after, rfl, (sameCount later).1 inCount⟩,
      scheduled.begins.strictMono_dayAt.monotone after⟩
  · rintro ⟨⟨later, -, same, inCount⟩, after⟩
    rw [same] at after
    exact ⟨later, scheduled.begins.strictMono_dayAt.le_iff_le.1 after, same,
      (sameCount later).2 inCount⟩

end

section

variable {T : Type} [Item T] {item : T} {rule : Repeat} {day : String} {state : State}
  {id newId : String} {patch : ItemPatch}

/-- A split goes on with the days of the rule, without marks, when no month was too short for
the date of the first day and a count counts from the first day on. -/
theorem splitIn_continues
    [LawfulItem T]
    (found : findIn (Item.itemsOf state) id = some item)
    (isRepeat : Item.repeatRule item = some rule)
    (valid : validateRepeat rule = none)
    (isStart : RealDay rule.startDay)
    (isDay : RealDay day)
    (after : rule.startDay < day)
    (isInstance : instanceOn item day = true)
    (keepsRule : patch.repeatRule = none)
    (keepsDate : KeepsDate rule day)
    (counts : rule.count = none ∨ CountsFromStart rule) :
    ∃ before enough, ∀ rounds ≥ enough, ∃ created : T, ∃ split : State,
      instancesBefore rounds rule day = some before ∧
        splitIn T rounds state id day patch newId = some (some created, split) ∧
        created ∈ (Item.itemsOf split : List T) ∧
        Item.repeatRule created = some (remaining rule day before) ∧
        Item.occurrences created = some [] ∧
        ∀ other, RealDay other ->
          (instanceOn created other = true ↔ occursOn rule other = true ∧ day ≤ other) := by
  obtain ⟨opening, scheduled⟩ := exists_scheduled valid isStart
  obtain ⟨occurs, -⟩ := (instanceOn_iff isRepeat).1 isInstance
  obtain ⟨step, opened, isStep⟩ := exists_step scheduled isDay occurs
  have notEmpty := isEmpty_of_isReal isStart.isReal
  have occursEpoch := occurs
  rw [isDay.occursOn_eq] at occursEpoch
  obtain ⟨enough, counted⟩ :=
    instancesBefore_eq scheduled valid isStart isDay after opened isStep occursEpoch
  obtain ⟨continued, some_left⟩ :=
    continuedFrom_eq keepsRule valid scheduled isStart isDay isStep occurs counts
  refine ⟨step - opening, enough, fun rounds more => ⟨_, _, counted rounds more,
    splitIn_eq found isRepeat notEmpty after (counted rounds more), ?_, ?_, ?_, ?_⟩⟩
  · rw [LawfulItem.itemsOf_withItems]
    exact List.mem_append_right _ (List.mem_singleton_self _)
  · rw [LawfulItem.repeatRule_created, continued]
  · rw [LawfulItem.occurrences_created]
  · intro other isOther
    rw [@instanceOn_iff _ _ _ (remaining rule day (step - opening)) _
      (by rw [LawfulItem.repeatRule_created, continued]),
      occursOn_remaining_iff valid scheduled isStart isDay opened isStep keepsDate counts some_left
        isOther]
    have noMark (created : T) (noMarks : Item.occurrences created = some []) :
        isExcluded (occurrenceOf created other) = false := by
      unfold occurrenceOf
      rw [noMarks]
      rfl
    rw [noMark _ (LawfulItem.occurrences_created _ _ _)]
    simp

end

theorem splitIn_continues_sixMondays :
    ∃ before enough, ∀ rounds ≥ enough, ∃ created : Event, ∃ split : State,
      instancesBefore rounds sixMondays "2026-11-02" = some before ∧
        splitIn Event rounds (stateOf (repeatingEvent sixMondays)) "e" "2026-11-02" {} "n" =
          some (some created, split) ∧
        created ∈ (Item.itemsOf split : List Event) ∧
        Item.repeatRule created = some (remaining sixMondays "2026-11-02" before) ∧
        Item.occurrences created = some [] ∧
        ∀ other, RealDay other ->
          (instanceOn created other = true ↔
            occursOn sixMondays other = true ∧ "2026-11-02" ≤ other) := by
  have found : findIn (Item.itemsOf (stateOf (repeatingEvent sixMondays))) "e" =
      some (repeatingEvent sixMondays) := by
    decide +kernel
  exact splitIn_continues found rfl (by decide +kernel)
    ⟨⟨2026, 10, 12⟩, by decide, by decide +kernel⟩
    ⟨⟨2026, 11, 2⟩, by decide, by decide +kernel⟩
    (by decide +kernel) (by decide +kernel) rfl (.inl rfl) (.inr (.inl rfl))

/-- A lesson on Mondays, without that of November 9. -/
def lessonWithout : Event :=
  { repeatingEvent sixMondays with occurrences := some [⟨"2026-11-09", some true, none, none⟩] }

/-- The excluded day is a day of the new series. -/
theorem lessonWithout_excluded_returns :
    validateRepeat sixMondays = none ∧
      instanceOn lessonWithout "2026-11-02" = true ∧
      instanceOn lessonWithout "2026-11-09" = false ∧
      ((splitIn Event 9 (stateOf lessonWithout) "e" "2026-11-02" {} "n").map fun result =>
        result.1.map fun created => instanceOn created "2026-11-09") = some (some true) := by
  decide +kernel

end Parvane.Agenda
