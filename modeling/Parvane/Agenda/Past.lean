import Parvane.Agenda.Series
import Parvane.Repeats.Schedule

/-!
# The past of a series

A series that is split or ends before a day should keep the days it had before.  It gets an end
and, when it is counted, a new count: the number of the days before.  That number is the ordinal
of the last of them, unless the first month has its day before the first day of the series.
-/

namespace Parvane.Agenda

open Repeats

/-! ## Days before a day -/

section

variable {rule : Repeat} {day other : String} {opening step : Int}

/-- The day before is a day between the first one and the day. -/
theorem realDay_dayBefore
    (isStart : RealDay rule.startDay) (isDay : RealDay day) (after : rule.startDay < day) :
    RealDay (addDays day (-1)) ∧ epochDays (addDays day (-1)) = epochDays day - 1 := by
  have later := (isStart.lt_iff isDay).1 after
  exact isStart.between isDay (by omega) (by omega)

/-- The days before an occurrence are those of the steps before it. -/
theorem instancesBefore_eq
    (scheduled : Scheduled rule opening) (valid : validateRepeat rule = none)
    (isStart : RealDay rule.startDay) (isDay : RealDay day) (after : rule.startDay < day)
    (opened : opening ≤ step)
    (isStep : epochDays day = (compileRepeat rule).dayAt step)
    (occurs : (compileRepeat rule).occursOnEpoch (epochDays day) = true) :
    ∃ enough, ∀ rounds ≥ enough, instancesBefore rounds rule day = some (step - opening) := by
  have accepted := accepted_of_validateRepeat valid
  have later := (isStart.lt_iff isDay).1 after
  obtain ⟨isBefore, isEpoch⟩ := realDay_dayBefore isStart isDay after
  have le : rule.startDay ≤ addDays day (-1) := by
    rw [isStart.le_iff isBefore, isEpoch]
    omega
  obtain ⟨enough, epochs, expanded, sorted, members⟩ :=
    exists_expandRepeat accepted (.inr isStart) le
  have nodup : epochs.Nodup := sorted.imp Int.ne_of_lt
  have days : epochs.toFinset = (Finset.Ico opening step).image (compileRepeat rule).dayAt := by
    ext epoch
    rw [List.mem_toFinset, members, isEpoch, Finset.mem_image]
    constructor
    · rintro ⟨-, below, occursBefore⟩
      obtain ⟨-, earlier, openedEarlier, rfl, -⟩ := scheduled.occursOnEpoch_iff.1 occursBefore
      have before := scheduled.begins.strictMono_dayAt.lt_iff_lt.1
        (show (compileRepeat rule).dayAt earlier < (compileRepeat rule).dayAt step by omega)
      exact ⟨earlier, Finset.mem_Ico.2 ⟨openedEarlier, before⟩, rfl⟩
    · rintro ⟨earlier, between, rfl⟩
      obtain ⟨openedEarlier, before⟩ := Finset.mem_Ico.1 between
      have notNegative := Int.le_trans scheduled.opens.notNegative openedEarlier
      have above := (scheduled.opens.le_dayAt_iff earlier notNegative).2 openedEarlier
      have below := scheduled.begins.dayAt_lt before
      rw [isStep] at occurs
      exact ⟨above, by omega, scheduled.occursOnEpoch_of_lt occurs openedEarlier (by omega)⟩
  have size : (epochs.length : Int) = step - opening := by
    rw [← List.toFinset_card_of_nodup nodup, days,
      Finset.card_image_of_injective _ scheduled.begins.strictMono_dayAt.injective, Int.card_Ico]
    omega
  refine ⟨enough, fun rounds more => ?_⟩
  rw [instancesBefore, isEmpty_of_isReal isStart.isReal, if_neg Bool.false_ne_true,
    expandRepeat_mono accepted le expanded more, Option.map_some, List.length_map, size]

/-- The ended rule is compiled with another end and another count. -/
theorem compileRepeat_endedBefore (rule : Repeat) (day : String) (before : Int) :
    compileRepeat (endedBefore rule day before) =
      (compileRepeat rule).withEnd ((truthy (some (addDays day (-1)))).map epochDays)
        ((rule.count.map fun _ => max 1 before).filter fun count => count != 0) :=
  compileRepeat_withEnd rule _ _

theorem scheduled_endedBefore (scheduled : Scheduled rule opening) (day : String) (before : Int) :
    Scheduled (endedBefore rule day before) opening where
  begins := by
    rw [compileRepeat_endedBefore]
    exact scheduled.begins.withEnd _ _
  opens := by
    rw [compileRepeat_endedBefore]
    exact scheduled.opens.withEnd _ _

/-- The ended rule has the days of the steps before the day that it still counts. -/
theorem occursOn_endedBefore_iff
    (scheduled : Scheduled rule opening) (isStart : RealDay rule.startDay) (isDay : RealDay day)
    (after : rule.startDay < day)
    (isStep : epochDays day = (compileRepeat rule).dayAt step)
    (isOther : RealDay other) :
    occursOn (endedBefore rule day (step - opening)) other = true ↔
      ∃ earlier, opening ≤ earlier ∧ earlier < step ∧
        epochDays other = (compileRepeat rule).dayAt earlier ∧
        (rule.count ≠ none ->
          earlier + 1 - (compileRepeat rule).skipped ≤ max 1 (step - opening)) := by
  obtain ⟨isBefore, isEpoch⟩ := realDay_dayBefore isStart isDay after
  have isEnd : (compileRepeat (endedBefore rule day (step - opening))).end_ =
      some (epochDays day - 1) := by
    have notEmpty := isEmpty_of_isReal isBefore.isReal
    rw [compileRepeat_endedBefore]
    rw [CompiledRepeat.withEnd_end_, truthy, Option.filter_some, notEmpty, Bool.not_false,
      if_pos rfl, Option.map_some, isEpoch]
  have isCount : (compileRepeat (endedBefore rule day (step - opening))).count =
      rule.count.map fun _ => max 1 (step - opening) := by
    rw [compileRepeat_endedBefore, CompiledRepeat.withEnd_count]
    cases rule.count with
    | none => rfl
    | some count => exact filter_ne_zero (Int.le_max_left _ _)
  have below : epochDays other ≤ epochDays day - 1 ↔ epochDays other < epochDays day := by omega
  have counted (earlier : Int) :
      (∀ count, (rule.count.map fun _ => max 1 (step - opening)) = some count ->
        earlier + 1 - (compileRepeat rule).skipped ≤ count) ↔
        (rule.count ≠ none ->
          earlier + 1 - (compileRepeat rule).skipped ≤ max 1 (step - opening)) := by
    cases rule.count with
    | none => simp
    | some count =>
        simp only [Option.map_some, Option.some.injEq, forall_eq', ne_eq, reduceCtorEq,
          not_false_eq_true, true_implies]
  rw [isOther.occursOn_eq,
    (scheduled_endedBefore scheduled day (step - opening)).occursOnEpoch_iff, isEnd, isCount]
  simp only [Option.some.injEq, forall_eq']
  rw [below, isStep, ← exists_and_left]
  apply exists_congr
  intro earlier
  rw [compileRepeat_endedBefore, CompiledRepeat.withEnd_dayAt, CompiledRepeat.withEnd_skipped,
    counted]
  constructor
  · rintro ⟨before, opened, same, inCount⟩
    refine ⟨opened, ?_, same, inCount⟩
    rw [same] at before
    exact scheduled.begins.strictMono_dayAt.lt_iff_lt.1 before
  · rintro ⟨opened, before, same, inCount⟩
    refine ⟨?_, opened, same, inCount⟩
    rw [same]
    exact scheduled.begins.dayAt_lt before

end

/-! ## Series that end before a day -/

section

variable {T : Type} [Item T] {item : T} {rule : Repeat} {day other : String}
  {opening step : Int}

/-- A series with the instances that another one has before a day, with their marks, and no
others. -/
structure KeepsPast (item : T) (day : String) (old : T) : Prop where
  instances : ∀ other, RealDay other ->
    (instanceOn old other = true ↔ instanceOn item other = true ∧ other < day)
  marks : ∀ other, RealDay other -> other < day -> occurrenceOf old other = occurrenceOf item other

/-- The last day of the rule before a day is excluded, or there is none. -/
def LastExcluded (item : T) (rule : Repeat) (day : String) : Prop :=
  ∀ last, RealDay last -> last < day -> occursOn rule last = true ->
    (∀ other, RealDay other -> last < other -> other < day -> occursOn rule other = false) ->
    isExcluded (occurrenceOf item last) = true

/-- A series that ends before a day, which has a number of days before. -/
def ended (item : T) (rule : Repeat) (day : String) (before : Int) : T :=
  Item.withOccurrences (Item.withRepeat item (some (endedBefore rule day before)))
    (keptBefore (Item.occurrences item) day)

theorem findIn_putFirst {items others : List T} {id : String} {next : T}
    (found : findIn items id = some item)
    (sameId : Item.id next = id) : findIn (putFirst items id next ++ others) id = some next := by
  induction items with
  | nil => cases found
  | cons head rest inductionHypothesis =>
      unfold findIn at found inductionHypothesis ⊢
      unfold putFirst
      by_cases isHead : (Item.id head == id) = true
      · rw [if_pos isHead, List.cons_append, List.find?_cons, beq_iff_eq.2 sameId]
      · rw [Bool.not_eq_true] at isHead
        rw [List.find?_cons, isHead] at found
        rw [isHead, if_neg Bool.false_ne_true, List.cons_append, List.find?_cons, isHead]
        exact inductionHypothesis found

theorem id_of_findIn {items : List T} {id : String} (found : findIn items id = some item) :
    Item.id item = id := by
  simpa using List.find?_some found

/-- The marks of the days before are kept. -/
theorem occurrenceOf_ended [LawfulItem T] (before : Int) (earlier : other < day) :
    occurrenceOf (ended item rule day before) other = occurrenceOf item other := by
  unfold occurrenceOf ended keptBefore
  rw [LawfulItem.occurrences_withOccurrences]
  cases Item.occurrences item with
  | none => rfl
  | some occurrences =>
      rw [Option.map_some, Option.getD_some, Option.getD_some, List.find?_filter]
      congr 1
      funext occurrence
      by_cases same : occurrence.day = other
      · simp [same, earlier]
      · simp [same]

theorem instanceOn_ended_iff [LawfulItem T] (before : Int) (earlier : other < day) :
    instanceOn (ended item rule day before) other = true ↔
      occursOn (endedBefore rule day before) other = true ∧
        isExcluded (occurrenceOf item other) = false := by
  rw [@instanceOn_iff _ _ _ (endedBefore rule day before), occurrenceOf_ended before earlier]
  simp [ended]

section

variable (scheduled : Scheduled rule opening)

include scheduled

/-- The days of the steps before a day are days between the first one and it. -/
theorem realDay_step
    (isStart : RealDay rule.startDay) (isDay : RealDay day)
    (isStep : epochDays day = (compileRepeat rule).dayAt step)
    {earlier : Int} (opened : opening ≤ earlier) (before : earlier < step) :
    RealDay (keyOfEpoch ((compileRepeat rule).dayAt earlier)) ∧
      epochDays (keyOfEpoch ((compileRepeat rule).dayAt earlier)) =
        (compileRepeat rule).dayAt earlier := by
  have notNegative := Int.le_trans scheduled.opens.notNegative opened
  have below := scheduled.begins.dayAt_lt before
  exact isStart.between isDay ((scheduled.opens.le_dayAt_iff earlier notNegative).2 opened)
    (by omega)

theorem occursOn_before_iff
    (isDay : RealDay day)
    (isStep : epochDays day = (compileRepeat rule).dayAt step)
    (occurs : occursOn rule day = true) (isOther : RealDay other) :
    occursOn rule other = true ∧ other < day ↔
      ∃ earlier, opening ≤ earlier ∧ earlier < step ∧
        epochDays other = (compileRepeat rule).dayAt earlier := by
  rw [isDay.occursOn_eq, isStep] at occurs
  rw [isOther.occursOn_eq, isOther.lt_iff isDay, isStep]
  constructor
  · rintro ⟨occursBefore, before⟩
    obtain ⟨-, earlier, opened, same, -⟩ := scheduled.occursOnEpoch_iff.1 occursBefore
    rw [same] at before
    exact ⟨earlier, opened, scheduled.begins.strictMono_dayAt.lt_iff_lt.1 before, same⟩
  · rintro ⟨earlier, opened, before, same⟩
    rw [same]
    exact ⟨scheduled.occursOnEpoch_of_lt occurs opened (Int.le_of_lt before),
      scheduled.begins.dayAt_lt before⟩

/-- The last day before is that of the step before. -/
theorem lastExcluded_iff
    (isStart : RealDay rule.startDay) (isDay : RealDay day)
    (isStep : epochDays day = (compileRepeat rule).dayAt step)
    (occurs : occursOn rule day = true) :
    LastExcluded item rule day ↔
      (opening < step ->
        isExcluded (occurrenceOf item (keyOfEpoch ((compileRepeat rule).dayAt (step - 1)))) =
          true) := by
  constructor
  · intro lastExcluded some_before
    obtain ⟨isLast, isEpoch⟩ := realDay_step scheduled isStart isDay isStep
      (show opening ≤ step - 1 by omega) (by omega)
    obtain ⟨occursLast, before⟩ :=
      (occursOn_before_iff scheduled isDay isStep occurs isLast).2
        ⟨step - 1, by omega, by omega, isEpoch⟩
    refine lastExcluded _ isLast before occursLast fun other isOther above below => ?_
    rw [Bool.eq_false_iff]
    intro occursOther
    obtain ⟨earlier, opened, earlierStep, same⟩ :=
      (occursOn_before_iff scheduled isDay isStep occurs isOther).1 ⟨occursOther, below⟩
    rw [isLast.lt_iff isOther, isEpoch, same] at above
    have after := scheduled.begins.strictMono_dayAt.lt_iff_lt.1 above
    omega
  · intro excluded last isLast before occursLast isLastOne
    obtain ⟨earlier, opened, earlierStep, same⟩ :=
      (occursOn_before_iff scheduled isDay isStep occurs isLast).1 ⟨occursLast, before⟩
    have isPrevious : earlier = step - 1 := by
      by_contra notPrevious
      obtain ⟨isNext, isEpoch⟩ := realDay_step scheduled isStart isDay isStep
        (show opening ≤ earlier + 1 by omega) (by omega)
      obtain ⟨occursNext, nextBefore⟩ :=
        (occursOn_before_iff scheduled isDay isStep occurs isNext).2
          ⟨earlier + 1, by omega, by omega, isEpoch⟩
      have later := @CompiledRepeat.Begins.dayAt_lt _ _ scheduled.begins earlier (earlier + 1)
        (by omega)
      have never := isLastOne _ isNext (by rw [isLast.lt_iff isNext, isEpoch, same]; exact later)
        nextBefore
      rw [occursNext] at never
      cases never
    have isKey : last = keyOfEpoch ((compileRepeat rule).dayAt (step - 1)) := by
      rw [← isPrevious, ← same, isLast.keyOfEpoch_epochDays]
    rw [isKey]
    exact excluded (by omega)

end

/-- The ended series lacks the days whose ordinals are too large for its new count. -/
theorem keepsPast_ended_iff [LawfulItem T]
    (isRepeat : Item.repeatRule item = some rule) (scheduled : Scheduled rule opening)
    (isStart : RealDay rule.startDay) (isDay : RealDay day) (after : rule.startDay < day)
    (isStep : epochDays day = (compileRepeat rule).dayAt step)
    (occurs : occursOn rule day = true) :
    KeepsPast item day (ended item rule day (step - opening)) ↔
      ∀ earlier, opening ≤ earlier -> earlier < step -> rule.count ≠ none ->
        isExcluded (occurrenceOf item (keyOfEpoch ((compileRepeat rule).dayAt earlier))) = true ∨
          earlier + 1 - (compileRepeat rule).skipped ≤ max 1 (step - opening) := by
  constructor
  · intro keeps earlier opened before counted
    obtain ⟨isOther, isEpoch⟩ := realDay_step scheduled isStart isDay isStep opened before
    obtain ⟨occursOther, below⟩ := (occursOn_before_iff scheduled isDay isStep occurs isOther).2
      ⟨earlier, opened, before, isEpoch⟩
    rw [or_iff_not_imp_left, Bool.not_eq_true]
    intro notExcluded
    have still := (keeps.instances _ isOther).2
      ⟨(instanceOn_iff isRepeat).2 ⟨occursOther, notExcluded⟩, below⟩
    rw [instanceOn_ended_iff _ below, occursOn_endedBefore_iff scheduled isStart isDay after isStep
      isOther] at still
    obtain ⟨⟨other, -, -, same, inCount⟩, -⟩ := still
    rw [isEpoch] at same
    rw [scheduled.begins.strictMono_dayAt.injective same]
    exact inCount counted
  · intro inCount
    refine ⟨fun other isOther => ?_, fun other isOther before => occurrenceOf_ended _ before⟩
    rw [instanceOn_iff isRepeat]
    constructor
    · intro still
      have endedOccurs : occursOn (endedBefore rule day (step - opening)) other = true := by
        rw [@instanceOn_iff _ _ _ (endedBefore rule day (step - opening)) _ (by simp [ended])]
          at still
        exact still.1
      obtain ⟨earlier, opened, before, same, -⟩ :=
        (occursOn_endedBefore_iff scheduled isStart isDay after isStep isOther).1 endedOccurs
      obtain ⟨occursOther, below⟩ := (occursOn_before_iff scheduled isDay isStep occurs isOther).2
        ⟨earlier, opened, before, same⟩
      rw [instanceOn_ended_iff _ below] at still
      exact ⟨⟨occursOther, still.2⟩, below⟩
    · rintro ⟨⟨occursOther, notExcluded⟩, below⟩
      obtain ⟨earlier, opened, before, same⟩ :=
        (occursOn_before_iff scheduled isDay isStep occurs isOther).1 ⟨occursOther, below⟩
      rw [instanceOn_ended_iff _ below, occursOn_endedBefore_iff scheduled isStart isDay after
        isStep isOther]
      refine ⟨⟨earlier, opened, before, same, fun counted => ?_⟩, notExcluded⟩
      have isKey : keyOfEpoch ((compileRepeat rule).dayAt earlier) = other := by
        rw [← same, isOther.keyOfEpoch_epochDays]
      have counts := inCount earlier opened before counted
      rw [isKey, notExcluded] at counts
      exact counts.resolve_left Bool.false_ne_true

/-- Only the last day before can be lost, and only when the first day is not numbered first. -/
theorem keepsPast_iff [LawfulItem T]
    (isRepeat : Item.repeatRule item = some rule) (valid : validateRepeat rule = none)
    (scheduled : Scheduled rule opening) (isStart : RealDay rule.startDay) (isDay : RealDay day)
    (after : rule.startDay < day)
    (isStep : epochDays day = (compileRepeat rule).dayAt step)
    (occurs : occursOn rule day = true) :
    KeepsPast item day (ended item rule day (step - opening)) ↔
      rule.count = none ∨ CountsFromStart rule ∨ LastExcluded item rule day := by
  rw [keepsPast_ended_iff isRepeat scheduled isStart isDay after isStep occurs,
    lastExcluded_iff scheduled isStart isDay isStep occurs,
    ← opening_eq_skipped_iff valid isStart.isReal scheduled.opens]
  have fewLost := scheduled.opening_le valid isStart
  have notNegative := scheduled.opens.notNegative
  have isSkipped : opening = (compileRepeat rule).skipped ∨ (compileRepeat rule).skipped = 0 := by
    by_cases isWeekly : rule.kind = "weekly"
    · exact .inl ((opening_eq_skipped_iff valid isStart.isReal scheduled.opens).2 (.inl isWeekly))
    · exact .inr (if_neg isWeekly)
  constructor
  · intro inCount
    by_cases counted : rule.count = none
    · exact .inl counted
    right
    rw [or_iff_not_imp_left]
    intro notFirst some_before
    refine (inCount (step - 1) (by omega) (by omega) counted).resolve_right ?_
    omega
  · rintro conditions earlier opened before counted
    rcases conditions with notCounted | same | lastExcluded
    · exact absurd notCounted counted
    · right
      omega
    · by_cases isLast : earlier = step - 1
      · left
        rw [isLast]
        exact lastExcluded (by omega)
      · right
        omega

theorem exists_step
    (scheduled : Scheduled rule opening) (isDay : RealDay day) (occurs : occursOn rule day = true) :
    ∃ step, opening ≤ step ∧ epochDays day = (compileRepeat rule).dayAt step := by
  rw [isDay.occursOn_eq] at occurs
  obtain ⟨-, step, opened, isStep, -⟩ := scheduled.occursOnEpoch_iff.1 occurs
  exact ⟨step, opened, isStep⟩

variable {state : State} {id newId : String} {patch : ItemPatch} {rounds : Nat} {before : Int}

/-- After the first day, a split ends the series and puts a new one at the end. -/
theorem splitIn_eq
    (found : findIn (Item.itemsOf state) id = some item)
    (isRepeat : Item.repeatRule item = some rule) (notEmpty : rule.startDay.isEmpty = false)
    (after : rule.startDay < day) (counted : instancesBefore rounds rule day = some before) :
    splitIn T rounds state id day patch newId =
      let created := Item.created
        (Item.applyPatch (Item.stripSeries (ended item rule day before)) patch) newId
        (continuedFrom rule day before patch)
      some (some created, Item.withItems state
        (putFirst (Item.itemsOf state) id (ended item rule day before) ++ [created])) := by
  have notFirst : decide (day ≤ rule.startDay) = false :=
    decide_eq_false (String.not_le.2 after)
  unfold splitIn
  rw [found]
  dsimp only
  rw [isRepeat]
  dsimp only
  rw [counted, Option.map_some, notEmpty, notFirst]
  rfl

theorem truncateIn_eq
    (found : findIn (Item.itemsOf state) id = some item)
    (isRepeat : Item.repeatRule item = some rule) (notEmpty : rule.startDay.isEmpty = false)
    (after : rule.startDay < day) (counted : instancesBefore rounds rule day = some before) :
    truncateIn T rounds state id day =
      some (true, Item.withItems state
        (putFirst (Item.itemsOf state) id (ended item rule day before))) := by
  have notFirst : decide (day ≤ rule.startDay) = false :=
    decide_eq_false (String.not_le.2 after)
  unfold truncateIn
  rw [found]
  dsimp only
  rw [isRepeat]
  dsimp only
  rw [notEmpty, notFirst, counted]
  rfl

/-- Splitting and ending a series keep the days before exactly when it has no count, its first
day is numbered first, or the last day before is excluded. -/
theorem split_and_truncate_keep_past_iff
    [LawfulItem T]
    (found : findIn (Item.itemsOf state) id = some item)
    (isRepeat : Item.repeatRule item = some rule)
    (valid : validateRepeat rule = none)
    (isStart : RealDay rule.startDay)
    (isDay : RealDay day)
    (after : rule.startDay < day)
    (isInstance : instanceOn item day = true) :
    (∃ enough, ∀ rounds ≥ enough, ∃ created, ∃ split truncated : State,
      splitIn T rounds state id day patch newId = some (some created, split) ∧
        truncateIn T rounds state id day = some (true, truncated) ∧
        (∃ old : T, findIn (Item.itemsOf split) id = some old ∧ KeepsPast item day old) ∧
        ∃ old : T, findIn (Item.itemsOf truncated) id = some old ∧ KeepsPast item day old) ↔
      rule.count = none ∨ CountsFromStart rule ∨ LastExcluded item rule day := by
  obtain ⟨opening, scheduled⟩ := exists_scheduled valid isStart
  obtain ⟨occurs, -⟩ := (instanceOn_iff isRepeat).1 isInstance
  obtain ⟨step, opened, isStep⟩ := exists_step scheduled isDay occurs
  rw [← keepsPast_iff isRepeat valid scheduled isStart isDay after isStep occurs]
  have notEmpty := isEmpty_of_isReal isStart.isReal
  have occursEpoch := occurs
  rw [isDay.occursOn_eq] at occursEpoch
  obtain ⟨enough, counted⟩ :=
    instancesBefore_eq scheduled valid isStart isDay after opened isStep occursEpoch
  have sameId : Item.id (ended item rule day (step - opening)) = id := by
    rw [← id_of_findIn found]
    simp [ended]
  have isOld (others : List T) := @findIn_putFirst _ _ _ _ others _ _ found sameId
  constructor
  · rintro ⟨least, results⟩
    obtain ⟨created, split, truncated, isSplit, -, ⟨old, foundOld, keeps⟩, -⟩ :=
      results (max enough least) (Nat.le_max_right _ _)
    rw [splitIn_eq found isRepeat notEmpty after
      (counted (max enough least) (Nat.le_max_left _ _))] at isSplit
    cases isSplit
    rw [LawfulItem.itemsOf_withItems, isOld] at foundOld
    cases foundOld
    exact keeps
  · intro keeps
    refine ⟨enough, fun rounds more => ⟨_, _, _,
      splitIn_eq found isRepeat notEmpty after (counted rounds more),
      truncateIn_eq found isRepeat notEmpty after (counted rounds more), ?_, ?_⟩⟩
    · rw [LawfulItem.itemsOf_withItems]
      exact ⟨_, isOld _, keeps⟩
    · rw [LawfulItem.itemsOf_withItems]
      have isOldAlone := isOld []
      rw [List.append_nil] at isOldAlone
      exact ⟨_, isOldAlone, keeps⟩

end

/-! ## Samples -/

/-- An event with a rule and nothing else. -/
def repeatingEvent (rule : Repeat) : Event where
  id := "e"
  name := "Lesson"
  description := none
  start := "15:00"
  end_ := "16:00"
  day := none
  repeatRule := some rule
  occurrences := none
  origin := none
  instanceDay := none
  isAllDay := none
  isHoliday := none
  color := none
  remind := none
  project := none

def stateOf (event : Event) : State where
  tasks := []
  events := [event]
  budget := 600
  settings := ⟨540, 1260⟩

/-- Every Monday, six times. -/
def sixMondays : Repeat where
  kind := "weekly"
  interval := 1
  weekdays := some [1]
  monthDay := none
  startDay := "2026-10-12"
  endDay := none
  count := some 6

theorem split_and_truncate_keep_past_sixMondays :
    ∃ enough, ∀ rounds ≥ enough, ∃ created, ∃ split truncated : State,
      splitIn Event rounds (stateOf (repeatingEvent sixMondays)) "e" "2026-11-02" {} "n" =
          some (some created, split) ∧
        truncateIn Event rounds (stateOf (repeatingEvent sixMondays)) "e" "2026-11-02" =
          some (true, truncated) ∧
        (∃ old : Event, findIn (Item.itemsOf split) "e" = some old ∧
          KeepsPast (repeatingEvent sixMondays) "2026-11-02" old) ∧
        ∃ old : Event, findIn (Item.itemsOf truncated) "e" = some old ∧
          KeepsPast (repeatingEvent sixMondays) "2026-11-02" old :=
  (split_and_truncate_keep_past_iff (by decide +kernel) rfl (by decide +kernel)
    ⟨⟨2026, 10, 12⟩, by decide, by decide +kernel⟩
    ⟨⟨2026, 11, 2⟩, by decide, by decide +kernel⟩
    (by decide +kernel) (by decide +kernel)).2 (.inr (.inl (.inl rfl)))

/-- The tenth day of every month, five times from the middle of January on. -/
def fiveTenths : Repeat :=
  { tenthOfMonth with count := some 5 }

/-- The tenth of March is lost when the series is split or ends before the tenth of April. -/
theorem fiveTenths_not_kept :
    validateRepeat fiveTenths = none ∧
      instanceOn (repeatingEvent fiveTenths) "2024-04-10" = true ∧
      instanceOn (repeatingEvent fiveTenths) "2024-03-10" = true ∧
      ((splitIn Event 9 (stateOf (repeatingEvent fiveTenths)) "e" "2024-04-10" {} "n").map
        fun result => result.2.events.map fun event => instanceOn event "2024-03-10") =
          some [false, false] ∧
      ((truncateIn Event 9 (stateOf (repeatingEvent fiveTenths)) "e" "2024-04-10").map
        fun result => result.2.events.map fun event => instanceOn event "2024-03-10") =
          some [false] := by
  decide +kernel

end Parvane.Agenda
