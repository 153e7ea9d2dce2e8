import Parvane.Repeats.Compiled
import Parvane.Repeats.Months

/-!
# Expansion and the day test

Expanding a rule over a range gives the days of the range on which it occurs.
-/

namespace Parvane.Repeats

open Calendar Sweeping

namespace CompiledRepeat

variable {rule : CompiledRepeat} {start lo hi epoch : Int}

theorem occursOnEpoch_iff :
    rule.occursOnEpoch epoch = true ↔
      ∃ ordinal, rule.ordinalOfEpoch epoch = some ordinal ∧
        (rule.count.any fun count => decide (ordinal > count)) = false := by
  unfold occursOnEpoch
  cases rule.ordinalOfEpoch epoch with
  | none => simp
  | some ordinal => simp only [Bool.not_eq_true', Option.some.injEq, exists_eq_left']

/-- A day with an ordinal is not before the first one, nor after the last one. -/
theorem between_of_occursOnEpoch (occurs : rule.occursOnEpoch epoch = true) :
    (∀ first, rule.start = some first -> first ≤ epoch) ∧
      ∀ last, rule.end_ = some last -> epoch ≤ last := by
  obtain ⟨ordinal, isOrdinal, -⟩ := occursOnEpoch_iff.1 occurs
  unfold ordinalOfEpoch at isOrdinal
  rw [Option.ite_none_left_eq_some, Option.ite_none_left_eq_some, Option.ite_none_left_eq_some]
    at isOrdinal
  obtain ⟨-, notBefore, notAfter, -⟩ := isOrdinal
  constructor
  · intro first isStart
    simpa [isStart] using notBefore
  · intro last isEnd
    simpa [isEnd] using notAfter

/-- Stepping visits the days of the range on which the rule occurs. -/
theorem Steps.exists_epochs (steps : rule.Steps start lo hi) :
    ∃ rounds visited,
      sweep (rule.isLate hi) (fun candidate => decide (candidate.1 < lo)) (fun _ => false)
          (rule.halts lo hi) (rule.block start lo) rounds 0 = some visited ∧
        (visited.map Prod.fst).Pairwise (· < ·) ∧
        ∀ epoch, epoch ∈ visited.map Prod.fst ↔
          lo ≤ epoch ∧ epoch ≤ hi ∧ rule.occursOnEpoch epoch = true := by
  obtain ⟨last, late⟩ := steps.ends
  obtain ⟨rounds, visited, swept, sorted, members⟩ :=
    @InOrder.exists_sweep _ _ (fun candidate => decide (candidate.1 < lo)) _ _ _ steps.inOrder
      0 last (Nat.zero_le last) late
  refine ⟨rounds, visited, swept, ?_, fun epoch => ?_⟩
  · exact List.pairwise_map.2 (sorted.imp And.left)
  · rw [occursOnEpoch_iff, List.mem_map]
    constructor
    · rintro ⟨⟨day, ordinal⟩, member, rfl⟩
      obtain ⟨⟨round, -, inBlock⟩, notLate, notEarly⟩ := (members _).1 member
      rw [isLate, Bool.or_eq_false_iff, decide_eq_false_iff_not] at notLate
      rw [decide_eq_false_iff_not] at notEarly
      have below : day ≤ hi := by
        have notAfter := notLate.2
        dsimp only at notAfter
        omega
      exact ⟨Int.not_lt.1 notEarly, below, ordinal,
        (steps.mem_iff day ordinal (Int.not_lt.1 notEarly) below).1 ⟨round, inBlock⟩, notLate.1⟩
    · rintro ⟨above, below, ordinal, isOrdinal, counted⟩
      obtain ⟨round, inBlock⟩ := (steps.mem_iff epoch ordinal above below).2 isOrdinal
      refine ⟨(epoch, ordinal), (members _).2 ⟨⟨round, Nat.zero_le round, inBlock⟩, ?_, ?_⟩, rfl⟩
      · rw [isLate, Bool.or_eq_false_iff, decide_eq_false_iff_not]
        exact ⟨counted, Int.not_lt.2 below⟩
      · exact decide_eq_false (Int.not_lt.2 above)

/-- Every kind of rule is stepped through as its test says. -/
theorem Started.steps {start : Date}
    (started : rule.Started start) (positions : rule.kind = "weekly" -> rule.HasPositions)
    (ahead : epochOfDate start ≤ lo) (ends : ∀ last, rule.end_ = some last -> hi ≤ last) :
    rule.Steps (epochOfDate start) lo hi := by
  by_cases isWeekly : rule.kind = "weekly"
  · exact started.steps_weekly (positions isWeekly) isWeekly ahead ends
  by_cases isDaily : rule.kind = "daily"
  · exact started.steps_daily isDaily ahead ends
  by_cases isMonthly : rule.kind = "monthly"
  · exact started.steps_monthly isMonthly ahead ends
  · exact started.steps_yearly isWeekly isDaily isMonthly ahead ends

/-- Without a first day, a week has the days of the mask, and all of them are the first. -/
theorem occursOnEpoch_unbounded
    (isWeekly : rule.kind = "weekly") (noStart : rule.start = none) (isValid : rule.isValid = true)
    (count : ∀ count, rule.count = some count -> 1 ≤ count)
    (ends : ∀ last, rule.end_ = some last -> epoch ≤ last) :
    rule.occursOnEpoch epoch = rule.hasWeekday (weekdayOfEpoch epoch) := by
  have inside : (rule.end_.any fun last => decide (epoch > last)) = false := by
    cases isEnd : rule.end_ with
    | none => rfl
    | some last => simpa using ends last isEnd
  have counted : (rule.count.any fun count => decide (1 > count)) = false := by
    cases isCount : rule.count with
    | none => rfl
    | some count' => simpa using count count' isCount
  unfold occursOnEpoch ordinalOfEpoch
  simp only [isValid, noStart, inside, isWeekly, Option.any_none, Option.isNone_none,
    Bool.not_true, Bool.false_eq_true, if_false, if_true]
  cases rule.hasWeekday (weekdayOfEpoch epoch) with
  | false => rfl
  | true => simp only [Bool.not_true, Bool.false_eq_true, if_false, counted, Bool.not_false]

end CompiledRepeat

/-! ## Expansion -/

/-- The last day of a range that a rule reaches. -/
def lastEpoch (rule : CompiledRepeat) (toDay : String) : Int :=
  (rule.end_.map (min (epochDays toDay))).getD (epochDays toDay)

section

variable {rule : Repeat} {rounds : Nat} {fromDay toDay : String}

theorem lastEpoch_le (rule : CompiledRepeat) (toDay : String) :
    lastEpoch rule toDay ≤ epochDays toDay ∧
      ∀ last, rule.end_ = some last -> lastEpoch rule toDay ≤ last := by
  unfold lastEpoch
  cases rule.end_ with
  | none => simp
  | some last => simp

theorem le_lastEpoch {rule : CompiledRepeat} {epoch : Int}
    (below : epoch ≤ epochDays toDay)
    (ends : ∀ last, rule.end_ = some last -> epoch ≤ last) : epoch ≤ lastEpoch rule toDay := by
  unfold lastEpoch
  cases isEnd : rule.end_ with
  | none => exact below
  | some last => exact Int.le_min.2 ⟨below, ends last isEnd⟩

theorem expandRepeat_started {start : Int}
    (isStart : (compileRepeat rule).start = some start)
    (isValid : (compileRepeat rule).isValid = true)
    (le : fromDay ≤ toDay) :
    expandRepeat rounds rule fromDay toDay =
      let lo := max (epochDays fromDay) start
      let hi := lastEpoch (compileRepeat rule) toDay
      if lo > hi then some []
      else
        (sweep ((compileRepeat rule).isLate hi) (fun candidate => decide (candidate.1 < lo))
          (fun _ => false) ((compileRepeat rule).halts lo hi)
          ((compileRepeat rule).block start lo) rounds 0).map
            (List.map fun candidate => keyOfEpoch candidate.1) := by
  unfold expandRepeat forEachRepeatDay
  dsimp only
  rw [isValid, decide_eq_false (String.not_lt.2 le), Bool.not_true, Bool.or_false,
    if_neg Bool.false_ne_true, isStart]
  rfl

theorem expandRepeat_unbounded
    (noStart : (compileRepeat rule).start = none)
    (isValid : (compileRepeat rule).isValid = true)
    (isWeekly : (compileRepeat rule).kind = "weekly")
    (le : fromDay ≤ toDay) :
    expandRepeat rounds rule fromDay toDay =
      let lo := epochDays fromDay
      let hi := lastEpoch (compileRepeat rule) toDay
      some
        ((((List.range (hi - lo + 1).toNat).map fun (day : Nat) => lo + day).filter fun epoch =>
          (compileRepeat rule).hasWeekday (weekdayOfEpoch epoch)).map keyOfEpoch) := by
  unfold expandRepeat forEachRepeatDay
  dsimp only
  rw [isValid, decide_eq_false (String.not_lt.2 le), Bool.not_true, Bool.or_false,
    if_neg Bool.false_ne_true, noStart]
  have inOrder (days : Nat) : ((List.range days).map
      fun (day : Nat) => epochDays fromDay + day).Pairwise (· < ·) :=
    List.pairwise_map.2 (List.pairwise_lt_range.imp fun less => by omega)
  simp only [isWeekly, if_true, Option.map_none, Option.getD_none]
  rw [← lastEpoch]
  by_cases empty : epochDays fromDay > lastEpoch (compileRepeat rule) toDay
  · rw [if_pos empty,
      show (lastEpoch (compileRepeat rule) toDay - epochDays fromDay + 1).toNat = 0 by omega]
    rfl
  · have all := @collect_eq _ (fun _ => false)
      (fun epoch => !(compileRepeat rule).hasWeekday (weekdayOfEpoch epoch)) _
      (fun _ _ _ never => never) _
      (inOrder (lastEpoch (compileRepeat rule) toDay - epochDays fromDay + 1).toNat)
    rw [if_neg empty, all]
    simp only [Bool.not_false, Bool.not_not, Bool.true_and]

theorem isEmpty_of_start_eq_none (noStart : (compileRepeat rule).start = none) :
    rule.startDay = "" := by
  unfold compileRepeat at noStart
  dsimp only at noStart
  split at noStart
  · next isEmpty => exact String.isEmpty_iff.1 isEmpty
  · cases noStart

theorem expandRepeat_mono {more : Nat} {days : List String}
    (accepted : Accepted rule) (le : fromDay ≤ toDay)
    (done : expandRepeat rounds rule fromDay toDay = some days)
    (enough : rounds ≤ more) : expandRepeat more rule fromDay toDay = some days := by
  have isValid : (compileRepeat rule).isValid = true := decide_eq_true accepted.interval_pos
  cases isStart : (compileRepeat rule).start with
  | none =>
      have isWeekly : rule.kind = "weekly" := accepted.startDay (isEmpty_of_start_eq_none isStart)
      rwa [expandRepeat_unbounded isStart isValid isWeekly le] at done ⊢
  | some start =>
      rw [expandRepeat_started isStart isValid le] at done ⊢
      dsimp only at done ⊢
      split at done
      · next empty => rwa [if_pos empty]
      · next some_left =>
          rw [if_neg some_left]
          obtain ⟨visited, swept, isDays⟩ := Option.map_eq_some_iff.1 done
          exact Option.map_eq_some_iff.2 ⟨visited, sweep_mono swept enough, isDays⟩

/-- The days of an expansion, by their numbers. -/
theorem exists_expandRepeat
    (accepted : Accepted rule) (isStart : rule.startDay = "" ∨ RealDay rule.startDay)
    (le : fromDay ≤ toDay) :
    ∃ enough, ∃ epochs : List Int,
      expandRepeat enough rule fromDay toDay = some (epochs.map keyOfEpoch) ∧
        epochs.Pairwise (· < ·) ∧
        ∀ epoch, epoch ∈ epochs ↔
          epochDays fromDay ≤ epoch ∧ epoch ≤ epochDays toDay ∧
            (compileRepeat rule).occursOnEpoch epoch = true := by
  have isValid : (compileRepeat rule).isValid = true := decide_eq_true accepted.interval_pos
  obtain ⟨lastLe, lastEnd⟩ := lastEpoch_le (compileRepeat rule) toDay
  rcases isStart with isEmpty | ⟨start, isDay, isKey⟩
  · have noStart : (compileRepeat rule).start = none := by
      unfold compileRepeat
      rw [isEmpty]
      rfl
    have isWeekly := accepted.startDay isEmpty
    refine ⟨0, _, expandRepeat_unbounded noStart isValid isWeekly le, ?_, fun epoch => ?_⟩
    · refine List.Pairwise.filter _ (List.pairwise_map.2 ?_)
      exact List.pairwise_lt_range.imp fun less => by omega
    · have count (value : Int) (isCount : (compileRepeat rule).count = some value) : 1 ≤ value :=
        accepted.count value (Option.eq_some_of_filter_eq_some isCount)
      have unbounded := fun ends => @CompiledRepeat.occursOnEpoch_unbounded _ epoch isWeekly
        noStart isValid count ends
      rw [List.mem_filter, List.mem_map]
      constructor
      · rintro ⟨⟨day, inside, rfl⟩, weekday⟩
        rw [List.mem_range] at inside
        refine ⟨by omega, by omega, ?_⟩
        rwa [unbounded fun last isLast => by have := lastEnd last isLast; omega]
      · rintro ⟨above, below, occurs⟩
        obtain ⟨-, ends⟩ := CompiledRepeat.between_of_occursOnEpoch occurs
        have inside := le_lastEpoch below ends
        refine ⟨⟨(epoch - epochDays fromDay).toNat, List.mem_range.2 (by omega), by omega⟩, ?_⟩
        rwa [unbounded ends] at occurs
  · have started := started_compileRepeat accepted isDay isKey
    have steps := started.steps (hasPositions_compileRepeat accepted)
      (Int.le_max_right (epochDays fromDay) (epochOfDate start)) lastEnd
    obtain ⟨rounds, visited, swept, sorted, members⟩ := steps.exists_epochs
    have inRange (epoch : Int) : epoch ∈ visited.map Prod.fst ↔
        epochDays fromDay ≤ epoch ∧ epoch ≤ epochDays toDay ∧
          (compileRepeat rule).occursOnEpoch epoch = true := by
      rw [members]
      constructor
      · rintro ⟨above, below, occurs⟩
        exact ⟨by omega, by omega, occurs⟩
      · rintro ⟨above, below, occurs⟩
        obtain ⟨behind, ends⟩ := CompiledRepeat.between_of_occursOnEpoch occurs
        exact ⟨Int.max_le.2 ⟨above, behind _ started.isStart⟩, le_lastEpoch below ends, occurs⟩
    have expanded := @expandRepeat_started rule rounds fromDay toDay _ started.isStart isValid le
    dsimp only at expanded
    rw [swept] at expanded
    by_cases empty : max (epochDays fromDay) (epochOfDate start) >
        lastEpoch (compileRepeat rule) toDay
    · refine ⟨rounds, [], by rw [expanded, if_pos empty]; rfl, List.Pairwise.nil, fun epoch => ?_⟩
      rw [← inRange, members]
      refine ⟨fun member => absurd member List.not_mem_nil, fun inside => ?_⟩
      omega
    · refine ⟨rounds, visited.map Prod.fst, ?_, sorted, inRange⟩
      rw [expanded, if_neg empty, Option.map_some, List.map_map]
      rfl

end

/-! ## Texts of days -/

section

variable {first last : Date} {epoch : Int}

/-- Between two dates with years of four digits there are only such dates. -/
theorem isDay_civilFromDays
    (isFirst : IsDay first) (isLast : IsDay last) (above : epochOfDate first ≤ epoch)
    (below : epoch ≤ epochOfDate last) : IsDay (civilFromDays epoch) := by
  have isReal := (civilFromDays_spec epoch).1
  have afterFirst := monthIndex_le isFirst.isReal above
  have beforeLast : (civilFromDays epoch).monthIndex ≤ last.monthIndex := by
    rw [← civilFromDays_epochOfDate isLast.isReal]
    exact civilFromDays_monthIndex_mono below
  have low := isFirst.year_low
  have high := isLast.year_high
  have firstMonth := isFirst.isReal.month_pos
  have lastMonth := isLast.isReal.month_le
  have monthPos := isReal.month_pos
  have monthLe := isReal.month_le
  unfold Date.monthIndex at afterFirst beforeLast
  exact ⟨isReal, by omega, by omega⟩

theorem keyOf_le_iff (isFirst : IsDay first) (isLast : IsDay last) :
    keyOf first ≤ keyOf last ↔ epochOfDate first ≤ epochOfDate last := by
  rw [← String.not_lt, keyOf_lt_iff isLast isFirst, Int.not_lt]

theorem occursOn_keyOf (rule : Repeat) (isDay : IsDay first) :
    occursOn rule (keyOf first) = (compileRepeat rule).occursOnEpoch (epochOfDate first) := by
  rw [occursOn, isDayKey_keyOf isDay, epochDays_keyOf isDay, Bool.true_and]

end

/-- Expansion ends, however many rounds more it is given, and its days are those of the range
on which the rule occurs, in their order. -/
theorem expandRepeat_spec
    {rule : Repeat}
    {fromDay toDay : String}
    (valid : validateRepeat rule = none)
    (isStart : rule.startDay = "" ∨ RealDay rule.startDay)
    (isFrom : RealDay fromDay)
    (isTo : RealDay toDay)
    (le : fromDay ≤ toDay) :
    ∃ days,
      (∃ enough, ∀ rounds ≥ enough, expandRepeat rounds rule fromDay toDay = some days) ∧
        days.Pairwise (· < ·) ∧
        ∀ day, day ∈ days ↔
          RealDay day ∧ fromDay ≤ day ∧ day ≤ toDay ∧ occursOn rule day = true := by
  have accepted := accepted_of_validateRepeat valid
  obtain ⟨enough, epochs, expanded, sorted, members⟩ := exists_expandRepeat accepted isStart le
  refine ⟨epochs.map keyOfEpoch,
    ⟨enough, fun rounds more => expandRepeat_mono accepted le expanded more⟩, ?_⟩
  obtain ⟨first, isFirst, rfl⟩ := isFrom
  obtain ⟨last, isLast, rfl⟩ := isTo
  rw [epochDays_keyOf isFirst, epochDays_keyOf isLast] at members
  have isDay (epoch : Int) (member : epoch ∈ epochs) : IsDay (civilFromDays epoch) := by
    obtain ⟨above, below, -⟩ := (members epoch).1 member
    exact isDay_civilFromDays isFirst isLast above below
  constructor
  · rw [List.pairwise_map]
    refine sorted.imp_of_mem fun {epoch other} member otherMember before => ?_
    rw [keyOfEpoch, keyOfEpoch, keyOf_lt_iff (isDay epoch member) (isDay other otherMember),
      epochOfDate_civilFromDays, epochOfDate_civilFromDays]
    exact before
  · intro day
    rw [List.mem_map]
    constructor
    · rintro ⟨epoch, member, rfl⟩
      obtain ⟨above, below, occurs⟩ := (members epoch).1 member
      have isReal := isDay epoch member
      rw [keyOfEpoch, keyOf_le_iff isFirst isReal, keyOf_le_iff isReal isLast,
        occursOn_keyOf rule isReal, epochOfDate_civilFromDays]
      exact ⟨⟨_, isReal, rfl⟩, above, below, occurs⟩
    · rintro ⟨⟨date, isReal, rfl⟩, above, below, occurs⟩
      rw [keyOf_le_iff isFirst isReal] at above
      rw [keyOf_le_iff isReal isLast] at below
      rw [occursOn_keyOf rule isReal] at occurs
      exact ⟨epochOfDate date, (members _).2 ⟨above, below, occurs⟩,
        by rw [keyOfEpoch, civilFromDays_epochOfDate isReal.isReal]⟩

/-- The last day of every month, three times. -/
def lastOfMonth : Repeat where
  kind := "monthly"
  interval := 1
  weekdays := none
  monthDay := some 31
  startDay := "2024-01-31"
  endDay := none
  count := some 3

theorem expandRepeat_spec_lastOfMonth :
    ∃ days,
      (∃ enough, ∀ rounds ≥ enough,
        expandRepeat rounds lastOfMonth "2024-01-01" "2024-12-31" = some days) ∧
        days.Pairwise (· < ·) ∧
        ∀ day, day ∈ days ↔
          RealDay day ∧ "2024-01-01" ≤ day ∧ day ≤ "2024-12-31" ∧
            occursOn lastOfMonth day = true :=
  expandRepeat_spec (by decide +kernel)
    (.inr ⟨⟨2024, 1, 31⟩, ⟨⟨by decide, by decide, by decide, by decide⟩, by decide, by decide⟩,
      by decide +kernel⟩)
    ⟨⟨2024, 1, 1⟩, ⟨⟨by decide, by decide, by decide, by decide⟩, by decide, by decide⟩,
      by decide +kernel⟩
    ⟨⟨2024, 12, 31⟩, ⟨⟨by decide, by decide, by decide, by decide⟩, by decide, by decide⟩,
      by decide +kernel⟩
    (by decide +kernel)

example : expandRepeat 4 lastOfMonth "2024-01-01" "2024-12-31" =
    some ["2024-01-31", "2024-02-29", "2024-03-31"] := by
  decide +kernel

end Parvane.Repeats
