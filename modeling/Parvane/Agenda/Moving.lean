import Parvane.Agenda.Past
import Parvane.Foundation.Ranking
import Parvane.Repeats.Shift

/-!
# Series that are moved

A series by days or weeks that is moved has its days and marks moved with it.  Weeks that are
passed over are counted from the week of the new first day, so the weekdays have to pass over the
end of a week together.
-/

namespace Parvane.Agenda

open Repeats

section

variable {rule : Repeat} {day : String} {delta : Int}

/-- The rule after a move. -/
def movedRule (rule : Repeat) (delta : Int) : Repeat :=
  { shiftedBy rule delta with
    endDay :=
      match truthy rule.endDay with
      | none => rule.endDay
      | some endDay => some (addDays endDay delta)
    count := rule.count }

/-- The marks after a move, in order of their days. -/
def movedMarks (occurrences : List Occurrence) (next : Repeat) (delta : Int) : List Occurrence :=
  ((occurrences.map fun occurrence =>
      { occurrence with day := addDays occurrence.day delta }).filter fun occurrence =>
        occursOn next occurrence.day).mergeSort fun first second =>
          decide (first.day ≤ second.day)

theorem end_movedRule
    (movableEnd : ∀ endDay, truthy rule.endDay = some endDay -> Movable endDay delta) :
    (truthy (movedRule rule delta).endDay).map epochDays =
      (compileRepeat rule).end_.map fun last => last + delta := by
  have isEnd : (compileRepeat rule).end_ = (truthy rule.endDay).map epochDays := rfl
  rw [isEnd, movedRule]
  cases isGiven : truthy rule.endDay with
  | none =>
      dsimp only
      rw [isGiven]
      rfl
  | some endDay =>
      obtain ⟨isDay, isEpoch⟩ := (movableEnd endDay isGiven).realDay
      have notEmpty := isEmpty_of_isReal isDay.isReal
      dsimp only
      rw [addDays, truthy, Option.filter_some, notEmpty, Bool.not_false, if_pos rfl,
        Option.map_some, Option.map_some, Option.map_some, isEpoch]

theorem occursOn_movedRule
    (valid : validateRepeat rule = none) (movable : Movable rule.startDay delta)
    (movableEnd : ∀ endDay, truthy rule.endDay = some endDay -> Movable endDay delta)
    (keepsWeeks : KeepsWeeks rule delta) (movableDay : Movable day delta) :
    occursOn (movedRule rule delta) (addDays day delta) = occursOn rule day := by
  obtain ⟨isDay, isEpoch⟩ := movableDay.realDay
  have compiled : compileRepeat (movedRule rule delta) =
      (compileRepeat (shiftedBy rule delta)).withEnd
        ((truthy (movedRule rule delta).endDay).map epochDays) (compileRepeat rule).count :=
    compileRepeat_withEnd (shiftedBy rule delta) _ _
  rw [addDays, isDay.occursOn_eq, movableDay.1.occursOn_eq, isEpoch, compiled,
    end_movedRule movableEnd, Bool.eq_iff_iff, occursOnEpoch_shiftedBy_iff valid movable keepsWeeks]

theorem addDays_inj {other : String}
    (movable : Movable day delta) (movableOther : Movable other delta) :
    addDays day delta = addDays other delta ↔ day = other := by
  constructor
  · intro same
    have epochs := congrArg epochDays same
    rw [addDays, addDays, movable.realDay.2, movableOther.realDay.2] at epochs
    exact movable.1.injective movableOther.1 (by omega)
  · rintro rfl
    rfl

/-- A mark of a day of the rule is found on the moved day. -/
theorem find?_movedMarks {occurrences : List Occurrence} {next : Repeat}
    (movableMarks : ∀ occurrence ∈ occurrences, Movable occurrence.day delta)
    (movableDay : Movable day delta)
    (occurs : occursOn next (addDays day delta) = true) :
    (movedMarks occurrences next delta).find? (fun occurrence =>
        occurrence.day == addDays day delta) =
      (occurrences.find? fun occurrence => occurrence.day == day).map fun occurrence =>
        { occurrence with day := addDays day delta } := by
  unfold movedMarks
  rw [Sorting.find?_mergeSort]
  case transitive =>
    intro first second third firstLe secondLe
    exact decide_eq_true (String.le_trans (of_decide_eq_true firstLe) (of_decide_eq_true secondLe))
  case total =>
    intro first second
    simpa using String.le_total first.day second.day
  case tied =>
    intro first second isFirst isSecond
    rw [beq_iff_eq] at isFirst isSecond
    simp [isFirst, isSecond]
  rw [List.find?_filter, List.find?_map]
  trans (occurrences.find? fun occurrence => occurrence.day == day).map fun occurrence =>
    { occurrence with day := addDays occurrence.day delta }
  · apply congrArg (Option.map _)
    rw [← List.head?_filter, ← List.head?_filter]
    apply congrArg List.head?
    apply List.filter_congr
    intro occurrence member
    have sameDay := addDays_inj (movableMarks occurrence member) movableDay
    rw [Function.comp_apply]
    by_cases isDay : occurrence.day = day
    · simp [isDay, occurs]
    · simp [isDay, sameDay]
  cases isFound : occurrences.find? fun occurrence => occurrence.day == day with
  | none => rw [Option.map_none, Option.map_none]
  | some occurrence =>
      have isDay : occurrence.day = day := by simpa using List.find?_some isFound
      rw [Option.map_some, Option.map_some, isDay]

end

section

variable {T : Type} [Item T] {item updated : T} {rule : Repeat} {day : String} {delta : Int}

/-- A series after a move. -/
def movedItem (item : T) (rule : Repeat) (delta : Int) : T :=
  Item.withRepeat
    (Item.withOccurrences item
      ((Item.occurrences item).map fun occurrences =>
        movedMarks occurrences (movedRule rule delta) delta))
    (some (movedRule rule delta))

theorem repeatRule_movedItem [LawfulItem T] :
    Item.repeatRule (movedItem item rule delta) = some (movedRule rule delta) :=
  LawfulItem.repeatRule_withRepeat _ _

/-- A rule by days or weeks moves by the number of days. -/
theorem shiftSeries_eq
    (byDays : rule.kind = "daily" ∨ rule.kind = "weekly") (notEmpty : rule.startDay.isEmpty = false)
    (rounds : Nat) (fromDay toDay : String) :
    shiftSeries rounds item rule fromDay toDay =
      some (movedItem item rule (epochDays toDay - epochDays fromDay)) := by
  have notMonthly : rule.kind ≠ "monthly" := by
    rcases byDays with isKind | isKind <;> rw [isKind] <;> decide
  have notYearly : rule.kind ≠ "yearly" := by
    rcases byDays with isKind | isKind <;> rw [isKind] <;> decide
  unfold shiftSeries movedItem
  simp only [notMonthly, notYearly, notEmpty, decide_false, Bool.or_self, Bool.false_eq_true,
    if_false]
  cases isEnd : truthy rule.endDay with
  | none =>
      simp only [movedRule, isEnd]
      rfl
  | some endDay =>
      simp only [movedRule, isEnd]
      rfl

/-- A series that is moved has the moved days, and its marks on the days of the rule move. -/
structure MovesBy (delta : Int) (rule : Repeat) (item updated : T) : Prop where
  instances : ∀ day, Movable day delta ->
    instanceOn updated (addDays day delta) = instanceOn item day
  marks : ∀ day, Movable day delta -> occursOn rule day = true ->
    occurrenceOf updated (addDays day delta) =
      (occurrenceOf item day).map fun occurrence =>
        { occurrence with day := addDays day delta }

theorem movesBy_movedItem [LawfulItem T]
    (isRepeat : Item.repeatRule item = some rule) (valid : validateRepeat rule = none)
    (movable : Movable rule.startDay delta)
    (movableEnd : ∀ endDay, truthy rule.endDay = some endDay -> Movable endDay delta)
    (movableMarks : ∀ occurrence ∈ (Item.occurrences item).getD [], Movable occurrence.day delta)
    (keepsWeeks : KeepsWeeks rule delta) : MovesBy delta rule item (movedItem item rule delta) := by
  have marks (day : String) (movableDay : Movable day delta) (occurs : occursOn rule day = true) :
      occurrenceOf (movedItem item rule delta) (addDays day delta) =
        (occurrenceOf item day).map fun occurrence =>
          { occurrence with day := addDays day delta } := by
    have occursMoved := occursOn_movedRule valid movable movableEnd keepsWeeks movableDay
    rw [occurs] at occursMoved
    unfold occurrenceOf movedItem
    rw [LawfulItem.occurrences_withRepeat, LawfulItem.occurrences_withOccurrences]
    cases isGiven : Item.occurrences item with
    | none => rfl
    | some occurrences =>
        rw [isGiven] at movableMarks
        exact find?_movedMarks movableMarks movableDay occursMoved
  refine ⟨fun day movableDay => ?_, marks⟩
  rw [Bool.eq_iff_iff, instanceOn_iff isRepeat, instanceOn_iff repeatRule_movedItem,
    occursOn_movedRule valid movable movableEnd keepsWeeks movableDay]
  apply and_congr_right
  intro occurs
  rw [marks day movableDay occurs]
  cases occurrenceOf item day with
  | none => rfl
  | some occurrence => rfl

theorem occurrenceOf_congr
    (sameMarks : Item.occurrences updated = Item.occurrences item)
    (day : String) : occurrenceOf updated day = occurrenceOf item day := by
  unfold occurrenceOf
  rw [sameMarks]

theorem instanceOn_congr
    (sameRule : Item.repeatRule updated = Item.repeatRule item)
    (sameMarks : Item.occurrences updated = Item.occurrences item)
    (day : String) : instanceOn updated day = instanceOn item day := by
  unfold instanceOn
  rw [sameRule, occurrenceOf_congr sameMarks]

/-- Nothing moves by no days. -/
theorem movesBy_zero
    (sameRule : Item.repeatRule updated = Item.repeatRule item)
    (sameMarks : Item.occurrences updated = Item.occurrences item)
    (rule : Repeat) : MovesBy 0 rule item updated := by
  have stays (day : String) (movable : Movable day 0) : addDays day 0 = day := by
    rw [addDays, Int.add_zero, movable.1.keyOfEpoch_epochDays]
  constructor
  case instances =>
    intro day movable
    rw [stays day movable, instanceOn_congr sameRule sameMarks]
  case marks =>
    intro day movable _
    rw [stays day movable, occurrenceOf_congr sameMarks]
    cases isFound : occurrenceOf item day with
    | none => rfl
    | some occurrence =>
        have isDay : occurrence.day = day := by simpa using List.find?_some isFound
        rw [Option.map_some, ← isDay]

variable {state : State} {id fromDay toDay : String} {patch : ItemPatch}

/-- All fields but the day and the rule are written to a series before it moves. -/
def written (item : T) (patch : ItemPatch) : T :=
  Item.applyPatch item { patch with day := none, repeatRule := none }

theorem updateIn_eq
    (found : findIn (Item.itemsOf state) id = some item)
    (isRepeat : Item.repeatRule item = some rule) (isTarget : RealDay toDay)
    (toTarget : patch.day = some (some toDay))
    (isDelta : delta = epochDays toDay - epochDays fromDay)
    (notEmpty : rule.startDay.isEmpty = false) (byDays : rule.kind = "daily" ∨ rule.kind = "weekly")
    (rounds : Nat) :
    updateIn T rounds state id fromDay patch =
      let updated := if toDay = fromDay then written item patch
        else movedItem (written item patch) rule delta
      some (some updated, Item.withItems state (putFirst (Item.itemsOf state) id updated)) := by
  have isTruthy : truthy (patch.day.getD none) = some toDay := by
    rw [toTarget, Option.getD_some, truthy, Option.filter_some, isEmpty_of_isReal isTarget.isReal,
      Bool.not_false, if_pos rfl]
  unfold updateIn
  rw [found]
  dsimp only
  rw [isRepeat]
  dsimp only
  rw [isTruthy]
  dsimp only
  rw [shiftSeries_eq byDays notEmpty, ← isDelta]
  split <;> rfl

/-- A series by days or weeks moves by the days between two days when its weekdays pass over the
end of a week together with its first day. -/
theorem updateIn_moves
    [LawfulItem T]
    (found : findIn (Item.itemsOf state) id = some item)
    (isRepeat : Item.repeatRule item = some rule)
    (valid : validateRepeat rule = none)
    (isTarget : RealDay toDay)
    (toTarget : patch.day = some (some toDay))
    (isDelta : delta = epochDays toDay - epochDays fromDay)
    (movable : Movable rule.startDay delta)
    (movableEnd : ∀ endDay, truthy rule.endDay = some endDay -> Movable endDay delta)
    (movableMarks : ∀ occurrence ∈ (Item.occurrences item).getD [], Movable occurrence.day delta)
    (keepsWeeks : KeepsWeeks rule delta)
    (rounds : Nat) :
    ∃ updated : T, ∃ next : State,
      updateIn T rounds state id fromDay patch = some (some updated, next) ∧
        findIn (Item.itemsOf next) id = some updated ∧ MovesBy delta rule item updated := by
  have sameRule : Item.repeatRule (written item patch) = Item.repeatRule item := by
    simp [written, patchedRepeat]
  have sameMarks : Item.occurrences (written item patch) = Item.occurrences item := by
    simp [written]
  have sameId : Item.id (written item patch) = id := by
    rw [← id_of_findIn found]
    simp [written]
  have byDays : rule.kind = "daily" ∨ rule.kind = "weekly" := keepsWeeks.imp_right And.left
  have isOld (next : T) (isNext : Item.id next = id) :
      findIn (Item.itemsOf (Item.withItems state (putFirst (Item.itemsOf state) id next))) id =
        some next := by
    have isFirst := @findIn_putFirst _ _ _ (Item.itemsOf state) [] id next found isNext
    rw [List.append_nil] at isFirst
    rw [LawfulItem.itemsOf_withItems]
    exact isFirst
  rw [updateIn_eq found isRepeat isTarget toTarget isDelta (isEmpty_of_isReal movable.1.isReal)
    byDays]
  by_cases stays : toDay = fromDay
  · rw [if_pos stays]
    refine ⟨_, _, rfl, isOld _ sameId, ?_⟩
    rw [isDelta, stays, Int.sub_self]
    exact movesBy_zero sameRule sameMarks rule
  · have sameMoved : Item.id (movedItem (written item patch) rule delta) = id := by
      rw [← sameId]
      simp [movedItem]
    have writtenMarks : ∀ occurrence ∈ (Item.occurrences (written item patch)).getD [],
        Movable occurrence.day delta := by
      rw [sameMarks]
      exact movableMarks
    have moves := movesBy_movedItem (sameRule.trans isRepeat) valid movable movableEnd
      writtenMarks keepsWeeks
    rw [if_neg stays]
    refine ⟨_, _, rfl, isOld _ sameMoved, ?_⟩
    constructor
    case instances =>
      intro day movableDay
      rw [moves.instances day movableDay, instanceOn_congr sameRule sameMarks]
    case marks =>
      intro day movableDay occurs
      rw [moves.marks day movableDay occurs, occurrenceOf_congr sameMarks]

end

theorem updateIn_moves_sixMondays :
    ∃ updated : Event, ∃ next : State,
      updateIn Event 6 (stateOf (repeatingEvent sixMondays)) "e" "2026-10-12"
          { day := some (some "2026-10-15") } = some (some updated, next) ∧
        findIn (Item.itemsOf next) "e" = some updated ∧
        MovesBy 3 sixMondays (repeatingEvent sixMondays) updated := by
  have found : findIn (Item.itemsOf (stateOf (repeatingEvent sixMondays))) "e" =
      some (repeatingEvent sixMondays) := by
    decide +kernel
  exact updateIn_moves found rfl (by decide +kernel)
    ⟨⟨2026, 10, 15⟩, by decide, by decide +kernel⟩ rfl (by decide +kernel)
    ⟨⟨⟨2026, 10, 12⟩, by decide, by decide +kernel⟩, by decide +kernel⟩
    (fun endDay isEnd => absurd isEnd (by simp [sixMondays, truthy]))
    (by simp [repeatingEvent, Item.occurrences]) (by decide +kernel) 6

/-- Mondays and Sundays of every second week. -/
def everySecondWeek : Repeat where
  kind := "weekly"
  interval := 2
  weekdays := some [1, 0]
  monthDay := none
  startDay := "2026-10-12"
  endDay := none
  count := none

/-- Moved by a day, the Sunday of the first week is in a week that is passed over. -/
theorem everySecondWeek_loses_day :
    validateRepeat everySecondWeek = none ∧
      instanceOn (repeatingEvent everySecondWeek) "2026-10-18" = true ∧
      addDays "2026-10-18" 1 = "2026-10-19" ∧
      ∀ rounds, ∃ updated : Event, ∃ next : State,
        updateIn Event rounds (stateOf (repeatingEvent everySecondWeek)) "e" "2026-10-12"
            { day := some (some "2026-10-13") } = some (some updated, next) ∧
          instanceOn updated "2026-10-19" = false := by
  have found : findIn (Item.itemsOf (stateOf (repeatingEvent everySecondWeek))) "e" =
      some (repeatingEvent everySecondWeek) := by
    decide +kernel
  have valid : validateRepeat everySecondWeek = none := by decide +kernel
  have movedValid : validateRepeat (movedRule everySecondWeek 1) = none := by decide +kernel
  have isStart : RealDay "2026-10-12" := ⟨⟨2026, 10, 12⟩, by decide, by decide +kernel⟩
  have isMoved : RealDay "2026-10-13" := ⟨⟨2026, 10, 13⟩, by decide, by decide +kernel⟩
  have isSunday : RealDay "2026-10-18" := ⟨⟨2026, 10, 18⟩, by decide, by decide +kernel⟩
  have isMonday : RealDay "2026-10-19" := ⟨⟨2026, 10, 19⟩, by decide, by decide +kernel⟩
  have isDelta : 1 = epochDays "2026-10-13" - epochDays "2026-10-12" := by decide +kernel
  refine ⟨valid, ?_, by decide +kernel, fun rounds => ⟨_, _,
    updateIn_eq found rfl isMoved rfl isDelta (by decide +kernel) (.inr rfl) rounds, ?_⟩⟩
  · rw [instanceOn_iff (show Item.repeatRule (repeatingEvent everySecondWeek) =
      some everySecondWeek from rfl), occursOn_weekly_iff valid isStart isSunday rfl rfl rfl]
    decide +kernel
  · have notHere : ¬occursOn (movedRule everySecondWeek 1) "2026-10-19" = true := by
      rw [occursOn_weekly_iff movedValid isMoved isMonday rfl rfl rfl]
      decide +kernel
    rw [if_neg (by decide), Bool.eq_false_iff, ne_eq,
      instanceOn_iff repeatRule_movedItem]
    exact fun isInstance => notHere isInstance.1

end Parvane.Agenda
