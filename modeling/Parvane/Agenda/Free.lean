import Parvane.Agenda.Past
import Parvane.Agenda.Timed
import Parvane.Foundation.Gaps
import Parvane.Repeats.Shift

/-!
# Free time

What is left of a day between its things with a time, and the next starts at which a task fits.
The first is swept over merged spans, the second over the spans as they are.
-/

namespace Parvane.Agenda

open Repeats Gaps

def slotSearchDays : Nat :=
  7

def slotAnswers : Nat :=
  3

/-- Minutes of a day. -/
abbrev Slot :=
  Span Int

structure BusyGroup where
  start : Int
  end_ : Int
  items : List Timed

structure DayAvailability where
  free : List Slot
  groups : List BusyGroup
  freeMinutes : Int

structure SlotAnswer where
  day : String
  start : String
  end_ : String
  deriving DecidableEq

def spanOf (item : Timed) : Slot :=
  ⟨toMinutes item.start, toMinutes item.end_⟩

/-- Put something into the last group, or into a new one when that has ended. -/
def groupInto (groups : List BusyGroup) (item : Timed) : List BusyGroup :=
  let span := spanOf item
  let groups :=
    if groups.getLast?.all fun group => decide (span.start ≥ group.end_) then
      groups ++ [⟨span.start, span.stop, []⟩]
    else groups
  match groups.getLast? with
  | none => groups
  | some group =>
      groups.dropLast ++
        [{ group with items := group.items ++ [item], end_ := max group.end_ span.stop }]

def getDayAvailability (state : State) (day : String) : DayAvailability :=
  let dayStart := state.settings.dayStart
  let dayEnd := state.settings.dayEnd
  let timed := getTimedForDay state day none
  let clipped := (timed.map spanOf).filterMap (clip dayStart dayEnd)
  let busy := (sortSpans clipped).foldl mergeInto []
  let free := gapsFrom dayEnd dayStart busy
  { free := free
    groups := timed.foldl groupInto []
    freeMinutes := free.foldl (fun minutes slot => minutes + (slot.stop - slot.start)) 0 }

/-! ## Searching -/

/-- The day from which on is searched. -/
def baseDay (task : Task) (today picked : String) : String :=
  let base := if today ≤ picked then picked else today
  match truthy task.day with
  | none => base
  | some day => if today ≤ day then day else base

def isAfterDue (task : Task) (day : String) : Bool :=
  (truthy task.due).any fun due => decide (due < day)

/-- The load of a day with the task, which is not counted twice on its own day. -/
def loadWith (state : State) (task : Task) (minutes : Int) (day : String) : Int :=
  let ownLoad := if task.day = some day then minutes else 0
  getDayLoad state day - ownLoad + minutes

/-- The first start on a day at which the task fits. -/
def slotOn (state : State) (task : Task) (minutes : Int) (day : String) : Option SlotAnswer :=
  let dayStart := state.settings.dayStart
  let dayEnd := state.settings.dayEnd
  if loadWith state task minutes day > state.budget then none
  else
    let others := getTimedForDay state day (some (instanceKey task))
    let busy := sortSpans ((others.map spanOf).filterMap (clip dayStart dayEnd))
    (firstFit minutes dayStart (busy ++ [⟨dayEnd, dayEnd⟩])).map fun cursor =>
      ⟨day, toTime cursor, toTime (cursor + minutes)⟩

def searchDays (state : State) (task : Task) (minutes : Int) (base : String)
    (offsets : List Nat) (answers : List SlotAnswer) : List SlotAnswer :=
  match offsets with
  | [] => answers
  | offset :: rest =>
      if answers.length < slotAnswers then
        let day := addDays base offset
        if isAfterDue task day then answers
        else
          searchDays state task minutes base rest
            (answers ++ (slotOn state task minutes day).toList)
      else answers

def findSlots (state : State) (task : Task) (today picked : String) : List SlotAnswer :=
  match task.minutes.filter fun minutes => minutes != 0 with
  | none => []
  | some minutes =>
      searchDays state task minutes (baseDay task today picked) (List.range slotSearchDays) []

/-! ## What is left of a day -/

section

variable {state : State} {day : String} {minute : Int}

/-- Something of a list is over a minute. -/
def Busy (timed : List Timed) (minute : Int) : Prop :=
  ∃ item ∈ timed, (spanOf item).Covers minute

theorem covered_map_spanOf {timed : List Timed} :
    Covered (timed.map spanOf) minute ↔ Busy timed minute := by
  unfold Covered Busy
  simp only [List.mem_map, exists_exists_and_eq_and]

/-- The spans between the ends of a day, in order. -/
theorem ordered_clipped (timed : List Timed) (dayStart dayEnd : Int) :
    Ordered (sortSpans ((timed.map spanOf).filterMap (clip dayStart dayEnd))) :=
  ordered_sortSpans fun _ member => (bounds_of_mem_clip member).2.1

theorem stop_le_of_mem {timed : List Timed} {dayStart dayEnd : Int} {span : Slot}
    (member : span ∈ sortSpans ((timed.map spanOf).filterMap (clip dayStart dayEnd))) :
    span.stop ≤ dayEnd :=
  (bounds_of_mem_clip ((sortSpans_perm _).mem_iff.1 member)).2.2

theorem covered_clipped {timed : List Timed} {dayStart dayEnd : Int} :
    Covered (sortSpans ((timed.map spanOf).filterMap (clip dayStart dayEnd))) minute ↔
      dayStart ≤ minute ∧ minute < dayEnd ∧ Busy timed minute := by
  rw [covered_perm (sortSpans_perm _), covered_filterMap_clip, covered_map_spanOf]

/-- The free slots of a day: in order and apart from each other, between the ends of the day, and
exactly where nothing is. -/
structure IsFree (state : State) (day : String) (availability : DayAvailability) : Prop where
  inside : ∀ slot ∈ availability.free,
    state.settings.dayStart ≤ slot.start ∧ slot.start < slot.stop ∧
      slot.stop ≤ state.settings.dayEnd
  apart : availability.free.Pairwise fun first second => first.stop < second.start
  covered : ∀ minute, state.settings.dayStart ≤ minute -> minute < state.settings.dayEnd ->
    (Covered availability.free minute ↔ ¬Busy (getTimedForDay state day none) minute)
  total : availability.freeMinutes =
    (availability.free.map fun slot => slot.stop - slot.start).sum

theorem foldl_minutes (slots : List Slot) (minutes : Int) :
    slots.foldl (fun minutes slot => minutes + (slot.stop - slot.start)) minutes =
      minutes + (slots.map fun slot => slot.stop - slot.start).sum := by
  induction slots generalizing minutes with
  | nil => simp
  | cons slot rest inductionHypothesis =>
      rw [List.foldl_cons, inductionHypothesis, List.map_cons, List.sum_cons, add_assoc]

theorem getDayAvailability_isFree (state : State) (day : String) :
    IsFree state day (getDayAvailability state day) := by
  have merged := merged_foldl (ordered_clipped (getTimedForDay state day none)
    state.settings.dayStart state.settings.dayEnd)
  have inside : ∀ slot ∈ (sortSpans (((getTimedForDay state day none).map spanOf).filterMap
      (clip state.settings.dayStart state.settings.dayEnd))).foldl mergeInto [],
        slot.stop ≤ state.settings.dayEnd := by
    intro slot member
    obtain ⟨span, isSpan, same⟩ := merged.stops slot member
    rw [same]
    exact stop_le_of_mem isSpan
  constructor
  case inside => exact fun slot member => bounds_of_mem_gapsFrom merged.ordered inside member
  case apart => exact pairwise_gapsFrom merged.ordered inside
  case covered =>
    intro minute above below
    refine (covered_gapsFrom merged.ordered inside).trans ?_
    rw [merged.covered, covered_clipped]
    simp only [above, below, true_and]
  case total =>
    have total := foldl_minutes (getDayAvailability state day).free 0
    rw [zero_add] at total
    exact total

end

/-! ## Where a task fits -/

section

variable {state : State} {task : Task} {minutes : Int} {base day : String}
  {answer : SlotAnswer} {answers : List SlotAnswer} {offsets : List Nat} {offset : Nat}

/-- A task fits at a start: within the working day, and over nothing else of the day. -/
def FitsOn (state : State) (task : Task) (minutes : Int) (day : String) (start : Int) : Prop :=
  state.settings.dayStart ≤ start ∧ start + minutes ≤ state.settings.dayEnd ∧
    ∀ minute, start ≤ minute -> minute < start + minutes ->
      ¬Busy (getTimedForDay state day (some (instanceKey task))) minute

/-- A day is right for a task, which fits there at a start and not before. -/
structure IsAnswer
    (state : State) (task : Task) (minutes : Int) (day : String) (answer : SlotAnswer) : Prop where
  budget : loadWith state task minutes day ≤ state.budget
  earliest : ∃ start, IsLeast {start | FitsOn state task minutes day start} start ∧
    answer = ⟨day, toTime start, toTime (start + minutes)⟩

/-- The times of an answer are read as the minutes they were made of. -/
theorem IsAnswer.times
    (isAnswer : IsAnswer state task minutes day answer) (positive : 0 < minutes)
    (notNegative : 0 ≤ state.settings.dayStart) (small : state.settings.dayEnd < 6000) :
    IsLeast {start | FitsOn state task minutes day start} (toMinutes answer.start) ∧
      toMinutes answer.end_ = toMinutes answer.start + minutes := by
  obtain ⟨-, start, isLeast, rfl⟩ := isAnswer
  obtain ⟨above, below, -⟩ := isLeast.1
  dsimp only
  rw [toMinutes_toTime (by omega) (by omega), toMinutes_toTime (by omega) (by omega)]
  exact ⟨isLeast, rfl⟩

theorem fitsOn_iff {start : Int} :
    FitsOn state task minutes day start ↔
      state.settings.dayStart ≤ start ∧
        Fits (sortSpans (((getTimedForDay state day (some (instanceKey task))).map spanOf).filterMap
          (clip state.settings.dayStart state.settings.dayEnd)))
          state.settings.dayEnd minutes start := by
  unfold FitsOn Fits
  refine and_congr_right fun above => and_congr_right fun below => ?_
  constructor
  · intro free minute after before covered
    exact free minute after before (covered_clipped.1 covered).2.2
  · intro free minute after before busy
    exact free minute after before (covered_clipped.2 ⟨by omega, by omega, busy⟩)

theorem slotOn_spec (positive : 0 < minutes) :
    (∀ answer, slotOn state task minutes day = some answer ->
        IsAnswer state task minutes day answer) ∧
      (slotOn state task minutes day = none ->
        state.budget < loadWith state task minutes day ∨
          ∀ start, ¬FitsOn state task minutes day start) := by
  obtain ⟨found, notFound⟩ := @firstFit_spec minutes state.settings.dayEnd
    state.settings.dayStart _ positive
    (ordered_clipped (getTimedForDay state day (some (instanceKey task))) _ _)
    fun span member => stop_le_of_mem member
  unfold slotOn
  dsimp only
  split
  case isTrue exceeded => exact ⟨fun answer isSome => (by cases isSome), fun _ => .inl exceeded⟩
  case isFalse enough =>
    constructor
    · intro answer isSome
      obtain ⟨start, isStart, rfl⟩ := Option.map_eq_some_iff.1 isSome
      have isLeast := found start isStart
      simp only [← fitsOn_iff] at isLeast
      exact ⟨Int.not_lt.1 enough, start, isLeast, rfl⟩
    · intro isNone
      refine .inr fun start fits => ?_
      obtain ⟨above, fits⟩ := fitsOn_iff.1 fits
      exact notFound (Option.map_eq_none_iff.1 isNone) start above fits

/-! ## Answers -/

theorem prefix_searchDays : answers <+: searchDays state task minutes base offsets answers := by
  induction offsets generalizing answers with
  | nil => exact List.prefix_refl _
  | cons offset rest inductionHypothesis =>
      rw [searchDays]
      split
      case isTrue =>
        dsimp only
        split
        case isTrue => exact List.prefix_refl _
        case isFalse => exact (List.prefix_append _ _).trans inductionHypothesis
      case isFalse => exact List.prefix_refl _

/-- Every answer is the answer of a searched day that is not after the due one. -/
theorem exists_of_mem_searchDays
    (member : answer ∈ searchDays state task minutes base offsets answers) :
    answer ∈ answers ∨ ∃ offset ∈ offsets, isAfterDue task (addDays base offset) = false ∧
      slotOn state task minutes (addDays base offset) = some answer := by
  induction offsets generalizing answers with
  | nil => exact .inl member
  | cons offset rest inductionHypothesis =>
      rw [searchDays] at member
      split at member
      case isTrue =>
        dsimp only at member
        split at member
        case isTrue => exact .inl member
        case isFalse inTime =>
          rcases inductionHypothesis member with isAnswer | ⟨later, isLater, rest⟩
          · rcases List.mem_append.1 isAnswer with isOld | isNew
            · exact .inl isOld
            · exact .inr ⟨offset, List.mem_cons_self, Bool.not_eq_true _ ▸ inTime,
                Option.mem_toList.1 isNew⟩
          · exact .inr ⟨later, List.mem_cons_of_mem _ isLater, rest⟩
      case isFalse => exact .inl member

theorem day_of_slotOn (isSome : slotOn state task minutes day = some answer) :
    answer.day = day := by
  unfold slotOn at isSome
  dsimp only at isSome
  split at isSome
  case isTrue => cases isSome
  case isFalse =>
    obtain ⟨start, -, rfl⟩ := Option.map_eq_some_iff.1 isSome
    rfl

theorem isAfterDue_of_le {later : String}
    (afterDue : isAfterDue task day = true)
    (ordered : day ≤ later) : isAfterDue task later = true := by
  obtain ⟨due, isDue, after⟩ := (Option.any_eq_true _ _).1 afterDue
  have stillAfter : due < later := String.not_le.1 fun before =>
    String.not_le.2 (of_decide_eq_true after) (String.le_trans ordered before)
  exact (Option.any_eq_true _ _).2 ⟨due, isDue, decide_eq_true stillAfter⟩

/-- A searched day without an answer before the third one has none. -/
theorem slotOn_eq_none
    (increasing : offsets.Pairwise fun (first second : Nat) =>
      addDays base first < addDays base second)
    (behind : ∀ answer ∈ answers, ∀ offset ∈ offsets, answer.day < addDays base offset)
    (member : offset ∈ offsets)
    (inTime : isAfterDue task (addDays base offset) = false)
    (noAnswer : ∀ answer ∈ searchDays state task minutes base offsets answers,
      answer.day ≠ addDays base offset)
    (precedes : ∀ third, (searchDays state task minutes base offsets answers)[2]? = some third ->
      addDays base offset < third.day) :
    slotOn state task minutes (addDays base offset) = none := by
  induction offsets generalizing answers with
  | nil => exact absurd member List.not_mem_nil
  | cons first rest inductionHypothesis =>
      obtain ⟨before, increasing⟩ := List.pairwise_cons.1 increasing
      have ordered : addDays base first ≤ addDays base offset := by
        rcases List.mem_cons.1 member with rfl | isLater
        · exact String.le_refl _
        · exact String.not_lt.1 (String.lt_asymm (before offset isLater))
      rw [searchDays] at noAnswer precedes
      split at noAnswer
      case isFalse full =>
        -- the third answer is of a day before this one
        have isThird : 2 < answers.length := by
          rw [slotAnswers] at full
          omega
        rw [if_neg full] at precedes
        have early := precedes _ (List.getElem?_eq_getElem isThird)
        exact absurd (behind _ (List.getElem_mem isThird) offset member) (String.lt_asymm early)
      case isTrue wanted =>
        rw [if_pos wanted] at precedes
        dsimp only at noAnswer precedes
        split at noAnswer
        case isTrue afterDue =>
          rw [isAfterDue_of_le afterDue ordered] at inTime
          cases inTime
        case isFalse open_ =>
          rw [if_neg open_] at precedes
          rcases List.mem_cons.1 member with rfl | isLater
          · refine Option.eq_none_iff_forall_ne_some.2 fun answer isAnswer => ?_
            refine noAnswer answer (prefix_searchDays.subset ?_) (day_of_slotOn isAnswer)
            rw [isAnswer]
            exact List.mem_append_right _ List.mem_cons_self
          · refine inductionHypothesis increasing ?_ isLater noAnswer precedes
            intro answer isAnswer later isLater
            rcases List.mem_append.1 isAnswer with isOld | isNew
            · exact behind answer isOld later (List.mem_cons_of_mem _ isLater)
            · rw [day_of_slotOn (Option.mem_toList.1 isNew)]
              exact before later isLater

/-- The first and the last day of a window have texts of ten characters. -/
def RealWindow (base : String) (days : Nat) : Prop :=
  IsDay (civilFromDays (epochDays base)) ∧ IsDay (civilFromDays (epochDays base + days))

instance (base : String) (days : Nat) : Decidable (RealWindow base days) :=
  inferInstanceAs (Decidable (_ ∧ _))

/-- Days of such a window are in order as texts. -/
theorem RealWindow.increasing {days : Nat}
    (isReal : RealWindow base days) :
    (List.range (days + 1)).Pairwise fun (first second : Nat) =>
      addDays base first < addDays base second := by
  have isDay {offset : Nat} (member : offset ∈ List.range (days + 1)) :
      IsDay (civilFromDays (epochDays base + offset)) := by
    have small := List.mem_range.1 member
    refine isDay_civilFromDays isReal.1 isReal.2 ?_ ?_
    · rw [epochOfDate_civilFromDays]
      omega
    · rw [epochOfDate_civilFromDays]
      omega
  refine List.pairwise_lt_range.imp_of_mem fun {first second} isFirst isSecond ordered => ?_
  rw [addDays, addDays, keyOfEpoch, keyOfEpoch, keyOf_lt_iff (isDay isFirst) (isDay isSecond),
    epochOfDate_civilFromDays, epochOfDate_civilFromDays]
  omega

/-- What a search finds: right days of the window in time, and any other day before the third
answer is not right. -/
structure Finds
    (state : State) (task : Task) (minutes : Int) (base : String)
    (answers : List SlotAnswer) : Prop where
  sound : ∀ answer ∈ answers, ∃ offset : Nat, offset < slotSearchDays ∧
    isAfterDue task (addDays base offset) = false ∧
      IsAnswer state task minutes (addDays base offset) answer
  times : 0 ≤ state.settings.dayStart -> state.settings.dayEnd < 6000 ->
    ∀ answer ∈ answers,
      IsLeast {start | FitsOn state task minutes answer.day start} (toMinutes answer.start) ∧
        toMinutes answer.end_ = toMinutes answer.start + minutes
  complete : RealWindow base 6 ->
    ∀ offset : Nat, offset < slotSearchDays -> isAfterDue task (addDays base offset) = false ->
      (∀ answer ∈ answers, answer.day ≠ addDays base offset) ->
      (∀ third, answers[2]? = some third -> addDays base offset < third.day) ->
      state.budget < loadWith state task minutes (addDays base offset) ∨
        ∀ start, ¬FitsOn state task minutes (addDays base offset) start

theorem findSlots_finds
    (isMinutes : task.minutes = some minutes) (positive : 0 < minutes) (today picked : String) :
    Finds state task minutes (baseDay task today picked) (findSlots state task today picked) := by
  have searched : findSlots state task today picked =
      searchDays state task minutes (baseDay task today picked) (List.range slotSearchDays) [] := by
    rw [findSlots, isMinutes, Option.filter_some, if_pos (bne_iff_ne.2 (by omega))]
  have sound : ∀ answer ∈ findSlots state task today picked,
      ∃ offset : Nat, offset < slotSearchDays ∧
        isAfterDue task (addDays (baseDay task today picked) offset) = false ∧
          IsAnswer state task minutes (addDays (baseDay task today picked) offset) answer := by
    intro answer member
    rw [searched] at member
    rcases exists_of_mem_searchDays member with isOld | ⟨offset, inRange, inTime, isAnswer⟩
    · exact absurd isOld List.not_mem_nil
    · exact ⟨offset, List.mem_range.1 inRange, inTime, (slotOn_spec positive).1 answer isAnswer⟩
  constructor
  case sound => exact sound
  case times =>
    intro notNegative small answer member
    obtain ⟨offset, -, -, isAnswer⟩ := sound answer member
    have times := isAnswer.times positive notNegative small
    obtain ⟨-, start, -, rfl⟩ := isAnswer
    exact times
  case complete =>
    intro isReal offset inWindow inTime noAnswer precedes
    rw [searched] at noAnswer precedes
    refine (slotOn_spec positive).2 (slotOn_eq_none isReal.increasing ?_
      (List.mem_range.2 inWindow) inTime noAnswer precedes)
    intro answer isAnswer
    exact absurd isAnswer List.not_mem_nil

/-- The free slots of every day are what is not busy, and a task is offered its first start on the
first days at which it fits. -/
theorem findSlots_inFree
    (isMinutes : task.minutes = some minutes)
    (positive : 0 < minutes)
    (today picked : String) :
    (∀ day, IsFree state day (getDayAvailability state day)) ∧
      Finds state task minutes (baseDay task today picked) (findSlots state task today picked) :=
  ⟨getDayAvailability_isFree state, findSlots_finds isMinutes positive today picked⟩

end

/-- A task of half an hour that is due on a day. -/
def halfHourDue (due : String) : Task where
  id := "t"
  name := "call"
  description := ""
  steps := []
  status := "queue"
  project := ""
  rank := 0
  day := none
  start := none
  due := some due
  minutes := some 30
  repeatRule := none
  occurrences := none
  origin := none
  source := none
  remind := none
  instanceDay := none

theorem findSlots_inFree_sixMondays :
    (∀ day, IsFree (stateOf (repeatingEvent sixMondays)) day
      (getDayAvailability (stateOf (repeatingEvent sixMondays)) day)) ∧
      RealWindow (baseDay (halfHourDue "2026-11-05") "2026-10-30" "2026-11-01") 6 ∧
      Finds (stateOf (repeatingEvent sixMondays)) (halfHourDue "2026-11-05") 30
        (baseDay (halfHourDue "2026-11-05") "2026-10-30" "2026-11-01")
        (findSlots (stateOf (repeatingEvent sixMondays)) (halfHourDue "2026-11-05") "2026-10-30"
          "2026-11-01") := by
  obtain ⟨free, finds⟩ := @findSlots_inFree (stateOf (repeatingEvent sixMondays))
    (halfHourDue "2026-11-05") 30 rfl (by decide) "2026-10-30" "2026-11-01"
  exact ⟨free, by decide +kernel, finds⟩

/-- A day with nothing to do. -/
def emptyState : State where
  tasks := []
  events := []
  budget := 600
  settings := ⟨540, 1260⟩

/-- The text of a day before the year 1000 is after the due day, and ends the search. -/
theorem earlyYear_ends_search :
    findSlots emptyState (halfHourDue "1000-01-05") "0999-12-30" "0999-12-30" = [] ∧
      ∃ offset : Nat, offset < slotSearchDays ∧
        addDays (baseDay (halfHourDue "1000-01-05") "0999-12-30" "0999-12-30") offset =
          "1000-01-01" ∧
        isAfterDue (halfHourDue "1000-01-05") "1000-01-01" = false ∧
        loadWith emptyState (halfHourDue "1000-01-05") 30 "1000-01-01" ≤ emptyState.budget ∧
        FitsOn emptyState (halfHourDue "1000-01-05") 30 "1000-01-01" 540 := by
  refine ⟨by decide +kernel, 2, by decide, by decide +kernel, by decide +kernel,
    by decide +kernel, by decide, by decide, ?_⟩
  rintro minute - - ⟨item, member, -⟩
  have nothing : getTimedForDay emptyState "1000-01-01"
      (some (instanceKey (halfHourDue "1000-01-05"))) = [] := by
    simp [getTimedForDay, getEventsForDay, getTasksForDay, sortEvents, sortTimed, emptyState]
  rw [nothing] at member
  cases member

end Parvane.Agenda
