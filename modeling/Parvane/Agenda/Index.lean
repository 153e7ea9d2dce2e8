import Parvane.Agenda.Past
import Parvane.Agenda.Timed
import Mathlib.Logic.Function.Basic

/-!
# The index of days

The index has what there is to do on every day of a range.  It is built in one pass over tasks
and events, a series with all its days of the range at a time, and is to agree with the functions
of single days.
-/

namespace Parvane.Agenda

open Repeats

structure DayIndexEntry where
  tasks : List Task := []
  events : List Event := []
  deadlines : List Task := []
  isHoliday : Bool := false
  holiday : Option Event := none
  minutes : Int := 0
  timed : List Timed := []
  untimed : List Task := []
  allDay : List Event := []
  conflicts : Nat := 0
  unrated : Nat := 0

/-- The entries of the days that have one. -/
abbrev DayIndex :=
  String -> Option DayIndexEntry

namespace DayIndex

/-- The entry of a day; a day without one has nothing to do. -/
def entryOf (index : DayIndex) (day : String) : DayIndexEntry :=
  (index day).getD {}

/-- Write to the entry of a day, which is made when there is none. -/
def update (index : DayIndex) (day : String) (write : DayIndexEntry -> DayIndexEntry) : DayIndex :=
  Function.update index day (some (write (index.entryOf day)))

end DayIndex

def isInside (fromDay toDay : String) (day : Option String) : Bool :=
  (truthy day).any fun day => decide (fromDay ≤ day) && decide (day ≤ toDay)

/-- The days of a range that a task or an event is on. -/
def daysInside {T : Type} [Item T] (rounds : Nat) (item : T) (day : Option String)
    (fromDay toDay : String) : Option (List String) :=
  match Item.repeatRule item with
  | some _ => instancesOf rounds item fromDay toDay
  | none => some (if isInside fromDay toDay day then day.toList else [])

def addTask (rounds : Nat) (fromDay toDay : String) (index : DayIndex) (task : Task) :
    Option DayIndex :=
  (daysInside rounds task task.day fromDay toDay).map fun days =>
    let index := days.foldl (fun index day =>
      index.update day fun entry =>
        { entry with
          tasks := entry.tasks ++
            [if task.repeatRule.isSome then taskInstance task day else task]
          minutes := entry.minutes + task.minutes.getD 0 }) index
    if task.repeatRule.isNone && task.status != "done" && isInside fromDay toDay task.due then
      index.update (task.due.getD "") fun entry =>
        { entry with deadlines := entry.deadlines ++ [task] }
    else index

def addEvent (rounds : Nat) (fromDay toDay : String) (index : DayIndex) (event : Event) :
    Option DayIndex :=
  (daysInside rounds event event.day fromDay toDay).map fun days =>
    days.foldl (fun index day =>
      index.update day fun entry =>
        { entry with
          events := entry.events ++
            [if event.repeatRule.isSome then eventInstance event day else event]
          isHoliday := event.isHoliday.getD false || entry.isHoliday
          minutes :=
            if event.isAllDay.getD false then entry.minutes
            else entry.minutes + eventMinutes event }) index

/-- What is computed of an entry when all tasks and events are there. -/
def finishEntry (entry : DayIndexEntry) : DayIndexEntry :=
  let events := sortEvents entry.events
  let timed := sortTimed
    ((events.filter fun event => !event.isAllDay.getD false).map timedEvent ++
      (entry.tasks.filter hasStartAndMinutes).map timedTask)
  { entry with
    events := events
    holiday := (events.find? fun event => event.isHoliday.getD false).or entry.holiday
    allDay := entry.allDay ++ events.filter fun event => event.isAllDay.getD false
    timed := timed
    untimed := entry.untimed ++ entry.tasks.filter fun task => !hasStartAndMinutes task
    unrated := entry.unrated + entry.tasks.countP fun task => task.minutes.isNone
    conflicts := countTimedConflicts timed }

/-- The index of a range; there is none when a series is not done in the given number of
rounds. -/
def buildDayIndex (rounds : Nat) (state : State) (fromDay toDay : String) : Option DayIndex :=
  (state.tasks.foldlM (addTask rounds fromDay toDay) fun _ => none).bind fun index =>
    (state.events.foldlM (addEvent rounds fromDay toDay) index).map fun index day =>
      (index day).map finishEntry

def getDayIndex (rounds : Nat) (state : State) (fromDay toDay : String) : Option DayIndex :=
  buildDayIndex rounds state fromDay toDay

section

variable {index : DayIndex} {day other : String} {days : List String}
  {write : DayIndexEntry -> DayIndexEntry}

theorem entryOf_update_self : (index.update day write).entryOf day = write (index.entryOf day) := by
  unfold DayIndex.update DayIndex.entryOf
  rw [Function.update_self, Option.getD_some]

theorem entryOf_update_of_ne (different : other ≠ day) :
    (index.update day write).entryOf other = index.entryOf other := by
  unfold DayIndex.update DayIndex.entryOf
  rw [Function.update_of_ne different]

/-- Writing to different days writes to each of them once. -/
theorem entryOf_foldl_update {write : String -> DayIndexEntry -> DayIndexEntry}
    (nodup : days.Nodup) :
    (days.foldl (fun index day => index.update day (write day)) index).entryOf day =
      if day ∈ days then write day (index.entryOf day) else index.entryOf day := by
  induction days generalizing index with
  | nil => simp
  | cons first rest inductionHypothesis =>
      obtain ⟨fresh, restNodup⟩ := List.nodup_cons.1 nodup
      rw [List.foldl_cons, inductionHypothesis restNodup]
      by_cases isFirst : day = first
      · rw [isFirst, if_neg fresh, if_pos List.mem_cons_self, entryOf_update_self]
      · rw [entryOf_update_of_ne isFirst]
        simp only [List.mem_cons, isFirst, false_or]

end

/-! ## Loops over tasks and events -/

section

variable {fromDay toDay day : String}

/-- A real date of a range. -/
structure IsInRange (fromDay toDay day : String) : Prop where
  isDay : RealDay day
  above : fromDay ≤ day
  below : day ≤ toDay

/-- The rule of a task or an event, if it has one, is accepted and begins on a real date, if it
begins at all. -/
def HasDays {T : Type} [Item T] (item : T) : Prop :=
  ∀ rule, Item.repeatRule item = some rule ->
    validateRepeat rule = none ∧ (rule.startDay = "" ∨ RealDay rule.startDay)

theorem isInside_iff (inRange : IsInRange fromDay toDay day) :
    isInside fromDay toDay (some day) = true := by
  have notEmpty := isEmpty_of_isReal inRange.isDay.isReal
  simp [isInside, truthy, notEmpty, inRange.above, inRange.below]

/-- A task or an event is on the days of a range that the functions of a day find. -/
theorem exists_daysInside {T : Type}
    [Item T] {item : T} (hasDays : HasDays item) (own : Option String) (isFrom : RealDay fromDay)
    (isTo : RealDay toDay) (le : fromDay ≤ toDay) :
    ∃ days, (∃ enough, ∀ rounds ≥ enough, daysInside rounds item own fromDay toDay = some days) ∧
      days.Nodup ∧ ∀ day, IsInRange fromDay toDay day ->
        (day ∈ days ↔
          if (Item.repeatRule item).isSome then instanceOn item day = true
          else own = some day) := by
  cases isRepeat : Item.repeatRule item with
  | none =>
      refine ⟨if isInside fromDay toDay own then own.toList else [], ⟨0, fun rounds _ => ?_⟩, ?_,
        fun day inRange => ?_⟩
      · rw [daysInside, isRepeat]
      · cases own <;> simp [apply_ite List.Nodup]
      · have inside := isInside_iff inRange
        by_cases isOwn : own = some day
        · simp [isOwn, inside]
        · simp [isOwn]
  | some rule =>
      obtain ⟨valid, isStart⟩ := hasDays rule isRepeat
      obtain ⟨days, ⟨enough, expanded⟩, sorted, members⟩ :=
        expandRepeat_spec valid isStart isFrom isTo le
      refine ⟨days.filter fun day => !isExcluded (occurrenceOf item day),
        ⟨enough, fun rounds more => ?_⟩, ?_, fun day inRange => ?_⟩
      · have done := expanded rounds more
        rw [expandRepeat] at done
        rw [daysInside, isRepeat]
        dsimp only
        rw [instancesOf, isRepeat]
        dsimp only
        rw [done, Option.map_some]
      · refine List.Pairwise.filter _ (sorted.imp ?_)
        rintro first _ less rfl
        exact String.lt_irrefl first less
      · rw [List.mem_filter, members, Option.isSome_some, if_pos rfl, instanceOn_iff isRepeat,
          Bool.not_eq_true']
        simp only [inRange.isDay, inRange.above, inRange.below, true_and]

/-- A loop whose steps change the entry of each day on its own. -/
theorem exists_foldlM {α : Type} {add : Nat -> DayIndex -> α -> Option DayIndex}
    {effect : String -> DayIndexEntry -> α -> DayIndexEntry} {items : List α}
    (step : ∀ item ∈ items, ∃ enough, ∀ rounds ≥ enough, ∀ index, ∃ next,
      add rounds index item = some next ∧ ∀ day, IsInRange fromDay toDay day ->
        next.entryOf day = effect day (index.entryOf day) item) :
    ∃ enough, ∀ rounds ≥ enough, ∀ index, ∃ next,
      items.foldlM (add rounds) index = some next ∧ ∀ day, IsInRange fromDay toDay day ->
        next.entryOf day = items.foldl (effect day) (index.entryOf day) := by
  induction items with
  | nil => exact ⟨0, fun _ _ index => ⟨index, rfl, fun _ _ => rfl⟩⟩
  | cons item rest inductionHypothesis =>
      obtain ⟨enough, first⟩ := step item List.mem_cons_self
      obtain ⟨restEnough, others⟩ :=
        inductionHypothesis fun other member => step other (List.mem_cons_of_mem item member)
      refine ⟨max enough restEnough, fun rounds more index => ?_⟩
      obtain ⟨between, added, isBetween⟩ :=
        first rounds (Nat.le_trans (Nat.le_max_left _ _) more) index
      obtain ⟨next, loop, isNext⟩ :=
        others rounds (Nat.le_trans (Nat.le_max_right _ _) more) between
      refine ⟨next, ?_, fun day inRange => ?_⟩
      · rw [List.foldlM_cons, added]
        exact loop
      · rw [isNext day inRange, isBetween day inRange, List.foldl_cons]

/-- What a task writes to the entry of a day. -/
def withTask (day : String) (entry : DayIndexEntry) (task : Task) : DayIndexEntry :=
  { entry with
    tasks := entry.tasks ++ (taskOn day task).toList
    minutes := entry.minutes + if (taskOn day task).isSome then task.minutes.getD 0 else 0
    deadlines := entry.deadlines ++ if isDeadline day task then [task] else [] }

/-- What an event writes to the entry of a day. -/
def withEvent (day : String) (entry : DayIndexEntry) (event : Event) : DayIndexEntry :=
  { entry with
    events := entry.events ++ (eventOn day event).toList
    isHoliday := ((eventOn day event).isSome && event.isHoliday.getD false) || entry.isHoliday
    minutes :=
      if (eventOn day event).isNone || event.isAllDay.getD false then entry.minutes
      else entry.minutes + eventMinutes event }

theorem taskOn_eq {task : Task} {days : List String}
    (isMember : day ∈ days ↔
      if (Item.repeatRule task).isSome then instanceOn task day = true else task.day = some day) :
    taskOn day task =
      if day ∈ days then some (if task.repeatRule.isSome then taskInstance task day else task)
      else none := by
  have isRepeat : Item.repeatRule task = task.repeatRule := rfl
  rw [isRepeat] at isMember
  unfold taskOn
  cases hasRule : task.repeatRule <;> simp [hasRule] at isMember <;> simp [isMember]

theorem eventOn_eq {event : Event} {days : List String}
    (isMember : day ∈ days ↔
      if (Item.repeatRule event).isSome then instanceOn event day = true
      else event.day = some day) :
    eventOn day event =
      if day ∈ days then some (if event.repeatRule.isSome then eventInstance event day else event)
      else none := by
  have isRepeat : Item.repeatRule event = event.repeatRule := rfl
  rw [isRepeat] at isMember
  unfold eventOn
  cases hasRule : event.repeatRule <;> simp [hasRule] at isMember <;> simp [isMember]

/-- A deadline is written to the entry of its own day. -/
theorem entryOf_addDeadline
    (index : DayIndex) (task : Task) (inRange : IsInRange fromDay toDay day) :
    (if task.repeatRule.isNone && task.status != "done" && isInside fromDay toDay task.due then
      index.update (task.due.getD "") fun entry =>
        { entry with deadlines := entry.deadlines ++ [task] }
    else index).entryOf day =
      { index.entryOf day with
        deadlines := (index.entryOf day).deadlines ++
          if isDeadline day task then [task] else [] } := by
  unfold isDeadline
  by_cases isDue : task.due = some day
  · have inside := isInside_iff inRange
    rw [isDue, inside, Option.getD_some, Bool.and_true, decide_eq_true rfl, Bool.and_true]
    by_cases isOpen : (task.repeatRule.isNone && task.status != "done") = true
    · rw [if_pos isOpen, if_pos isOpen, entryOf_update_self]
    · rw [if_neg isOpen, if_neg isOpen, List.append_nil]
  · have elsewhere : (task.repeatRule.isNone && task.status != "done" &&
        isInside fromDay toDay task.due) = true -> day ≠ task.due.getD "" := by
      intro isOpen
      cases hasDue : task.due with
      | none => simp [hasDue, isInside, truthy] at isOpen
      | some other =>
          rintro rfl
          exact isDue hasDue
    rw [decide_eq_false isDue, Bool.and_false, Bool.false_and, if_neg Bool.false_ne_true,
      List.append_nil]
    split
    case isTrue isOpen => exact entryOf_update_of_ne (elsewhere isOpen)
    case isFalse => rfl

theorem exists_addTask {task : Task}
    (hasDays : HasDays task) (isFrom : RealDay fromDay) (isTo : RealDay toDay)
    (le : fromDay ≤ toDay) :
    ∃ enough, ∀ rounds ≥ enough, ∀ index, ∃ next,
      addTask rounds fromDay toDay index task = some next ∧
        ∀ day, IsInRange fromDay toDay day ->
          next.entryOf day = withTask day (index.entryOf day) task := by
  obtain ⟨days, ⟨enough, found⟩, nodup, members⟩ :=
    exists_daysInside hasDays task.day isFrom isTo le
  refine ⟨enough, fun rounds more index => ⟨_, by rw [addTask, found rounds more]; rfl, ?_⟩⟩
  intro day inRange
  have afterDays := @entryOf_foldl_update index day days (fun day entry =>
    { entry with
      tasks := entry.tasks ++ [if task.repeatRule.isSome then taskInstance task day else task]
      minutes := entry.minutes + task.minutes.getD 0 }) nodup
  have written : (if day ∈ days then
      { index.entryOf day with
        tasks := (index.entryOf day).tasks ++
          [if task.repeatRule.isSome then taskInstance task day else task]
        minutes := (index.entryOf day).minutes + task.minutes.getD 0 }
      else index.entryOf day) =
      { index.entryOf day with
        tasks := (index.entryOf day).tasks ++ (taskOn day task).toList
        minutes := (index.entryOf day).minutes +
          if (taskOn day task).isSome then task.minutes.getD 0 else 0 } := by
    rw [taskOn_eq (members day inRange)]
    split <;> simp
  rw [written] at afterDays
  dsimp only
  rw [entryOf_addDeadline _ _ inRange, afterDays]
  rfl

theorem exists_addEvent {event : Event}
    (hasDays : HasDays event) (isFrom : RealDay fromDay) (isTo : RealDay toDay)
    (le : fromDay ≤ toDay) :
    ∃ enough, ∀ rounds ≥ enough, ∀ index, ∃ next,
      addEvent rounds fromDay toDay index event = some next ∧
        ∀ day, IsInRange fromDay toDay day ->
          next.entryOf day = withEvent day (index.entryOf day) event := by
  obtain ⟨days, ⟨enough, found⟩, nodup, members⟩ :=
    exists_daysInside hasDays event.day isFrom isTo le
  refine ⟨enough, fun rounds more index => ⟨_, by rw [addEvent, found rounds more]; rfl, ?_⟩⟩
  intro day inRange
  dsimp only
  rw [entryOf_foldl_update nodup, withEvent, eventOn_eq (members day inRange)]
  split <;> simp

/-! ## The entry of a day -/

/-- The entry of a day has what the functions of the day compute. -/
structure Agrees (state : State) (day : String) (entry : DayIndexEntry) : Prop where
  tasks : entry.tasks = getTasksForDay state day
  events : entry.events = getEventsForDay state day
  deadlines : entry.deadlines = getDeadlines state day
  timed : entry.timed = getTimedForDay state day none
  minutes : entry.minutes = getDayLoad state day
  unrated : entry.unrated = countUnrated state day
  conflicts : entry.conflicts = countConflicts state day
  isHoliday : entry.isHoliday = isHolidayOn state day

theorem taskOn_minutes {task shown : Task} (isOn : taskOn day task = some shown) :
    shown.minutes = task.minutes := by
  unfold taskOn at isOn
  split at isOn
  all_goals
    rw [Option.ite_none_right_eq_some, Option.some.injEq] at isOn
    rw [← isOn.2]
  rfl

theorem eventOn_fields {event shown : Event} (isOn : eventOn day event = some shown) :
    shown.isHoliday = event.isHoliday ∧ shown.isAllDay = event.isAllDay ∧
      eventMinutes shown = eventMinutes event := by
  unfold eventOn at isOn
  split at isOn
  all_goals
    rw [Option.ite_none_right_eq_some, Option.some.injEq] at isOn
    rw [← isOn.2]
    exact ⟨rfl, rfl, rfl⟩

theorem foldl_withTask (day : String) (tasks : List Task) (entry : DayIndexEntry) :
    tasks.foldl (withTask day) entry =
      { entry with
        tasks := entry.tasks ++ tasks.filterMap (taskOn day)
        minutes := (tasks.filterMap (taskOn day)).foldl
          (fun minutes task => minutes + task.minutes.getD 0) entry.minutes
        deadlines := entry.deadlines ++ tasks.filter (isDeadline day) } := by
  induction tasks generalizing entry with
  | nil => simp
  | cons task rest inductionHypothesis =>
      rw [List.foldl_cons, inductionHypothesis, withTask, List.filter_cons, List.filterMap_cons]
      cases isOn : taskOn day task with
      | none => split <;> simp
      | some shown =>
          rw [← taskOn_minutes isOn]
          split <;> simp

theorem foldl_withEvent (day : String) (events : List Event) (entry : DayIndexEntry) :
    events.foldl (withEvent day) entry =
      { entry with
        events := entry.events ++ events.filterMap (eventOn day)
        isHoliday := ((events.filterMap (eventOn day)).any fun event =>
          event.isHoliday.getD false) || entry.isHoliday
        minutes := (events.filterMap (eventOn day)).foldl (fun minutes event =>
          if event.isAllDay.getD false then minutes else minutes + eventMinutes event)
            entry.minutes } := by
  induction events generalizing entry with
  | nil => simp
  | cons event rest inductionHypothesis =>
      rw [List.foldl_cons, inductionHypothesis, withEvent, List.filterMap_cons]
      cases isOn : eventOn day event with
      | none => simp
      | some shown =>
          obtain ⟨sameHoliday, sameAllDay, sameMinutes⟩ := eventOn_fields isOn
          rw [← sameHoliday, ← sameAllDay, ← sameMinutes]
          simp [Bool.or_left_comm, Bool.or_assoc]

/-- The load of events does not depend on their order. -/
theorem foldl_eventMinutes (events : List Event) (minutes : Int) :
    events.foldl (fun minutes event =>
        if event.isAllDay.getD false then minutes else minutes + eventMinutes event) minutes =
      minutes + (events.map fun event =>
        if event.isAllDay.getD false then 0 else eventMinutes event).sum := by
  induction events generalizing minutes with
  | nil => simp
  | cons event rest inductionHypothesis =>
      rw [List.foldl_cons, inductionHypothesis, List.map_cons, List.sum_cons]
      split
      case isTrue => rw [zero_add]
      case isFalse => rw [add_assoc]

theorem perm_sortEvents (events : List Event) : (sortEvents events).Perm events :=
  List.mergeSort_perm _ _

theorem getTimedForDay_none (state : State) (day : String) :
    getTimedForDay state day none =
      sortTimed
        (((getEventsForDay state day).filter fun event =>
            !event.isAllDay.getD false).map timedEvent ++
          ((getTasksForDay state day).filter hasStartAndMinutes).map timedTask) := by
  simp [getTimedForDay]

/-- What is finished of the entries of all tasks and events is what the functions compute. -/
theorem agrees_finishEntry (state : State) (day : String) :
    Agrees state day
      (finishEntry (state.events.foldl (withEvent day) (state.tasks.foldl (withTask day) {}))) := by
  rw [foldl_withTask, foldl_withEvent]
  have sorted := perm_sortEvents (state.events.filterMap (eventOn day))
  have isTimed := getTimedForDay_none state day
  constructor
  case tasks => rfl
  case events => rfl
  case deadlines => rfl
  case timed =>
    rw [isTimed]
    rfl
  case conflicts =>
    rw [countConflicts, isTimed]
    rfl
  case minutes =>
    have load := foldl_eventMinutes (sortEvents (state.events.filterMap (eventOn day))) 0
    rw [(sorted.map _).sum_eq, zero_add] at load
    rw [getDayLoad, getEventsForDay]
    dsimp only
    rw [load, add_comm, ← foldl_eventMinutes]
    rfl
  case unrated => exact Nat.zero_add _
  case isHoliday =>
    rw [isHolidayOn, getEventsForDay, sorted.any_eq]
    exact Bool.or_false _

theorem finishEntry_empty : finishEntry {} = {} := by
  simp [finishEntry, sortEvents, sortTimed, countTimedConflicts]

/-- The entries of a range agree with the functions of its days. -/
theorem getDayIndex_agrees
    {state : State}
    (tasksHaveDays : ∀ task ∈ state.tasks, HasDays task)
    (eventsHaveDays : ∀ event ∈ state.events, HasDays event)
    (isFrom : RealDay fromDay)
    (isTo : RealDay toDay)
    (le : fromDay ≤ toDay) :
    ∃ enough, ∀ rounds ≥ enough, ∃ index, getDayIndex rounds state fromDay toDay = some index ∧
      ∀ day, IsInRange fromDay toDay day -> Agrees state day (index.entryOf day) := by
  obtain ⟨enough, addTasks⟩ := exists_foldlM (fun task member =>
    exists_addTask (tasksHaveDays task member) isFrom isTo le)
  obtain ⟨moreEnough, addEvents⟩ := exists_foldlM (fun event member =>
    exists_addEvent (eventsHaveDays event member) isFrom isTo le)
  refine ⟨max enough moreEnough, fun rounds more => ?_⟩
  obtain ⟨between, addedTasks, isBetween⟩ :=
    addTasks rounds (Nat.le_trans (Nat.le_max_left _ _) more) fun _ => none
  obtain ⟨index, addedEvents, isIndex⟩ :=
    addEvents rounds (Nat.le_trans (Nat.le_max_right _ _) more) between
  refine ⟨_, by rw [getDayIndex, buildDayIndex, addedTasks, Option.bind_some, addedEvents]; rfl,
    fun day inRange => ?_⟩
  have finished : DayIndex.entryOf (fun day => (index day).map finishEntry) day =
      finishEntry (index.entryOf day) := by
    unfold DayIndex.entryOf
    dsimp only
    cases index day with
    | none => exact finishEntry_empty.symm
    | some entry => rfl
  rw [finished, isIndex day inRange, isBetween day inRange]
  exact agrees_finishEntry state day

end

theorem getDayIndex_agrees_sixMondays :
    ∃ enough, ∀ rounds ≥ enough, ∃ index,
      getDayIndex rounds (stateOf (repeatingEvent sixMondays)) "2026-10-12" "2026-11-30" =
          some index ∧
        ∀ day, IsInRange "2026-10-12" "2026-11-30" day ->
          Agrees (stateOf (repeatingEvent sixMondays)) day (index.entryOf day) := by
  have isStart : RealDay sixMondays.startDay := ⟨⟨2026, 10, 12⟩, by decide, by decide +kernel⟩
  refine getDayIndex_agrees (fun task member => ?_) (fun event member => ?_) isStart
    ⟨⟨2026, 11, 30⟩, by decide, by decide +kernel⟩ (by decide +kernel)
  · cases member
  · rw [List.mem_singleton.1 member]
    intro rule isRepeat
    cases isRepeat
    exact ⟨by decide +kernel, .inr isStart⟩

/-- Every day from the first one of the year 500 on. -/
def everyDayOf500 : Repeat where
  kind := "daily"
  interval := 1
  weekdays := none
  monthDay := none
  startDay := "0500-01-01"
  endDay := none
  count := none

/-- The days of a year before 1000 are written with fewer digits in the index, and not found. -/
theorem everyDayOf500_not_found :
    validateRepeat everyDayOf500 = none ∧
      (isDayKey "0500-01-02" = true ∧ parts "0500-01-02" = ⟨500, 1, 2⟩) ∧
      "0500-01-01" ≤ "0500-01-02" ∧ "0500-01-02" ≤ "0500-01-03" ∧
      (getEventsForDay (stateOf (repeatingEvent everyDayOf500)) "0500-01-02").length = 1 ∧
      ((getDayIndex 9 (stateOf (repeatingEvent everyDayOf500)) "0500-01-01" "0500-01-03").map
        fun index => (index.entryOf "0500-01-02").events.length) = some 0 := by
  decide +kernel

end Parvane.Agenda
