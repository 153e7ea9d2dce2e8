import Parvane.Agenda.Items

/-!
# A day

What there is to do on a day: its tasks and events, those that have a time, and how much they
take.
-/

namespace Parvane.Agenda

open Repeats Trimming Decimals

/-! ## Times -/

/-- The number that a part of a text stands for: nothing is zero. -/
def numberOf? (part : List Char) : Option Nat :=
  let text := trim isSpace isSpace part
  if text.all Char.isDigit then some (Nat.ofDigitChars 10 text 0) else none

/-- The minutes of a time; what is no time is zero. -/
def toMinutes (time : String) : Int :=
  let chunks := time.toList.splitOn ':'
  match chunks[0]?.bind numberOf?, chunks[1]?.bind numberOf? with
  | some hours, some minutes =>
      let total := hours * 60 + minutes
      if total < 10 ^ 9 then total else 0
  | _, _ => 0

def toTime (minutes : Int) : String :=
  pad2 (floorDiv minutes 60) ++ ":" ++ pad2 (minutes.tmod 60)

theorem toMinutes_nonneg (time : String) : 0 ≤ toMinutes time := by
  unfold toMinutes
  dsimp only
  split
  · split
    · exact Int.natCast_nonneg _
    · exact Int.le_refl 0
  · exact Int.le_refl 0

theorem numberOf?_padded {width number : Nat} (small : number < 10 ^ width) :
    numberOf? (padded width number) = some number := by
  unfold numberOf?
  dsimp only
  rw [trim_padded, all_isDigit_padded, if_pos rfl, ofDigitChars_padded small]

/-- The text of a time is read as its minutes. -/
theorem toMinutes_toTime {minutes : Int}
    (notNegative : 0 ≤ minutes)
    (small : minutes < 6000) : toMinutes (toTime minutes) = minutes := by
  have noColon {width number : Nat} : ':' ∉ padded width number := fun member =>
    absurd (isDigit_of_mem_padded member) (by decide)
  have hours := floorDiv_eq minutes (show 0 < 60 by decide)
  have rest := Int.tmod_eq_emod_of_nonneg (b := 60) notNegative
  have chunks : (toTime minutes).toList.splitOn ':' =
      [padded 2 (minutes / 60).toNat, padded 2 (minutes % 60).toNat] := by
    unfold toTime
    rw [hours, rest]
    simp only [String.toList_append]
    rw [toList_pad2 (by omega) (by omega), toList_pad2 (by omega) (by omega), List.append_assoc]
    exact (List.splitOn_append_cons_self_of_not_mem noColon _).trans
      (congrArg _ (List.splitOn_eq_singleton noColon))
  unfold toMinutes
  dsimp only
  rw [chunks, List.getElem?_cons_zero, List.getElem?_cons_succ, List.getElem?_cons_zero,
    Option.bind_some, Option.bind_some, numberOf?_padded (by omega), numberOf?_padded (by omega)]
  dsimp only
  rw [if_pos (by omega)]
  omega

/-! ## Things with a time -/

structure Timed where
  name : String
  start : String
  end_ : String
  task : Option Task
  event : Option Event

/-- Events of the whole day come first, the others in the order of their starts. -/
def compareEvents (a b : Event) : Bool :=
  let aAll := a.isAllDay.getD false
  let bAll := b.isAllDay.getD false
  if aAll != bAll then aAll else decide (a.start < b.start)

def sortEvents (events : List Event) : List Event :=
  events.mergeSort fun a b => !compareEvents b a

def sortTimed (timed : List Timed) : List Timed :=
  timed.mergeSort fun a b => !decide (b.start < a.start)

def eventMinutes (event : Event) : Int :=
  toMinutes event.end_ - toMinutes event.start

def hasStartAndMinutes (task : Task) : Bool :=
  (truthy task.start).isSome && task.minutes.isSome

def timedEvent (event : Event) : Timed :=
  ⟨event.name, event.start, event.end_, none, some event⟩

def timedTask (task : Task) : Timed :=
  let start := task.start.getD ""
  ⟨task.name, start, toTime (toMinutes start + task.minutes.getD 0), some task, none⟩

def countTimedConflicts (timed : List Timed) : Nat :=
  match timed with
  | [] => 0
  | item :: rest =>
      (rest.countP fun other =>
        decide (toMinutes item.start < toMinutes other.end_) &&
          decide (toMinutes other.start < toMinutes item.end_)) + countTimedConflicts rest

/-! ## Functions of a day -/

/-- The task as it is on a day, when it is a task of the day. -/
def taskOn (day : String) (task : Task) : Option Task :=
  match task.repeatRule with
  | some _ => if instanceOn task day then some (taskInstance task day) else none
  | none => if task.day = some day then some task else none

def getTasksForDay (state : State) (day : String) : List Task :=
  state.tasks.filterMap (taskOn day)

def isDeadline (day : String) (task : Task) : Bool :=
  task.repeatRule.isNone && decide (task.due = some day) && task.status != "done"

def getDeadlines (state : State) (day : String) : List Task :=
  state.tasks.filter (isDeadline day)

/-- The event as it is on a day, when it is an event of the day. -/
def eventOn (day : String) (event : Event) : Option Event :=
  match event.repeatRule with
  | some _ => if instanceOn event day then some (eventInstance event day) else none
  | none => if event.day = some day then some event else none

def getEventsForDay (state : State) (day : String) : List Event :=
  sortEvents (state.events.filterMap (eventOn day))

def isHolidayOn (state : State) (day : String) : Bool :=
  (getEventsForDay state day).any fun event => event.isHoliday.getD false

def countUnrated (state : State) (day : String) : Nat :=
  (getTasksForDay state day).countP fun task => task.minutes.isNone

def getDayLoad (state : State) (day : String) : Int :=
  let events := (getEventsForDay state day).foldl (fun minutes event =>
    if event.isAllDay.getD false then minutes else minutes + eventMinutes event) 0
  let tasks := (getTasksForDay state day).foldl (fun minutes task =>
    minutes + task.minutes.getD 0) 0
  events + tasks

def getTimedForDay (state : State) (day : String) (excludedTaskId : Option String) : List Timed :=
  let events := (getEventsForDay state day).filter fun event => !event.isAllDay.getD false
  let tasks := (getTasksForDay state day).filter fun task =>
    hasStartAndMinutes task && !decide (some (instanceKey task) = excludedTaskId)
  sortTimed (events.map timedEvent ++ tasks.map timedTask)

def countConflicts (state : State) (day : String) : Nat :=
  countTimedConflicts (getTimedForDay state day none)

end Parvane.Agenda
