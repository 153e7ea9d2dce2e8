import Parvane.Repeats.Agreement

/-!
# Tasks and events

A series is a task or an event with a rule of repetition; what happened to single days of it is
kept in its list of occurrences.  A patch has three states a field: it is left alone, it is
taken away, or it gets a value.
-/

namespace Parvane
namespace Agenda

open Repeats

structure Step where
  text : String
  isDone : Bool
  deriving DecidableEq

structure Occurrence where
  day : String
  excluded : Option Bool
  done : Option Bool
  doneSteps : Option (List Int)
  deriving DecidableEq

structure Origin where
  seriesId : String
  day : String
  deriving DecidableEq

structure Source where
  chat : String
  opId : String
  deriving DecidableEq

structure Task where
  id : String
  name : String
  description : String
  steps : List Step
  status : String
  project : String
  rank : Float
  day : Option String
  start : Option String
  due : Option String
  minutes : Option Int
  repeatRule : Option Repeat
  occurrences : Option (List Occurrence)
  origin : Option Origin
  source : Option Source
  remind : Option Int
  instanceDay : Option String

structure Event where
  id : String
  name : String
  description : Option String
  start : String
  end_ : String
  day : Option String
  repeatRule : Option Repeat
  occurrences : Option (List Occurrence)
  origin : Option Origin
  instanceDay : Option String
  isAllDay : Option Bool
  isHoliday : Option Bool
  color : Option Int
  remind : Option Int
  project : Option String
  deriving DecidableEq

structure Settings where
  dayStart : Int
  dayEnd : Int
  deriving DecidableEq

structure State where
  tasks : List Task
  events : List Event
  budget : Int
  settings : Settings

/-! ## Patches -/

/-- A field that is left alone, taken away, or set. -/
abbrev PatchField (α : Type) :=
  Option (Option α)

/-- What a patch writes to a field that may be absent. -/
def PatchField.putIn (patch : PatchField α) (value : Option α) : Option α :=
  patch.getD value

/-- What a patch writes to a field with a default. -/
def PatchField.put (patch : PatchField α) (fallback value : α) : α :=
  match patch with
  | none => value
  | some field => field.getD fallback

structure RepeatPatch where
  kind : PatchField String := none
  interval : PatchField Int := none
  weekdays : PatchField (List Int) := none
  monthDay : PatchField Int := none
  startDay : PatchField String := none
  endDay : PatchField String := none
  count : PatchField Int := none

def applyRepeatPatch (base : Repeat) (patch : RepeatPatch) : Repeat where
  kind := patch.kind.put "" base.kind
  interval := patch.interval.put 0 base.interval
  weekdays := patch.weekdays.putIn base.weekdays
  monthDay := patch.monthDay.putIn base.monthDay
  startDay := patch.startDay.put "" base.startDay
  endDay := patch.endDay.putIn base.endDay
  count := patch.count.putIn base.count

structure ItemPatch where
  name : PatchField String := none
  description : PatchField String := none
  start : PatchField String := none
  end_ : PatchField String := none
  day : PatchField String := none
  due : PatchField String := none
  status : PatchField String := none
  project : PatchField String := none
  minutes : PatchField Int := none
  color : PatchField Int := none
  remind : PatchField Int := none
  rank : PatchField Float := none
  isAllDay : PatchField Bool := none
  isHoliday : PatchField Bool := none
  steps : PatchField (List Step) := none
  source : PatchField Source := none
  repeatRule : PatchField RepeatPatch := none

/-- A rule before anything is written to it. -/
def emptyRepeat : Repeat where
  kind := "daily"
  interval := 1
  weekdays := none
  monthDay := none
  startDay := ""
  endDay := none
  count := none

/-- What a patch writes to a rule: it is taken away, or built anew. -/
def patchedRepeat (patch : PatchField RepeatPatch) (rule : Option Repeat) : Option Repeat :=
  match patch with
  | none => rule
  | some field => field.map (applyRepeatPatch emptyRepeat)

def Task.applyPatch (task : Task) (patch : ItemPatch) : Task :=
  { task with
    name := patch.name.put "" task.name
    description := patch.description.put "" task.description
    start := patch.start.putIn task.start
    day := patch.day.putIn task.day
    due := patch.due.putIn task.due
    status := patch.status.put "queue" task.status
    project := patch.project.put "" task.project
    minutes := patch.minutes.putIn task.minutes
    remind := patch.remind.putIn task.remind
    rank := patch.rank.put 0 task.rank
    steps := patch.steps.put [] task.steps
    source := patch.source.putIn task.source
    repeatRule := patchedRepeat patch.repeatRule task.repeatRule }

def Event.applyPatch (event : Event) (patch : ItemPatch) : Event :=
  { event with
    name := patch.name.put "" event.name
    description := patch.description.putIn event.description
    start := patch.start.put "" event.start
    end_ := patch.end_.put "" event.end_
    day := patch.day.putIn event.day
    project := patch.project.putIn event.project
    color := patch.color.putIn event.color
    remind := patch.remind.putIn event.remind
    isAllDay := patch.isAllDay.putIn event.isAllDay
    isHoliday := patch.isHoliday.putIn event.isHoliday
    repeatRule := patchedRepeat patch.repeatRule event.repeatRule }

/-! ## What tasks and events have in common -/

/-- A kind of record that may be a series. -/
class Item (T : Type) where
  id : T -> String
  repeatRule : T -> Option Repeat
  occurrences : T -> Option (List Occurrence)
  instanceDay : T -> Option String
  withRepeat : T -> Option Repeat -> T
  withOccurrences : T -> Option (List Occurrence) -> T
  stripSeries : T -> T
  applyPatch : T -> ItemPatch -> T
  /-- The new series of a split: what it gets after the fields of the patch. -/
  created : T -> String -> Repeat -> T
  itemsOf : State -> List T
  withItems : State -> List T -> State

instance : Item Task where
  id := Task.id
  repeatRule := Task.repeatRule
  occurrences := Task.occurrences
  instanceDay := Task.instanceDay
  withRepeat task rule := { task with repeatRule := rule }
  withOccurrences task occurrences := { task with occurrences := occurrences }
  stripSeries task := { task with repeatRule := none, occurrences := none, instanceDay := none }
  applyPatch := Task.applyPatch
  created task id rule :=
    { task with
      id := id
      repeatRule := some rule
      status := "queue"
      day := none
      occurrences := some [] }
  itemsOf := State.tasks
  withItems state tasks := { state with tasks := tasks }

instance : Item Event where
  id := Event.id
  repeatRule := Event.repeatRule
  occurrences := Event.occurrences
  instanceDay := Event.instanceDay
  withRepeat event rule := { event with repeatRule := rule }
  withOccurrences event occurrences := { event with occurrences := occurrences }
  stripSeries event := { event with repeatRule := none, occurrences := none, instanceDay := none }
  applyPatch := Event.applyPatch
  created event id rule :=
    { event with id := id, repeatRule := some rule, occurrences := some [] }
  itemsOf := State.events
  withItems state events := { state with events := events }

/-- Fields are independent of each other, and a patch does not reach what makes a series. -/
class LawfulItem (T : Type) [Item T] : Prop where
  repeatRule_withRepeat (item : T) (rule : Option Repeat) :
    Item.repeatRule (Item.withRepeat item rule) = rule
  occurrences_withRepeat (item : T) (rule : Option Repeat) :
    Item.occurrences (Item.withRepeat item rule) = Item.occurrences item
  id_withRepeat (item : T) (rule : Option Repeat) :
    Item.id (Item.withRepeat item rule) = Item.id item
  repeatRule_withOccurrences (item : T) (occurrences : Option (List Occurrence)) :
    Item.repeatRule (Item.withOccurrences item occurrences) = Item.repeatRule item
  occurrences_withOccurrences (item : T) (occurrences : Option (List Occurrence)) :
    Item.occurrences (Item.withOccurrences item occurrences) = occurrences
  id_withOccurrences (item : T) (occurrences : Option (List Occurrence)) :
    Item.id (Item.withOccurrences item occurrences) = Item.id item
  id_applyPatch (item : T) (patch : ItemPatch) : Item.id (Item.applyPatch item patch) = Item.id item
  occurrences_applyPatch (item : T) (patch : ItemPatch) :
    Item.occurrences (Item.applyPatch item patch) = Item.occurrences item
  repeatRule_applyPatch (item : T) (patch : ItemPatch) :
    Item.repeatRule (Item.applyPatch item patch) =
      patchedRepeat patch.repeatRule (Item.repeatRule item)
  repeatRule_created (item : T) (id : String) (rule : Repeat) :
    Item.repeatRule (Item.created item id rule) = some rule
  occurrences_created (item : T) (id : String) (rule : Repeat) :
    Item.occurrences (Item.created item id rule) = some []
  id_created (item : T) (id : String) (rule : Repeat) :
    Item.id (Item.created item id rule) = id
  itemsOf_withItems (state : State) (items : List T) :
    Item.itemsOf (Item.withItems state items) = items

attribute [simp] LawfulItem.repeatRule_withRepeat LawfulItem.occurrences_withRepeat
  LawfulItem.id_withRepeat LawfulItem.repeatRule_withOccurrences
  LawfulItem.occurrences_withOccurrences LawfulItem.id_withOccurrences LawfulItem.id_applyPatch
  LawfulItem.occurrences_applyPatch LawfulItem.repeatRule_applyPatch
  LawfulItem.repeatRule_created LawfulItem.occurrences_created LawfulItem.id_created
  LawfulItem.itemsOf_withItems

instance : LawfulItem Task where
  repeatRule_withRepeat _ _ := rfl
  occurrences_withRepeat _ _ := rfl
  id_withRepeat _ _ := rfl
  repeatRule_withOccurrences _ _ := rfl
  occurrences_withOccurrences _ _ := rfl
  id_withOccurrences _ _ := rfl
  id_applyPatch _ _ := rfl
  occurrences_applyPatch _ _ := rfl
  repeatRule_applyPatch _ _ := rfl
  repeatRule_created _ _ _ := rfl
  occurrences_created _ _ _ := rfl
  id_created _ _ _ := rfl
  itemsOf_withItems _ _ := rfl

instance : LawfulItem Event where
  repeatRule_withRepeat _ _ := rfl
  occurrences_withRepeat _ _ := rfl
  id_withRepeat _ _ := rfl
  repeatRule_withOccurrences _ _ := rfl
  occurrences_withOccurrences _ _ := rfl
  id_withOccurrences _ _ := rfl
  id_applyPatch _ _ := rfl
  occurrences_applyPatch _ _ := rfl
  repeatRule_applyPatch _ _ := rfl
  repeatRule_created _ _ _ := rfl
  occurrences_created _ _ _ := rfl
  id_created _ _ _ := rfl
  itemsOf_withItems _ _ := rfl

end Agenda
end Parvane

/-!
## Instances of a series

An instance of a series is a day on which the rule occurs and which is not excluded.
-/

namespace Parvane
namespace Agenda

open Repeats

section

variable {T : Type} [Item T]

/-- The first mark of a day. -/
def occurrenceOf (item : T) (day : String) : Option Occurrence :=
  ((Item.occurrences item).getD []).find? fun occurrence => occurrence.day == day

def isExcluded (occurrence : Option Occurrence) : Bool :=
  occurrence.any fun occurrence => occurrence.excluded.getD false

/-- The days of a range that have an instance; the search may not be done after the given number
of rounds. -/
def instancesOf (rounds : Nat) (item : T) (fromDay toDay : String) : Option (List String) :=
  match Item.repeatRule item with
  | none => some []
  | some rule =>
      (forEachRepeatDay (fun _ => false) rounds rule fromDay toDay).map
        (List.filter fun day => !isExcluded (occurrenceOf item day))

def instanceOn (item : T) (day : String) : Bool :=
  match Item.repeatRule item with
  | none => false
  | some rule => occursOn rule day && !isExcluded (occurrenceOf item day)

def instanceKey (item : T) : String :=
  match truthy (Item.instanceDay item) with
  | none => Item.id item
  | some day => Item.id item ++ "@" ++ day

end

/-- The task of a day: what was done is taken from the mark of the day. -/
def taskInstance (task : Task) (day : String) : Task :=
  let occurrence := occurrenceOf task day
  let isDone := occurrence.any fun occurrence => occurrence.done.getD false
  let doneSteps := (occurrence.bind Occurrence.doneSteps).getD []
  { task with
    day := some day
    due := none
    status := if isDone then "done" else if task.status = "done" then "queue" else task.status
    steps := task.steps.mapIdx fun index step =>
      { step with isDone := decide ((index : Int) ∈ doneSteps) }
    instanceDay := some day }

def eventInstance (event : Event) (day : String) : Event :=
  { event with day := some day, instanceDay := some day }

section

variable {T : Type} [Item T] {item : T} {rule : Repeat} {day : String}

theorem instanceOn_iff (isRepeat : Item.repeatRule item = some rule) :
    instanceOn item day = true ↔
      occursOn rule day = true ∧ isExcluded (occurrenceOf item day) = false := by
  unfold instanceOn
  rw [isRepeat]
  simp only [Bool.and_eq_true, Bool.not_eq_true']

end

end Agenda
end Parvane
