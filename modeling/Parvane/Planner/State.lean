import Parvane.Planner.Checks
import Parvane.Foundation.KeyedList

/-!
# The planner state

A newer value of a field or record replaces an older one.  Newer means a greater
stamp, and for equal stamps a greater encoding.  The revision counter and the
cached size of the state are left out; they do not take part in the comparison of
states.
-/

namespace Parvane.Planner

open Wire Domain Convergence

/-! ## The order of values -/

/-- The order of a stamp, the least one standing for no stamp. -/
def stampKey (stamp : Option LwwStamp) : UInt64 ×ₗ String :=
  match stamp with
  | some stamp => toLex (stamp.lamport, stamp.deviceId)
  | none => toLex (0, "")

/-- Stamp first, then the bytes of the value. -/
def isNewer
    (incoming : Option LwwStamp) (incomingBytes : Bytes) (current : Option LwwStamp)
    (currentBytes : Bytes) : Bool :=
  match incoming, current with
  | none, _ => false
  | some _, none => true
  | some incoming, some current =>
      (toLex (current.lamport, toLex (current.deviceId, currentBytes))
        : UInt64 ×ₗ String ×ₗ Bytes) <
      toLex (incoming.lamport, toLex (incoming.deviceId, incomingBytes))

/-- Merge a stamped field. -/
def mergeReg [Stamped α] (current incoming : Option α) : Option α :=
  match incoming with
  | none => current
  | some value =>
      if isNewer (Stamped.stamp value) (encode value) (current.bind Stamped.stamp)
          (current.elim [] encode) then
        some value
      else current

/-- Merge a tombstone. -/
def mergeDeleted (current incoming : Option LwwStamp) : Option LwwStamp :=
  match incoming with
  | none => current
  | some stamp => if stampKey current < stampKey (some stamp) then some stamp else current

/-- The newer of two occurrences of one day. -/
def newerOccurrence (current incoming : Occurrence) : Occurrence :=
  if isNewer incoming.stamp (encode incoming) current.stamp (encode current) then incoming
  else current

/-- Merge the occurrences of a series day by day. -/
def mergeOccurrences (current incoming : List Occurrence) : List Occurrence :=
  KeyedList.mergeAll Occurrence.day newerOccurrence id current incoming

/-! ## Objects with a stamp on every field -/

def mergeTask (current incoming : Task) : Task where
  id := current.id
  name := mergeReg current.name incoming.name
  description := mergeReg current.description incoming.description
  steps := mergeReg current.steps incoming.steps
  status := mergeReg current.status incoming.status
  listId := mergeReg current.listId incoming.listId
  rank := mergeReg current.rank incoming.rank
  day := mergeReg current.day incoming.day
  start := mergeReg current.start incoming.start
  due := mergeReg current.due incoming.due
  minutes := mergeReg current.minutes incoming.minutes
  repeatRule := mergeReg current.repeatRule incoming.repeatRule
  origin := mergeReg current.origin incoming.origin
  source := mergeReg current.source incoming.source
  remind := mergeReg current.remind incoming.remind
  occurrences := mergeOccurrences current.occurrences incoming.occurrences
  deleted := mergeDeleted current.deleted incoming.deleted

def mergeEvent (current incoming : Event) : Event where
  id := current.id
  name := mergeReg current.name incoming.name
  start := mergeReg current.start incoming.start
  «end» := mergeReg current.end incoming.end
  weekdays := mergeReg current.weekdays incoming.weekdays
  day := mergeReg current.day incoming.day
  repeatRule := mergeReg current.repeatRule incoming.repeatRule
  origin := mergeReg current.origin incoming.origin
  allDay := mergeReg current.allDay incoming.allDay
  isHoliday := mergeReg current.isHoliday incoming.isHoliday
  color := mergeReg current.color incoming.color
  description := mergeReg current.description incoming.description
  remind := mergeReg current.remind incoming.remind
  listId := mergeReg current.listId incoming.listId
  occurrences := mergeOccurrences current.occurrences incoming.occurrences
  deleted := mergeDeleted current.deleted incoming.deleted

def mergeReminded (current incoming : Reminded) : Reminded where
  id := current.id
  stamp :=
    if stampKey current.stamp < stampKey incoming.stamp then incoming.stamp
    else current.stamp
  deleted := mergeDeleted current.deleted incoming.deleted

def mergeLearned (current incoming : LearnedWord) : LearnedWord where
  id := current.id
  kind := mergeReg current.kind incoming.kind
  kindCount := mergeReg current.kindCount incoming.kindCount
  minutes := mergeReg current.minutes incoming.minutes
  minutesCount := mergeReg current.minutesCount incoming.minutesCount
  touched := mergeReg current.touched incoming.touched
  deleted := mergeDeleted current.deleted incoming.deleted

def mergeList (current incoming : TaskList) : TaskList where
  id := current.id
  name := mergeReg current.name incoming.name
  order := mergeReg current.order incoming.order
  color := mergeReg current.color incoming.color
  deleted := mergeDeleted current.deleted incoming.deleted

/-! ## Records with one stamp -/

/-- A record that is merged as a whole: its identifier, its tombstone, and the
bare tombstone of an identifier. -/
class Record (α : Type) extends Stamped α where
  id : α -> String
  deleted : α -> Option LwwStamp
  withDeleted : α -> Option LwwStamp -> α
  tombstone : String -> Option LwwStamp -> α

instance : Record GoalPeriod where
  id := GoalPeriod.id
  deleted := GoalPeriod.deleted
  withDeleted period deleted := { period with deleted := deleted }
  tombstone id deleted := { id := id, deleted := deleted }

instance : Record HealthRecord where
  id := HealthRecord.id
  deleted := HealthRecord.deleted
  withDeleted record deleted := { record with deleted := deleted }
  tombstone id deleted := { id := id, deleted := deleted }

instance : Record QuickLine where
  id := QuickLine.id
  deleted := QuickLine.deleted
  withDeleted line deleted := { line with deleted := deleted }
  tombstone id deleted := { id := id, deleted := deleted }

instance : Record FoodEntry where
  id := FoodEntry.id
  deleted := FoodEntry.deleted
  withDeleted entry deleted := { entry with deleted := deleted }
  tombstone id deleted := { id := id, deleted := deleted }

/-- Merge a record into the one that is there.  The encodings that break a tie
contain the tombstones. -/
def joinRecord [Record α] (current incoming : α) : α :=
  let deleted := Record.deleted current
  let kept :=
    if isNewer (Stamped.stamp incoming) (encode incoming)
        (Stamped.stamp current) (encode current) then
      Record.withDeleted incoming deleted
    else current
  Record.withDeleted kept (mergeDeleted (Record.deleted kept) (Record.deleted incoming))

/-- A record that was not there; without a stamp only its tombstone is kept. -/
def freshRecord [Record α] (incoming : α) : α :=
  if (Stamped.stamp incoming).isNone then
    Record.tombstone (Record.id incoming) (Record.deleted incoming)
  else incoming

/-- Merge a record into a map. -/
def mergeRecord [Record α]
    (records : Std.ExtTreeMap String α) (incoming : α) : Std.ExtTreeMap String α :=
  records.alter (Record.id incoming) fun slot =>
    KeyedList.slotStep joinRecord freshRecord slot incoming

def mergeDay (current incoming : NutritionDay) : NutritionDay where
  day := current.day
  isComplete := mergeReg current.isComplete incoming.isComplete
  fixedGoals := mergeReg current.fixedGoals incoming.fixedGoals
  waterMl := mergeReg current.waterMl incoming.waterMl
  entries := KeyedList.mergeAll FoodEntry.id joinRecord freshRecord
    current.entries incoming.entries

/-! ## The state -/

/-- The merged state of a planner container. -/
@[ext] structure PlannerState where
  tasks : Std.ExtTreeMap String Task
  events : Std.ExtTreeMap String Event
  lists : Std.ExtTreeMap String TaskList
  nutrition : Std.ExtTreeMap String NutritionDay
  settings : Option Settings
  goals : Option GoalSet
  goalPeriods : Std.ExtTreeMap String GoalPeriod
  health : Std.ExtTreeMap String HealthRecord
  learned : Std.ExtTreeMap String LearnedWord
  quickLines : Std.ExtTreeMap String QuickLine
  reminded : Std.ExtTreeMap String Reminded
  deriving DecidableEq

def PlannerState.new : PlannerState where
  tasks := ∅
  events := ∅
  lists := ∅
  nutrition := ∅
  settings := none
  goals := none
  goalPeriods := ∅
  health := ∅
  learned := ∅
  quickLines := ∅
  reminded := ∅

/-- Merge an object into a map where it appears empty when it was not there. -/
def mergeObject
    (merge : α -> α -> α) (objects : Std.ExtTreeMap String α) (key : String)
    (empty incoming : α) : Std.ExtTreeMap String α :=
  objects.alter key fun slot => some (merge (slot.getD empty) incoming)

section

variable (isUppercase : Char -> Bool)

/-- Apply one change. -/
def applyChange (change : Change) : Update PlannerState Unit :=
  match change.change with
  | some (.task task) => do
      checkTask task
      modify fun state =>
        { state with tasks := mergeObject mergeTask state.tasks task.id { id := task.id } task }
  | some (.event event) => do
      checkEvent event
      modify fun state =>
        { state with
          events := mergeObject mergeEvent state.events event.id { id := event.id } event }
  | some (.list list) => do
      checkList list
      modify fun state =>
        { state with lists := mergeObject mergeList state.lists list.id { id := list.id } list }
  | some (.nutritionDay day) => do
      checkDay day
      modify fun state =>
        { state with
          nutrition := mergeObject mergeDay state.nutrition day.day { day := day.day } day }
  | some (.settings settings) => do
      checkSettings settings
      modify fun state =>
        { state with settings := mergeReg state.settings (some settings) }
  | some (.goals goals) => do
      checkGoals goals
      modify fun state => { state with goals := mergeReg state.goals (some goals) }
  | some (.goalPeriod period) => do
      checkGoalPeriod period
      modify fun state =>
        { state with goalPeriods := mergeRecord state.goalPeriods period }
  | some (.health record) => do
      checkHealth record
      modify fun state => { state with health := mergeRecord state.health record }
  | some (.learned word) => do
      checkLearned isUppercase word
      modify fun state =>
        { state with
          learned := mergeObject mergeLearned state.learned word.id { id := word.id } word }
  | some (.quickLine line) => do
      checkQuickLine line
      modify fun state => { state with quickLines := mergeRecord state.quickLines line }
  | some (.reminded mark) => do
      checkReminded mark
      modify fun state =>
        { state with
          reminded := mergeObject mergeReminded state.reminded mark.id { id := mark.id } mark }
  | some (.migration _) => pure ()
  | none => pure ()

/-- The stamps of a field that may be absent. -/
def regStamp [Stamped α] (register : Option α) : List LwwStamp :=
  (register.bind Stamped.stamp).toList

/-- All stamps of a change. -/
def changeStamps (change : Change) : List LwwStamp :=
  match change.change with
  | some (.task t) =>
      ([t.name, t.description, t.status, t.listId, t.day, t.start, t.due].flatMap regStamp) ++
        regStamp t.steps ++ regStamp t.rank ++ regStamp t.minutes ++ regStamp t.repeatRule ++
        regStamp t.origin ++ regStamp t.source ++ regStamp t.remind ++
        t.occurrences.filterMap Occurrence.stamp ++ t.deleted.toList
  | some (.event e) =>
      ([e.name, e.start, e.end, e.day, e.description, e.listId].flatMap regStamp) ++
        regStamp e.weekdays ++ regStamp e.repeatRule ++ regStamp e.origin ++
        regStamp e.allDay ++ regStamp e.isHoliday ++ regStamp e.color ++ regStamp e.remind ++
        e.occurrences.filterMap Occurrence.stamp ++ e.deleted.toList
  | some (.list l) =>
      regStamp l.name ++ regStamp l.order ++ regStamp l.color ++ l.deleted.toList
  | some (.nutritionDay d) =>
      regStamp d.isComplete ++ regStamp d.fixedGoals ++ regStamp d.waterMl ++
        d.entries.flatMap fun e => e.stamp.toList ++ e.deleted.toList
  | some (.settings s) => s.stamp.toList
  | some (.goals g) => g.stamp.toList
  | some (.goalPeriod p) => p.stamp.toList ++ p.deleted.toList
  | some (.health r) => r.stamp.toList ++ r.deleted.toList
  | some (.learned w) =>
      regStamp w.kind ++ ([w.kindCount, w.minutes, w.minutesCount, w.touched].flatMap regStamp) ++
        w.deleted.toList
  | some (.quickLine l) => l.stamp.toList ++ l.deleted.toList
  | some (.reminded r) => r.stamp.toList ++ r.deleted.toList
  | some (.migration _) => []
  | none => []

/-- All stamps of an operation, of which there has to be one. -/
def opStamps (op : PlannerOp) : Result (List Stamp) := do
  let stamps ← (op.changes.flatMap changeStamps).mapM fun stamp => Stamp.fromPb (some stamp)
  require (!stamps.isEmpty) (.invalidField "changes")
  return stamps

/-- Apply changes one by one, skip the malformed ones, and count the rest. -/
def applyChanges : List Change -> PlannerState -> Nat × PlannerState
  | [], state => (0, state)
  | change :: changes, state =>
      match (applyChange isUppercase change).exec state with
      | (.ok _, later) =>
          let (count, final) := applyChanges changes later
          (count + 1, final)
      | (.error _, later) => applyChanges changes later

/-- Apply an operation of one device; a stamp of another device refuses all of it. -/
def applyOp (op : PlannerOp) (authorDevice : String) : Update PlannerState Nat := do
  let stamps ← opStamps op
  require (stamps.all fun stamp => stamp.deviceId == authorDevice) .contextMismatch
  modifyGet (applyChanges isUppercase op.changes)

end

end Parvane.Planner
