import Parvane.Domain.Stamp

/-!
# Messages of the planner

Tasks, events and lists have a stamp on every field.  Goal periods, health
records, lines of text input and food entries have one stamp for the whole record
and a tombstone beside it.
-/

namespace Parvane.Planner

open Wire Domain

/-- A double-precision number as its bits.  The two zeros are equal numbers and
are written alike, so only the positive one is a value here. -/
structure Double where
  bits : UInt64
  notNegativeZero : bits ≠ 0x8000000000000000
  deriving DecidableEq

namespace Double

def zero : Double := ⟨0, by decide⟩

@[ext] theorem ext {first second : Double} (equal : first.bits = second.bits) : first = second := by
  cases first
  cases second
  cases equal
  rfl

/-- The exponent is not that of infinities and of undefined results. -/
def isFinite (value : Double) : Bool :=
  value.bits >>> 52 &&& 0x7FF != 0x7FF

/-- Below zero; the sign bit decides, the negative zero being excluded. -/
def isNegative (value : Double) : Bool :=
  value.bits >>> 63 == 1

end Double

/-- A double field, left out when zero. -/
def double (number : Nat) (value : Double) : List Field :=
  Wire.double number value.bits

@[simp] theorem select_double (wanted number : Nat) (value : Double) :
    select wanted (double number value) =
      if number = wanted then double number value else [] :=
  Wire.select_double wanted number value.bits

@[simp] theorem double_inj (number : Nat) (first second : Double) :
    double number first = double number second ↔ first = second := by
  rw [double, double, Wire.double_inj]
  exact ⟨Double.ext, congrArg Double.bits⟩

/-- A list of small integers packed into one field. -/
def packed32 (number : Nat) (values : List UInt32) : List Field :=
  packed number (values.map UInt32.toNat)

@[simp] theorem select_packed32 (wanted number : Nat) (values : List UInt32) :
    select wanted (packed32 number values) =
      if number = wanted then packed32 number values else [] :=
  select_packed wanted number _

@[simp] theorem packed32_inj (number : Nat) (first second : List UInt32) :
    packed32 number first = packed32 number second ↔ first = second := by
  have toNat_injective : Function.Injective UInt32.toNat :=
    fun _ _ => UInt32.toNat_inj.1
  rw [packed32, packed32, packed_inj]
  exact (List.map_injective_iff.2 toNat_injective).eq_iff

/-- A message with a stamp of its own. -/
class Stamped (α : Type) extends Message α where
  stamp : α -> Option LwwStamp

/-! ## Stamped fields -/

@[ext] structure Str where
  stamp : Option LwwStamp
  value : String
  deriving DecidableEq

instance : Stamped Str where
  fields str := message 1 str.stamp ++ string 2 str.value
  fields_injective first second equal := by
    simpa [Str.ext_iff] using select_each [1, 2] equal
  stamp := Str.stamp

@[ext] structure U32 where
  stamp : Option LwwStamp
  value : UInt32
  unset : Bool
  deriving DecidableEq

instance : Stamped U32 where
  fields number := message 1 number.stamp ++ uint32 2 number.value ++ flag 3 number.unset
  fields_injective first second equal := by
    simpa [U32.ext_iff] using select_each [1, 2, 3] equal
  stamp := U32.stamp

@[ext] structure I32 where
  stamp : Option LwwStamp
  value : Int32
  deriving DecidableEq

instance : Stamped I32 where
  fields number := message 1 number.stamp ++ int32 2 number.value
  fields_injective first second equal := by
    simpa [I32.ext_iff] using select_each [1, 2] equal
  stamp := I32.stamp

@[ext] structure Flag where
  stamp : Option LwwStamp
  value : Bool
  deriving DecidableEq

instance : Stamped Flag where
  fields truth := message 1 truth.stamp ++ flag 2 truth.value
  fields_injective first second equal := by
    simpa [Flag.ext_iff] using select_each [1, 2] equal
  stamp := Flag.stamp

@[ext] structure Step where
  text : String
  isDone : Bool
  deriving DecidableEq

instance : Message Step where
  fields step := string 1 step.text ++ flag 2 step.isDone
  fields_injective first second equal := by
    simpa [Step.ext_iff] using select_each [1, 2] equal

@[ext] structure Steps where
  stamp : Option LwwStamp
  items : List Step
  deriving DecidableEq

instance : Stamped Steps where
  fields steps := message 1 steps.stamp ++ repeated 2 steps.items
  fields_injective first second equal := by
    simpa [Steps.ext_iff] using select_each [1, 2] equal
  stamp := Steps.stamp

@[ext] structure Weekdays where
  stamp : Option LwwStamp
  days : List UInt32
  deriving DecidableEq

instance : Stamped Weekdays where
  fields weekdays := message 1 weekdays.stamp ++ packed32 2 weekdays.days
  fields_injective first second equal := by
    simpa [Weekdays.ext_iff] using select_each [1, 2] equal
  stamp := Weekdays.stamp

@[ext] structure Repeat where
  stamp : Option LwwStamp
  kind : Int32
  interval : UInt32
  weekdays : List UInt32
  monthDay : UInt32
  startDay : String
  endDay : String
  count : UInt32
  deriving DecidableEq

instance : Stamped Repeat where
  fields rule :=
    message 1 rule.stamp ++ int32 2 rule.kind ++ uint32 3 rule.interval ++
      packed32 4 rule.weekdays ++ uint32 5 rule.monthDay ++
      string 6 rule.startDay ++ string 7 rule.endDay ++ uint32 8 rule.count
  fields_injective first second equal := by
    simpa [Repeat.ext_iff] using select_each [1, 2, 3, 4, 5, 6, 7, 8] equal
  stamp := Repeat.stamp

@[ext] structure Occurrence where
  day : String
  stamp : Option LwwStamp
  excluded : Bool
  done : Bool
  doneSteps : List UInt32
  deriving DecidableEq

instance : Stamped Occurrence where
  fields occurrence :=
    string 1 occurrence.day ++ message 2 occurrence.stamp ++
      flag 3 occurrence.excluded ++ flag 4 occurrence.done ++
      packed32 5 occurrence.doneSteps
  fields_injective first second equal := by
    simpa [Occurrence.ext_iff] using select_each [1, 2, 3, 4, 5] equal
  stamp := Occurrence.stamp

@[ext] structure Origin where
  stamp : Option LwwStamp
  seriesId : String
  day : String
  deriving DecidableEq

instance : Stamped Origin where
  fields origin := message 1 origin.stamp ++ string 2 origin.seriesId ++ string 3 origin.day
  fields_injective first second equal := by
    simpa [Origin.ext_iff] using select_each [1, 2, 3] equal
  stamp := Origin.stamp

@[ext] structure Source where
  stamp : Option LwwStamp
  chat : String
  opId : String
  deriving DecidableEq

instance : Stamped Source where
  fields source := message 1 source.stamp ++ string 2 source.chat ++ string 3 source.opId
  fields_injective first second equal := by
    simpa [Source.ext_iff] using select_each [1, 2, 3] equal
  stamp := Source.stamp

/-! ## Objects with a stamp on every field -/

@[ext] structure Task where
  id : String
  name : Option Str := none
  description : Option Str := none
  steps : Option Steps := none
  status : Option Str := none
  listId : Option Str := none
  rank : Option I32 := none
  day : Option Str := none
  start : Option Str := none
  due : Option Str := none
  minutes : Option U32 := none
  deleted : Option LwwStamp := none
  repeatRule : Option Repeat := none
  occurrences : List Occurrence := []
  origin : Option Origin := none
  source : Option Source := none
  remind : Option U32 := none
  deriving DecidableEq

@[ext] structure Event where
  id : String
  name : Option Str := none
  start : Option Str := none
  «end» : Option Str := none
  weekdays : Option Weekdays := none
  day : Option Str := none
  deleted : Option LwwStamp := none
  repeatRule : Option Repeat := none
  occurrences : List Occurrence := []
  origin : Option Origin := none
  allDay : Option Flag := none
  isHoliday : Option Flag := none
  color : Option U32 := none
  description : Option Str := none
  remind : Option U32 := none
  listId : Option Str := none
  deriving DecidableEq

/-- A list of tasks. -/
@[ext] structure TaskList where
  id : String
  name : Option Str := none
  order : Option I32 := none
  deleted : Option LwwStamp := none
  color : Option U32 := none
  deriving DecidableEq

@[ext] structure LearnedWord where
  id : String
  kind : Option Str := none
  kindCount : Option U32 := none
  minutes : Option U32 := none
  minutesCount : Option U32 := none
  touched : Option U32 := none
  deleted : Option LwwStamp := none
  deriving DecidableEq

@[ext] structure Reminded where
  id : String
  stamp : Option LwwStamp := none
  deleted : Option LwwStamp := none
  deriving DecidableEq

@[ext] structure Settings where
  stamp : Option LwwStamp
  dayStart : UInt32
  dayEnd : UInt32
  lunchStart : UInt32
  lunchEnd : UInt32
  margin : UInt32
  budget : UInt32
  deriving DecidableEq

instance : Stamped Settings where
  fields settings :=
    message 1 settings.stamp ++ uint32 2 settings.dayStart ++ uint32 3 settings.dayEnd ++
      uint32 4 settings.lunchStart ++ uint32 5 settings.lunchEnd ++
      uint32 6 settings.margin ++ uint32 7 settings.budget
  fields_injective first second equal := by
    simpa [Settings.ext_iff] using select_each [1, 2, 3, 4, 5, 6, 7] equal
  stamp := Settings.stamp

@[ext] structure Goal where
  target : UInt32
  tolerance : UInt32
  set : Bool
  deriving DecidableEq

instance : Message Goal where
  fields goal := uint32 1 goal.target ++ uint32 2 goal.tolerance ++ flag 3 goal.set
  fields_injective first second equal := by
    simpa [Goal.ext_iff] using select_each [1, 2, 3] equal

@[ext] structure GoalSet where
  stamp : Option LwwStamp
  kcal : Option Goal
  protein : Option Goal
  fat : Option Goal
  carbs : Option Goal
  fiber : Option Goal
  water : Option Goal
  deriving DecidableEq

instance : Stamped GoalSet where
  fields goals :=
    message 1 goals.stamp ++ message 2 goals.kcal ++ message 3 goals.protein ++
      message 4 goals.fat ++ message 5 goals.carbs ++ message 6 goals.fiber ++
      message 7 goals.water
  fields_injective first second equal := by
    simpa [GoalSet.ext_iff] using select_each [1, 2, 3, 4, 5, 6, 7] equal
  stamp := GoalSet.stamp

/-! ## Records with one stamp -/

@[ext] structure GoalPeriod where
  id : String
  stamp : Option LwwStamp := none
  startDay : String := ""
  endDay : String := ""
  kcal : Option Goal := none
  protein : Option Goal := none
  fat : Option Goal := none
  carbs : Option Goal := none
  fiber : Option Goal := none
  water : Option Goal := none
  deleted : Option LwwStamp := none
  deriving DecidableEq

instance : Stamped GoalPeriod where
  fields period :=
    string 1 period.id ++ message 2 period.stamp ++ string 3 period.startDay ++
      string 4 period.endDay ++ message 5 period.kcal ++ message 6 period.protein ++
      message 7 period.fat ++ message 8 period.carbs ++ message 9 period.fiber ++
      message 10 period.water ++ message 11 period.deleted
  fields_injective first second equal := by
    simpa [GoalPeriod.ext_iff] using
      select_each [1, 2, 3, 4, 5, 6, 7, 8, 9, 10, 11] equal
  stamp := GoalPeriod.stamp

@[ext] structure FoodEntry where
  id : String
  stamp : Option LwwStamp := none
  name : String := ""
  meal : String := ""
  kcal : Double := .zero
  protein : Double := .zero
  fat : Double := .zero
  carbs : Double := .zero
  fiber : Double := .zero
  grams : Double := .zero
  known : UInt32 := 0
  per100 : Bool := false
  deleted : Option LwwStamp := none
  sugar : Double := .zero
  salt : Double := .zero
  time : String := ""
  deriving DecidableEq

instance : Stamped FoodEntry where
  fields entry :=
    string 1 entry.id ++ message 2 entry.stamp ++ string 3 entry.name ++
      string 4 entry.meal ++ double 5 entry.kcal ++ double 6 entry.protein ++
      double 7 entry.fat ++ double 8 entry.carbs ++ double 9 entry.fiber ++
      double 10 entry.grams ++ uint32 11 entry.known ++ flag 12 entry.per100 ++
      message 13 entry.deleted ++ double 14 entry.sugar ++ double 15 entry.salt ++
      string 16 entry.time
  fields_injective first second equal := by
    simpa [FoodEntry.ext_iff] using
      select_each [1, 2, 3, 4, 5, 6, 7, 8, 9, 10, 11, 12, 13, 14, 15, 16] equal
  stamp := FoodEntry.stamp

@[ext] structure HealthRecord where
  id : String
  stamp : Option LwwStamp := none
  day : String := ""
  kind : String := ""
  time : String := ""
  endTime : String := ""
  value : Double := .zero
  value2 : Double := .zero
  name : String := ""
  details : String := ""
  deleted : Option LwwStamp := none
  deriving DecidableEq

instance : Stamped HealthRecord where
  fields record :=
    string 1 record.id ++ message 2 record.stamp ++ string 3 record.day ++
      string 4 record.kind ++ string 5 record.time ++ string 6 record.endTime ++
      double 7 record.value ++ double 8 record.value2 ++ string 9 record.name ++
      string 10 record.details ++ message 11 record.deleted
  fields_injective first second equal := by
    simpa [HealthRecord.ext_iff] using
      select_each [1, 2, 3, 4, 5, 6, 7, 8, 9, 10, 11] equal
  stamp := HealthRecord.stamp

@[ext] structure QuickLine where
  id : String
  stamp : Option LwwStamp := none
  text : String := ""
  count : UInt32 := 0
  touched : UInt32 := 0
  hidden : Bool := false
  deleted : Option LwwStamp := none
  deriving DecidableEq

instance : Stamped QuickLine where
  fields line :=
    string 1 line.id ++ message 2 line.stamp ++ string 3 line.text ++
      uint32 4 line.count ++ uint32 5 line.touched ++ flag 6 line.hidden ++
      message 7 line.deleted
  fields_injective first second equal := by
    simpa [QuickLine.ext_iff] using select_each [1, 2, 3, 4, 5, 6, 7] equal
  stamp := QuickLine.stamp

@[ext] structure NutritionDay where
  day : String
  entries : List FoodEntry := []
  isComplete : Option Flag := none
  fixedGoals : Option GoalSet := none
  waterMl : Option U32 := none
  deriving DecidableEq

structure Migration where
  sourceDevice : String
  count : UInt32
  deriving DecidableEq

/-! ## Changes -/

inductive ChangeKind
  | task (task : Task)
  | event (event : Event)
  | list (list : TaskList)
  | nutritionDay (day : NutritionDay)
  | settings (settings : Settings)
  | goals (goals : GoalSet)
  | migration (migration : Migration)
  | goalPeriod (period : GoalPeriod)
  | health (record : HealthRecord)
  | learned (word : LearnedWord)
  | quickLine (line : QuickLine)
  | reminded (mark : Reminded)
  deriving DecidableEq

structure Change where
  change : Option ChangeKind
  deriving DecidableEq

structure PlannerOp where
  changes : List Change
  deriving DecidableEq

end Parvane.Planner
