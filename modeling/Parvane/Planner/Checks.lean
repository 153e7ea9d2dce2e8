import Parvane.Planner.Messages

/-!
# Checks of planner values

A change that fails a check is skipped; the other changes of its operation are
applied.
-/

namespace Parvane.Planner

open Wire Domain

def minTaskMinutes : UInt32 := 5
def minutesInDay : UInt32 := 1440
def minBudget : UInt32 := 60
def maxMargin : UInt32 := 180
def statuses : List String := ["queue", "active", "later", "waiting", "done"]
def meals : List String := ["breakfast", "lunch", "dinner", "snack", "other"]
def maxId : Nat := 64
def maxName : Nat := 200
def maxDescription : Nat := 4000
def maxListName : Nat := 60
def maxListColor : UInt32 := 8
def maxFoodName : Nat := 120
def maxOccurrences : Nat := 2000
def maxRepeatInterval : UInt32 := 99
def maxRepeatCount : UInt32 := 999
def maxChat : Nat := 128
def maxHealthKind : Nat := 16
def maxHealthDetails : Nat := 4000
def learnedKinds : List String := ["task", "event"]
def maxLearnedCount : UInt32 := 5
def maxQuickText : Nat := 1200
def maxRemindMinutes : UInt32 := 10080

/-! ## Texts -/

/-- The number written by two digits. -/
def twoDigits (high low : UInt8) : Nat :=
  10 * (high.toNat - 48) + (low.toNat - 48)

/-- A day `YYYY-MM-DD`. -/
def isDay (s : String) : Bool :=
  match utf8 s with
  | [y1, y2, y3, y4, dash1, m1, m2, dash2, d1, d2] =>
      ([y1, y2, y3, y4, m1, m2, d1, d2].all isDigitByte)
        && dash1 == 45 && dash2 == 45
        && 1 ≤ twoDigits m1 m2 && twoDigits m1 m2 ≤ 12
        && 1 ≤ twoDigits d1 d2 && twoDigits d1 d2 ≤ 31
  | _ => false

/-- A time `HH:MM`. -/
def isTime (s : String) : Bool :=
  match utf8 s with
  | [h1, h2, colon, m1, m2] =>
      colon == 58 && ([h1, h2, m1, m2].all isDigitByte)
        && twoDigits h1 h2 < 24 && twoDigits m1 m2 < 60
  | _ => false

def isId (s : String) : Bool :=
  !s.isEmpty && s.utf8ByteSize ≤ maxId &&
    s.toList.all fun c => c.isAlphanum || c == '-' || c == '_'

/-- Nothing but white space. -/
def isBlank (s : String) : Bool :=
  s.toList.all isWhiteSpace

/-- The 32-bit number that a text spells, with an optional plus sign. -/
def parseU32 (s : String) : Option Nat :=
  let digits :=
    match s.toList with
    | '+' :: rest => rest
    | letters => letters
  if digits.isEmpty || !digits.all Char.isDigit then none
  else
    let value := digits.foldl (fun value digit => 10 * value + (digit.toNat - 48)) 0
    if value < 4294967296 then some value else none

def checkStr (v : Option Str) (max : Nat) (ok : String -> Bool) : Result Unit :=
  require (v.all fun s => s.value.utf8ByteSize ≤ max && ok s.value) (.invalidField "value")

/-- Empty or of the given form. -/
def emptyOr (form : String -> Bool) (s : String) : Bool :=
  s.isEmpty || form s

/-! ## Objects with a stamp on every field -/

/-- The kinds of repetition; the first one is unspecified. -/
def isRepeatKind (kind : Int32) : Bool :=
  0 ≤ kind && kind ≤ 4

def checkRepeat (r : Repeat) : Result Unit := do
  require (isRepeatKind r.kind) (.invalidField "repeat")
  if r.kind = 0 then return ()
  else
    require (1 ≤ r.interval && r.interval ≤ maxRepeatInterval) (.invalidField "interval")
    require (r.weekdays.length ≤ 7 && r.weekdays.all (· ≤ 6) && decide r.weekdays.Nodup)
      (.invalidField "weekdays")
    require (!(r.kind == 2 && r.weekdays.isEmpty)) (.invalidField "weekdays")
    require (r.monthDay ≤ 31 && r.count ≤ maxRepeatCount) (.invalidField "repeat")
    require (emptyOr isDay r.startDay && emptyOr isDay r.endDay) (.invalidField "repeat_day")
    require (r.startDay.isEmpty || r.endDay.isEmpty || !(r.endDay < r.startDay))
      (.invalidField "end_day")

def checkOccurrences (items : List Occurrence) : Result Unit := do
  require (items.length ≤ maxOccurrences) (.invalidField "occurrences")
  require
    (items.all fun o => isDay o.day && o.doneSteps.length ≤ 100 && o.doneSteps.all (· < 100))
    (.invalidField "occurrence")

def checkOrigin (o : Origin) : Result Unit :=
  require (o.seriesId.utf8ByteSize ≤ maxId && emptyOr isDay o.day) (.invalidField "origin")

def checkRemind (r : Option U32) : Result Unit :=
  require (r.all fun r => r.unset || r.value ≤ maxRemindMinutes) (.invalidField "remind")

/-- Run a check on a field that may be absent. -/
def checkOption (v : Option α) (check : α -> Result Unit) : Result Unit :=
  match v with
  | none => .ok ()
  | some v => check v

def isMinutes (m : U32) : Bool :=
  m.unset || (minTaskMinutes ≤ m.value && m.value ≤ minutesInDay)

/-- Hexadecimal digits of either case. -/
def isHexDigit (c : Char) : Bool :=
  c.isDigit || ('a' ≤ c && c ≤ 'f') || ('A' ≤ c && c ≤ 'F')

def checkTask (t : Task) : Result Unit := do
  require (isId t.id) (.invalidField "id")
  checkStr t.name maxName fun s => !isBlank s
  checkStr t.description maxDescription fun _ => true
  checkStr t.status 16 fun s => statuses.contains s
  checkStr t.listId maxId (emptyOr isId)
  checkStr t.day 10 (emptyOr isDay)
  checkStr t.due 10 (emptyOr isDay)
  checkStr t.start 5 (emptyOr isTime)
  require (t.minutes.all isMinutes) (.invalidField "minutes")
  checkRemind t.remind
  require
    (t.steps.all fun steps =>
      steps.items.length ≤ 100 &&
        steps.items.all fun s => !s.text.isEmpty && s.text.utf8ByteSize ≤ 160)
    (.invalidField "steps")
  checkOption t.repeatRule checkRepeat
  checkOccurrences t.occurrences
  checkOption t.origin checkOrigin
  require
    (t.source.all fun source =>
      source.chat.utf8ByteSize ≤ maxChat && source.opId.utf8ByteSize ≤ 32 &&
        source.opId.toList.all isHexDigit)
    (.invalidField "source")

def checkEvent (e : Event) : Result Unit := do
  require (isId e.id) (.invalidField "id")
  checkStr e.name maxName fun s => !isBlank s
  checkStr e.description maxDescription fun _ => true
  checkStr e.listId maxId (emptyOr isId)
  checkStr e.start 5 isTime
  checkStr e.end 5 isTime
  checkStr e.day 10 (emptyOr isDay)
  require (e.weekdays.all fun w => w.days.length ≤ 7 && w.days.all (· ≤ 6))
    (.invalidField "weekdays")
  checkOption e.repeatRule checkRepeat
  checkOccurrences e.occurrences
  checkOption e.origin checkOrigin
  require (e.color.all fun c => c.value ≤ maxListColor) (.invalidField "color")
  checkRemind e.remind

def checkList (l : TaskList) : Result Unit := do
  require (isId l.id) (.invalidField "id")
  checkStr l.name maxListName fun s => !isBlank s
  require (l.color.all fun c => c.value ≤ maxListColor) (.invalidField "color")

/-- The key of a reminder mark is `<id>@<day>@<minutes>`. -/
def checkReminded (r : Reminded) : Result Unit :=
  let ok :=
    match splitParts '@' r.id with
    | [id, day, minutes] =>
        isId id && isDay day &&
          (parseU32 minutes).any fun value => value ≤ maxRemindMinutes.toNat
    | _ => false
  require ok (.invalidField "reminded")

/-- The Unicode property `Uppercase` is a parameter; nothing depends on it. -/
def checkLearned (isUppercase : Char -> Bool) (w : LearnedWord) : Result Unit := do
  require
    (!w.id.isEmpty && w.id.utf8ByteSize ≤ maxId &&
      w.id.toList.all fun c => !(isWhiteSpace c || isControl c || isUppercase c))
    (.invalidField "id")
  checkStr w.kind 16 fun s => s.isEmpty || learnedKinds.contains s
  require (w.minutes.all isMinutes) (.invalidField "minutes")
  require
    ([w.kindCount, w.minutesCount].all fun count =>
      count.all fun c => !c.unset && c.value ≤ maxLearnedCount)
    (.invalidField "count")
  require (w.touched.all fun t => !t.unset) (.invalidField "touched")

def checkGoal (g : Goal) : Result Unit :=
  require (g.target != 0 && g.tolerance ≤ g.target) (.invalidField "goal")

/-- Check the goals that are there, in the order given. -/
def checkGoalList : List (Option Goal) -> Result Unit
  | [] => .ok ()
  | goal :: goals => do
      checkOption goal checkGoal
      checkGoalList goals

def checkGoals (g : GoalSet) : Result Unit :=
  checkGoalList [g.kcal, g.protein, g.fat, g.carbs, g.fiber, g.water]

def checkSettings (s : Settings) : Result Unit := do
  require (s.dayStart ≤ minutesInDay && s.dayEnd ≤ minutesInDay && s.dayStart < s.dayEnd)
    (.invalidField "day_window")
  require (s.lunchStart ≤ minutesInDay && s.lunchEnd ≤ minutesInDay) (.invalidField "lunch")
  require
    (!(s.lunchEnd > s.lunchStart && (s.lunchStart < s.dayStart || s.lunchEnd > s.dayEnd)))
    (.invalidField "lunch")
  require (s.margin ≤ maxMargin && minBudget ≤ s.budget && s.budget ≤ minutesInDay)
    (.invalidField "margin")

/-! ## Records with one stamp -/

/-- A tombstone without a stamp carries nothing that needs a check. -/
def isTombstone (stamp deleted : Option LwwStamp) : Bool :=
  stamp.isNone && deleted.isSome

def checkGoalPeriod (p : GoalPeriod) : Result Unit := do
  require (isId p.id) (.invalidField "id")
  if isTombstone p.stamp p.deleted then return ()
  else
    require (emptyOr isDay p.startDay && emptyOr isDay p.endDay) (.invalidField "period_day")
    require (p.startDay.isEmpty || p.endDay.isEmpty || !(p.endDay < p.startDay))
      (.invalidField "end_day")
    checkGoalList ([p.kcal, p.protein, p.fat, p.carbs, p.fiber, p.water].map
      fun goal => goal.filter fun g => g.set)

/-- Finite and not below zero. -/
def isAmount (value : Double) : Bool :=
  value.isFinite && !value.isNegative

def checkEntry (e : FoodEntry) : Result Unit := do
  require (isId e.id) (.invalidField "id")
  if isTombstone e.stamp e.deleted then return ()
  else
    require (e.name.utf8ByteSize ≤ maxFoodName && meals.contains e.meal) (.invalidField "entry")
    require
      ([e.kcal, e.protein, e.fat, e.carbs, e.fiber, e.grams, e.sugar, e.salt].all isAmount)
      (.invalidField "nutrient")
    require (emptyOr isTime e.time) (.invalidField "entry_time")

def checkHealth (r : HealthRecord) : Result Unit := do
  require (isId r.id) (.invalidField "id")
  if isTombstone r.stamp r.deleted then return ()
  else
    require (isDay r.day) (.invalidField "health_day")
    require
      (!r.kind.isEmpty && r.kind.utf8ByteSize ≤ maxHealthKind && r.kind.toList.all Char.isLower)
      (.invalidField "health_kind")
    require (emptyOr isTime r.time && emptyOr isTime r.endTime) (.invalidField "health_time")
    require ([r.value, r.value2].all isAmount) (.invalidField "health_value")
    require (r.name.utf8ByteSize ≤ maxFoodName && r.details.utf8ByteSize ≤ maxHealthDetails)
      (.invalidField "health_text")

def checkQuickLine (l : QuickLine) : Result Unit := do
  require (isId l.id) (.invalidField "id")
  if isTombstone l.stamp l.deleted then return ()
  else
    require
      (!isBlank l.text && l.text.utf8ByteSize ≤ maxQuickText && !l.text.toList.any isControl)
      (.invalidField "quick_text")

/-- Check entries in turn. -/
def checkEntries : List FoodEntry -> Result Unit
  | [] => .ok ()
  | entry :: entries => do
      checkEntry entry
      checkEntries entries

def checkDay (d : NutritionDay) : Result Unit := do
  require (isDay d.day) (.invalidField "day")
  require (d.entries.length ≤ 200) (.invalidField "entries")
  checkEntries d.entries
  checkOption d.fixedGoals checkGoals

end Parvane.Planner
