import Parvane.Agenda.Items

/-!
# Changes of a series

A series is split into two at a day, ends before a day, or is moved as a whole.
-/

namespace Parvane.Agenda

open Repeats

section

variable {T : Type} [Item T]

def findIn (items : List T) (id : String) : Option T :=
  items.find? fun item => Item.id item == id

/-- Write to the first record with an id. -/
def putFirst (items : List T) (id : String) (next : T) : List T :=
  match items with
  | [] => []
  | item :: rest =>
      if Item.id item == id then next :: rest else item :: putFirst rest id next

def addDays (day : String) (delta : Int) : String :=
  keyOfEpoch (epochDays day + delta)

/-- The number of days of a rule before a day. -/
def instancesBefore (rounds : Nat) (rule : Repeat) (day : String) : Option Int :=
  if rule.startDay.isEmpty then some 0
  else
    (expandRepeat rounds rule rule.startDay (addDays day (-1))).map fun days => (days.length : Int)

/-- The rule of a series that ends before a day. -/
def endedBefore (rule : Repeat) (day : String) (before : Int) : Repeat :=
  { rule with
    endDay := some (addDays day (-1))
    count := rule.count.map fun _ => max 1 before }

/-- The marks of the days before a day. -/
def keptBefore (occurrences : Option (List Occurrence)) (day : String) :
    Option (List Occurrence) :=
  occurrences.map (List.filter fun occurrence => decide (occurrence.day < day))

/-- The rule of a series that begins at a day. -/
def continuedFrom (rule : Repeat) (day : String) (before : Int) (patch : ItemPatch) : Repeat :=
  let next :=
    { rule with
      startDay := day
      count := rule.count.map fun count => max 1 (count - before) }
  match patch.repeatRule with
  | some (some patch) => applyRepeatPatch next patch
  | _ => next

/-- This and the following: the old series ends the day before, a new one begins.  There is no
answer when the days before are not counted in the given number of rounds. -/
def splitIn (T : Type) [Item T] (rounds : Nat) (state : State) (id day : String)
    (patch : ItemPatch) (newId : String) : Option (Option T × State) :=
  match findIn (Item.itemsOf state) id with
  | none => some (none, state)
  | some (item : T) =>
      match Item.repeatRule item with
      | none => some (none, state)
      | some rule =>
          (instancesBefore rounds rule day).map fun before =>
            let nextRepeat := continuedFrom rule day before patch
            let write (item : T) : List T := putFirst (Item.itemsOf state) id item
            if rule.startDay.isEmpty || decide (day ≤ rule.startDay) then
              let whole := Item.withRepeat (Item.applyPatch item patch)
                (some { nextRepeat with
                  startDay := if rule.startDay.isEmpty then day else rule.startDay })
              (some whole, Item.withItems state (write whole))
            else
              let ended := Item.withOccurrences
                (Item.withRepeat item (some (endedBefore rule day before)))
                (keptBefore (Item.occurrences item) day)
              let created := Item.created (Item.applyPatch (Item.stripSeries ended) patch) newId
                nextRepeat
              (some created, Item.withItems state (write ended ++ [created]))

def removeSeries (T : Type) [Item T] (state : State) (id : String) : State :=
  Item.withItems state
    ((Item.itemsOf state : List T).filter fun item => !(Item.id item == id))

/-- Delete this and the following: the series ends the day before. -/
def truncateIn (T : Type) [Item T] (rounds : Nat) (state : State) (id day : String) :
    Option (Bool × State) :=
  match findIn (Item.itemsOf state) id with
  | none => some (false, state)
  | some (item : T) =>
      match Item.repeatRule item with
      | none => some (false, state)
      | some rule =>
          if rule.startDay.isEmpty || decide (day ≤ rule.startDay) then
            some (true, removeSeries T state id)
          else
            (instancesBefore rounds rule day).map fun before =>
              let ended := Item.withOccurrences
                (Item.withRepeat item (some (endedBefore rule day before)))
                (keptBefore (Item.occurrences item) day)
              (true, Item.withItems state (putFirst (Item.itemsOf state) id ended))

/-! ## Moving -/

/-- The day with a date, some months after the month of a day. -/
def moveToMonth (day : String) (months date : Int) : String :=
  let d := parts day
  let index := d.year * 12 + d.month - 1 + months
  let year := floorDiv index 12
  let month := index - year * 12 + 1
  keyOf ⟨year, month, min date (daysInMonth year month)⟩

/-- The first day of the month of a day. -/
def firstOfMonth (day : String) : String :=
  String.ofList (day.toList.take 8) ++ "01"

/-- Every day of the series moves as one of them does. -/
def shiftSeries (rounds : Nat) (item : T) (rule : Repeat) (fromDay toDay : String) : Option T :=
  let isByMonth := decide (rule.kind = "monthly") || decide (rule.kind = "yearly")
  let days := epochDays toDay - epochDays fromDay
  let source := parts fromDay
  let target := parts toDay
  let months := (target.year - source.year) * 12 + target.month - source.month
  let move (value : String) : String :=
    if isByMonth then moveToMonth value months target.date else addDays value days
  let moved :=
    { rule with
      startDay := if rule.startDay.isEmpty then rule.startDay else move rule.startDay
      weekdays :=
        if rule.kind = "weekly" then
          rule.weekdays.map (List.map fun weekday => ((weekday + days).tmod 7 + 7).tmod 7)
        else rule.weekdays
      monthDay := if rule.kind = "monthly" then some target.date else rule.monthDay }
  let withEnd : Option Repeat :=
    match truthy rule.endDay with
    | none => some moved
    | some endDay =>
        -- The month of the end keeps its day only when the series had one there.
        let keepsLast :=
          if isByMonth then
            (expandRepeat rounds rule (firstOfMonth endDay) endDay).map fun days => !days.isEmpty
          else some true
        keepsLast.map fun keepsLast =>
          { moved with
            endDay := some
              (if keepsLast then move endDay else addDays (firstOfMonth (move endDay)) (-1)) }
  withEnd.map fun next =>
    let occurrences := (Item.occurrences item).map fun occurrences =>
      ((occurrences.map fun occurrence =>
          { occurrence with day := move occurrence.day }).filter fun occurrence =>
            occursOn next occurrence.day).mergeSort fun first second =>
              decide (first.day ≤ second.day)
    Item.withRepeat (Item.withOccurrences item occurrences) (some next)

/-- All of the series: the fields of the patch are written to it, and another day moves it. -/
def updateIn (T : Type) [Item T] (rounds : Nat) (state : State) (id day : String)
    (patch : ItemPatch) : Option (Option T × State) :=
  match findIn (Item.itemsOf state) id with
  | none => some (none, state)
  | some (item : T) =>
      match Item.repeatRule item with
      | none => some (none, state)
      | some rule =>
          let written := Item.applyPatch item { patch with day := none, repeatRule := none }
          let updated :=
            match truthy (patch.day.getD none) with
            | none => some written
            | some toDay =>
                if toDay = day then some written
                else shiftSeries rounds written rule day toDay
          updated.map fun updated =>
            (some updated, Item.withItems state (putFirst (Item.itemsOf state) id updated))

end

end Parvane.Agenda
