import Parvane.Foundation.Sweeping
import Parvane.Repeats.Days
import Mathlib.Data.List.Sort

/-!
# Rules of repetition

A rule says on which days something repeats.  It is compiled once; then a single day is tested
by its ordinal, and the days of a range are found by stepping through it.
-/

namespace Parvane.Repeats

open Calendar Sweeping

def maxRepeatInterval : Int := 99
def maxRepeatCount : Int := 999

structure Repeat where
  kind : String
  interval : Int
  weekdays : Option (List Int)
  monthDay : Option Int
  startDay : String
  endDay : Option String
  count : Option Int
  deriving DecidableEq

/-- A text that is there and not empty. -/
def truthy (value : Option String) : Option String :=
  value.filter fun text => !text.isEmpty

/-- The position of a day of the week when weeks begin on Monday. -/
def mondayBased (weekday : Int) : Int :=
  (weekday + 6).tmod 7

def bitOf (n : Int) : Nat :=
  1 <<< ((n.tmod 32 + 32).tmod 32).toNat

/-! ## Compiled rules -/

structure CompiledRepeat where
  kind : String
  interval : Int
  isValid : Bool
  start : Option Int
  end_ : Option Int
  count : Option Int
  positions : List Int
  weekdayMask : Nat
  startWeek : Int
  skippedInFirstWeek : Nat
  startYear : Int
  startMonth : Int
  startDate : Int
  monthDay : Int

/-- The first occurrence of each item. -/
def uniqueOf (items : List Int) : List Int :=
  items.foldl (fun unique item => if item ∈ unique then unique else unique ++ [item]) []

def compileRepeat (rule : Repeat) : CompiledRepeat :=
  let start := if rule.startDay.isEmpty then none else some (epochDays rule.startDay)
  let positions :=
    ((uniqueOf (rule.weekdays.getD [])).map mondayBased).mergeSort fun first second =>
      decide (first ≤ second)
  let startPosition := (start.map fun start => mondayBased (weekdayOfEpoch start)).getD 0
  let startParts := if rule.startDay.isEmpty then ⟨0, 0, 0⟩ else parts rule.startDay
  { kind := rule.kind
    interval := rule.interval
    isValid := decide (1 ≤ rule.interval)
    start := start
    end_ := (truthy rule.endDay).map epochDays
    count := rule.count.filter fun count => count != 0
    positions := positions
    weekdayMask := positions.foldl (fun mask position => mask ||| bitOf ((position + 1).tmod 7)) 0
    startWeek := (start.map weekIndexOfEpoch).getD 0
    skippedInFirstWeek :=
      if start.isSome then positions.countP fun position => decide (position < startPosition)
      else 0
    startYear := startParts.year
    startMonth := startParts.month
    startDate := startParts.date
    monthDay := (rule.monthDay.filter fun day => day != 0).getD startParts.date }

theorem kind_compileRepeat (rule : Repeat) : (compileRepeat rule).kind = rule.kind := rfl

theorem interval_compileRepeat (rule : Repeat) : (compileRepeat rule).interval = rule.interval := rfl

/-! ## The day test -/

namespace CompiledRepeat

variable (rule : CompiledRepeat)

def hasWeekday (weekday : Int) : Bool :=
  (rule.weekdayMask &&& bitOf weekday) != 0

/-- The ordinal of a day, from 1 on. -/
def ordinalOfEpoch (epoch : Int) : Option Int :=
  if !rule.isValid then none
  else if rule.start.any fun start => epoch < start then none
  else if rule.end_.any fun last => epoch > last then none
  else if rule.kind = "weekly" then
    let weekday := weekdayOfEpoch epoch
    if !rule.hasWeekday weekday then none
    else if rule.start.isNone then some 1
    else
      let weeks := weekIndexOfEpoch epoch - rule.startWeek
      if weeks.tmod rule.interval ≠ 0 then none
      else
        let index := rule.positions.idxOf (mondayBased weekday)
        some (weeks.tdiv rule.interval * rule.positions.length + index + 1 -
          rule.skippedInFirstWeek)
  else
    match rule.start with
    | none => none
    | some start =>
        if rule.kind = "daily" then
          let diff := epoch - start
          if diff.tmod rule.interval = 0 then some (diff.tdiv rule.interval + 1) else none
        else
          let d := civilFromDays epoch
          if rule.kind = "monthly" then
            let months := (d.year * 12 + d.month) - (rule.startYear * 12 + rule.startMonth)
            let wanted := min rule.monthDay (daysInMonth d.year d.month)
            if months.tmod rule.interval ≠ 0 then none
            else if d.date = wanted then some (months.tdiv rule.interval + 1)
            else none
          else
            let years := d.year - rule.startYear
            let wanted := min rule.startDate (daysInMonth d.year d.month)
            if years.tmod rule.interval ≠ 0 ∨ d.month ≠ rule.startMonth then none
            else if d.date = wanted then some (years.tdiv rule.interval + 1)
            else none

def occursOnEpoch (epoch : Int) : Bool :=
  match rule.ordinalOfEpoch epoch with
  | none => false
  | some ordinal => !rule.count.any fun count => ordinal > count

/-! ## Stepping -/

/-- A day with its ordinal comes after the last one, or the last day. -/
def isLate (hi : Int) (candidate : Int × Int) : Bool :=
  (rule.count.any fun count => candidate.2 > count) || decide (candidate.1 > hi)

/-- The quotient, rounded up. -/
def ceilDiv (a b : Int) : Int :=
  -floorDiv (-a) b

/-- The week of a round, counted from the first one that may have days. -/
def weekOf (lo : Int) (round : Nat) : Int :=
  let skip := ceilDiv (weekIndexOfEpoch lo - rule.startWeek) rule.interval
  rule.startWeek + skip * rule.interval + round * rule.interval

def weeklyBlock (lo : Int) (round : Nat) : List (Int × Int) :=
  let week := rule.weekOf lo round
  let base := (week - rule.startWeek).tdiv rule.interval * rule.positions.length + 1 -
    rule.skippedInFirstWeek
  rule.positions.zipIdx.map fun (position, index) => (mondayOfWeek week + position, base + index)

def dailyBlock (start lo : Int) (round : Nat) : List (Int × Int) :=
  let skip := ceilDiv (lo - start) rule.interval
  [(start + skip * rule.interval + round * rule.interval, skip + 1 + round)]

def monthlyBlock (lo : Int) (round : Nat) : List (Int × Int) :=
  let loParts := civilFromDays lo
  let startIndex := rule.startYear * 12 + rule.startMonth - 1
  let skip := max 0 (ceilDiv (loParts.year * 12 + loParts.month - 1 - startIndex) rule.interval)
  let step := skip + round
  let index := startIndex + step * rule.interval
  let year := floorDiv index 12
  let month := index - year * 12 + 1
  [(epochOf year month (min rule.monthDay (daysInMonth year month)), step + 1)]

def yearlyBlock (lo : Int) (round : Nat) : List (Int × Int) :=
  let loParts := civilFromDays lo
  let skip := max 0 (ceilDiv (loParts.year - rule.startYear) rule.interval)
  let step := skip + round
  let year := rule.startYear + step * rule.interval
  [(epochOf year rule.startMonth (min rule.startDate (daysInMonth year rule.startMonth)), step + 1)]

/-- The days of a round, with their ordinals. -/
def block (start lo : Int) : Nat -> List (Int × Int) :=
  if rule.kind = "weekly" then rule.weeklyBlock lo
  else if rule.kind = "daily" then rule.dailyBlock start lo
  else if rule.kind = "monthly" then rule.monthlyBlock lo
  else rule.yearlyBlock lo

/-- Weeks are left when one begins after the last day. -/
def halts (lo hi : Int) (round : Nat) : Bool :=
  decide (rule.kind = "weekly") && decide (mondayOfWeek (rule.weekOf lo round) > hi)

end CompiledRepeat

/-- The days of a range, in their order; a visit may stop the search.  The search may not be
done after the given number of rounds. -/
def forEachRepeatDay (visit : String -> Bool) (rounds : Nat) (rule : Repeat)
    (fromDay toDay : String) : Option (List String) :=
  let rule := compileRepeat rule
  if !rule.isValid || decide (toDay < fromDay) then some []
  else
    let first := epochDays fromDay
    let last := epochDays toDay
    let lo := (rule.start.map (max first)).getD first
    let hi := (rule.end_.map (min last)).getD last
    if lo > hi then some []
    else
      match rule.start with
      | none =>
          if rule.kind = "weekly" then
            let epochs := (List.range (hi - lo + 1).toNat).map fun (day : Nat) => lo + day
            let visited := (collect (fun _ => false)
              (fun epoch => !rule.hasWeekday (weekdayOfEpoch epoch))
              (fun epoch => visit (keyOfEpoch epoch)) epochs).1
            some (visited.map keyOfEpoch)
          else some []
      | some start =>
          (sweep (rule.isLate hi) (fun candidate => decide (candidate.1 < lo))
            (fun candidate => visit (keyOfEpoch candidate.1)) (rule.halts lo hi)
            (rule.block start lo) rounds 0).map
              (List.map fun candidate => keyOfEpoch candidate.1)

def occursOn (rule : Repeat) (day : String) : Bool :=
  isDayKey day && (compileRepeat rule).occursOnEpoch (epochDays day)

def expandRepeat (rounds : Nat) (rule : Repeat) (fromDay toDay : String) : Option (List String) :=
  forEachRepeatDay (fun _ => false) rounds rule fromDay toDay

/-- The field of a rule that is not accepted. -/
def validateRepeat (rule : Repeat) : Option String :=
  let days := rule.weekdays.getD []
  if rule.interval < 1 || rule.interval > maxRepeatInterval then some "interval"
  else if rule.kind = "weekly" &&
      (days.isEmpty || !days.all (fun day => 0 ≤ day && day ≤ 6) || !decide days.Nodup) then
    some "weekdays"
  else if rule.monthDay.any fun day => day < 1 || day > 31 then some "monthDay"
  else if (if !rule.startDay.isEmpty then !isDayKey rule.startDay
      else decide (rule.kind ≠ "weekly")) then
    some "startDay"
  else if (truthy rule.endDay).any fun day =>
      !isDayKey day || (!rule.startDay.isEmpty && decide (day < rule.startDay)) then
    some "endDay"
  else if rule.count.any fun count => count < 1 || count > maxRepeatCount then some "count"
  else none

end Parvane.Repeats
