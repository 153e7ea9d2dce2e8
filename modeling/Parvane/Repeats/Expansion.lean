import Parvane.Repeats.Keys
import Parvane.Repeats.Rules

/-!
# Stepping and testing agree

The days that a rule steps through, with their ordinals, are the days that pass its test.  A
day of a week is found from its week and its position in it, and a day of a month from the
number of its month.
-/

namespace Parvane.Repeats

open Calendar Sweeping

/-! ## Candidates in order -/

/-- Both the day and the ordinal of a candidate are before those of another. -/
def Before (first second : Int × Int) : Prop :=
  first.1 < second.1 ∧ first.2 < second.2

theorem ceilDiv_le_iff {a b q : Int} (positive : 0 < b) :
    CompiledRepeat.ceilDiv a b ≤ q ↔ a ≤ q * b := by
  have quotient : -q ≤ -a / b ↔ -q * b ≤ -a := Int.le_ediv_iff_mul_le positive
  rw [Int.neg_mul] at quotient
  rw [CompiledRepeat.ceilDiv, floorDiv_eq _ positive]
  omega

namespace CompiledRepeat

variable {rule : CompiledRepeat} {hi lo start : Int}

theorem isLate_stays
    (first second : Int × Int) (before : Before first second)
    (late : rule.isLate hi first = true) : rule.isLate hi second = true := by
  obtain ⟨epoch, ordinal⟩ := before
  rw [isLate, Bool.or_eq_true] at late ⊢
  rcases late with late | late
  · left
    rw [Option.any_eq_true] at late ⊢
    obtain ⟨count, isCount, exceeds⟩ := late
    rw [decide_eq_true_eq] at exceeds
    exact ⟨count, isCount, decide_eq_true (by omega)⟩
  · right
    rw [decide_eq_true_eq] at late ⊢
    omega

/-- The blocks have one candidate each, on an increasing line of days. -/
structure OnLine (line : Int -> Int) (skip : Int) (block : Nat -> List (Int × Int)) : Prop where
  grows : ∀ first second, skip ≤ first -> first < second -> line first < line second
  isBlock : ∀ round : Nat, block round = [(line (skip + round), skip + round + 1)]

section

variable {line : Int -> Int} {skip : Int} {block : Nat -> List (Int × Int)}

section

variable (onLine : OnLine line skip block)

include onLine

theorem OnLine.inOrder :
    InOrder Before (rule.isLate hi) (fun _ => false) block where
  within round := by
    rw [onLine.isBlock]
    exact List.pairwise_singleton _ _
  across round next earlier first firstMember second secondMember := by
    rw [onLine.isBlock, List.mem_singleton] at firstMember secondMember
    rw [firstMember, secondMember]
    exact ⟨onLine.grows _ _ (by omega) (by omega), by dsimp only; omega⟩
  staysLate := isLate_stays
  halted _ _ never := by cases never

theorem OnLine.le (round : Nat) :
    line skip + round ≤ line (skip + round) := by
  induction round with
  | zero => simp
  | succ round inductionHypothesis =>
      have next := onLine.grows (skip + round) (skip + (round + 1 : Nat)) (by omega) (by omega)
      omega

/-- The line leaves every range. -/
theorem OnLine.exists_late :
    ∃ last, ∃ candidate ∈ block last, rule.isLate hi candidate = true := by
  have isBlock := onLine.isBlock (hi - line skip + 1).toNat
  have above := onLine.le (hi - line skip + 1).toNat
  refine ⟨_, _, isBlock ▸ List.mem_singleton_self _, ?_⟩
  rw [isLate, Bool.or_eq_true, decide_eq_true_eq]
  right
  dsimp only
  omega

theorem OnLine.mem_iff
    {epoch ordinal : Int} :
    (∃ round, (epoch, ordinal) ∈ block round) ↔
      ∃ step, skip ≤ step ∧ epoch = line step ∧ ordinal = step + 1 := by
  constructor
  · rintro ⟨round, member⟩
    rw [onLine.isBlock, List.mem_singleton, Prod.mk.injEq] at member
    exact ⟨skip + round, by omega, member⟩
  · rintro ⟨step, notBefore, rfl, rfl⟩
    refine ⟨(step - skip).toNat, ?_⟩
    have same : skip + ((step - skip).toNat : Int) = step := by omega
    rw [onLine.isBlock, same]
    exact List.mem_singleton_self _

end

end

/-! ## A rule with a first day -/

/-- A rule was compiled with a first day. -/
structure Started (rule : CompiledRepeat) (start : Date) : Prop where
  isDay : IsDay start
  isValid : rule.isValid = true
  interval_pos : 1 ≤ rule.interval
  isStart : rule.start = some (epochOfDate start)
  startWeek : rule.startWeek = weekIndexOfEpoch (epochOfDate start)
  startYear : rule.startYear = start.year
  startMonth : rule.startMonth = start.month
  startDate : rule.startDate = start.date
  monthDay_pos : 1 ≤ rule.monthDay

/-- Stepping reaches the days of a range that have an ordinal, in their order. -/
structure Steps (rule : CompiledRepeat) (start lo hi : Int) : Prop where
  inOrder : InOrder Before (rule.isLate hi) (rule.halts lo hi) (rule.block start lo)
  ends : ∃ last, rule.halts lo hi last = true ∨
    ∃ candidate ∈ rule.block start lo last, rule.isLate hi candidate = true
  mem_iff : ∀ epoch ordinal, lo ≤ epoch -> epoch ≤ hi ->
    ((∃ round, (epoch, ordinal) ∈ rule.block start lo round) ↔
      rule.ordinalOfEpoch epoch = some ordinal)

theorem halts_eq_false (notWeekly : rule.kind ≠ "weekly") (lo hi : Int) :
    rule.halts lo hi = fun _ => false := by
  funext round
  rw [halts, decide_eq_false notWeekly, Bool.false_and]

/-- Without weeks, one line of days is all that is needed. -/
theorem OnLine.steps
    (notWeekly : rule.kind ≠ "weekly")
    {line : Int -> Int} {skip : Int}
    (onLine : OnLine line skip (rule.block start lo))
    (ordinals : ∀ epoch ordinal, lo ≤ epoch -> epoch ≤ hi ->
      (rule.ordinalOfEpoch epoch = some ordinal ↔
        ∃ step, skip ≤ step ∧ epoch = line step ∧ ordinal = step + 1)) :
    rule.Steps start lo hi where
  inOrder := by
    rw [halts_eq_false notWeekly]
    exact onLine.inOrder
  ends := by
    obtain ⟨last, late⟩ := onLine.exists_late
    exact ⟨last, .inr late⟩
  mem_iff epoch ordinal above below := by
    rw [onLine.mem_iff, ordinals epoch ordinal above below]

section

variable {start : Date} {epoch ordinal : Int}

/-- Whole steps are counted by division. -/
theorem exists_step_iff {distance interval : Int} (positive : 1 ≤ interval) (ahead : 0 ≤ distance) :
    distance.tmod interval = 0 ∧ distance.tdiv interval + 1 = ordinal ↔
      ∃ step, distance = step * interval ∧ ordinal = step + 1 := by
  rw [Int.tmod_eq_emod_of_nonneg ahead, Int.tdiv_eq_ediv_of_nonneg ahead]
  constructor
  · rintro ⟨divides, rfl⟩
    exact ⟨distance / interval, (Int.ediv_mul_cancel_of_emod_eq_zero divides).symm, rfl⟩
  · rintro ⟨step, rfl, rfl⟩
    exact ⟨Int.mul_emod_left step interval, by rw [Int.mul_ediv_cancel _ (by omega)]⟩

/-- Between the first day and the last one, only the kind of the rule decides. -/
theorem ordinalOfEpoch_between {first : Int}
    (isValid : rule.isValid = true) (isStart : rule.start = some first) (above : first ≤ epoch)
    (below : ∀ last, rule.end_ = some last -> epoch ≤ last) :
    rule.ordinalOfEpoch epoch =
      if rule.kind = "weekly" then
        if !rule.hasWeekday (weekdayOfEpoch epoch) then none
        else
          let weeks := weekIndexOfEpoch epoch - rule.startWeek
          if weeks.tmod rule.interval ≠ 0 then none
          else
            some (weeks.tdiv rule.interval * rule.positions.length +
              rule.positions.idxOf (mondayBased (weekdayOfEpoch epoch)) + 1 -
              rule.skippedInFirstWeek)
      else if rule.kind = "daily" then
        let diff := epoch - first
        if diff.tmod rule.interval = 0 then some (diff.tdiv rule.interval + 1) else none
      else
        let d := civilFromDays epoch
        if rule.kind = "monthly" then
          let months := (d.year * 12 + d.month) - (rule.startYear * 12 + rule.startMonth)
          if months.tmod rule.interval ≠ 0 then none
          else if d.date = min rule.monthDay (daysInMonth d.year d.month) then
            some (months.tdiv rule.interval + 1)
          else none
        else
          let years := d.year - rule.startYear
          if years.tmod rule.interval ≠ 0 ∨ d.month ≠ rule.startMonth then none
          else if d.date = min rule.startDate (daysInMonth d.year d.month) then
            some (years.tdiv rule.interval + 1)
          else none := by
  have inside : (rule.end_.any fun last => decide (epoch > last)) = false := by
    cases isEnd : rule.end_ with
    | none => rfl
    | some last => simpa using below last isEnd
  unfold ordinalOfEpoch
  simp only [isValid, isStart, inside, Option.any_some, Option.isNone_some,
    Bool.not_true, Bool.false_eq_true, if_false, decide_eq_true_eq]
  rw [if_neg (by omega)]

theorem Started.steps_daily
    (started : rule.Started start) (isDaily : rule.kind = "daily") (ahead : epochOfDate start ≤ lo)
    (ends : ∀ last, rule.end_ = some last -> hi ≤ last) : rule.Steps (epochOfDate start) lo hi := by
  have positive := started.interval_pos
  have notWeekly : rule.kind ≠ "weekly" := by
    rw [isDaily]
    decide
  have onLine : OnLine (fun step => epochOfDate start + step * rule.interval)
      (ceilDiv (lo - epochOfDate start) rule.interval) (rule.block (epochOfDate start) lo) := by
    constructor
    · intro first second _ less
      have steps := Int.mul_lt_mul_of_pos_right less (show 0 < rule.interval by omega)
      omega
    · intro round
      rw [block, if_neg notWeekly, if_pos isDaily, dailyBlock, Int.add_mul, ← Int.add_assoc,
        Int.add_right_comm _ 1]
  refine onLine.steps notWeekly fun epoch ordinal above below => ?_
  rw [ordinalOfEpoch_between started.isValid started.isStart (by omega) fun last isLast =>
    Int.le_trans below (ends last isLast), if_neg notWeekly, if_pos isDaily]
  dsimp only
  rw [Option.ite_none_right_eq_some, Option.some.injEq, exists_step_iff positive (by omega)]
  apply exists_congr
  intro step
  rw [ceilDiv_le_iff (by omega)]
  omega

end

end CompiledRepeat

end Parvane.Repeats
