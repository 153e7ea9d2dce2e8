import Parvane.Foundation.Loops
import Parvane.Planner.Stamps

/-!
# The Lamport guard after a restart

The greatest Lamport time of a planner is stored as a number.  After a restart the guard is raised
to it by steps that it lets pass, while the guard of the cloud is set to it at once.  The last step
below the greatest number of 64 bits leaves them: the steps then fail, or never end.
-/

namespace Parvane

/-- A time that was checked before is taken as it is. -/
def Shared.LamportGuard.raise (guard : LamportGuard) (time : UInt64) : LamportGuard :=
  ⟨max guard.maxSeen time⟩

namespace Planner

open Domain Shared Loops

/-- Whether sums of machine integers are checked or wrap around. -/
inductive Build
  | checked
  | wrapping

def Build.plus (build : Build) (first second : UInt64) : Option UInt64 :=
  match build with
  | .checked => if first.toNat + second.toNat < 2 ^ 64 then some (first + second) else none
  | .wrapping => some (first + second)

def maxJump : UInt64 :=
  UInt64.ofNat lamportMaxJump

/-- Check a stamp, and go on whatever the check says. -/
def tryStamp (guard : LamportGuard) (lamport : UInt64) : LamportGuard :=
  ((LamportGuard.check ⟨lamport, "restore"⟩).exec guard).2

/-- One step towards the stored time. -/
def raiseOnce (build : Build) (guardMax : UInt64) (guard : LamportGuard) :
    Option LamportGuard := do
  let next ← build.plus guard.maxSeen maxJump
  return tryStamp guard (min next guardMax)

/-- The guard of a planner that is restored, after so many steps. -/
def plannerGuard (build : Build) (guardMax : UInt64) (rounds : Nat) : Outcome LamportGuard :=
  if 0 < guardMax then
    loop (fun guard => guard.maxSeen < guardMax) (raiseOnce build guardMax) rounds
      (tryStamp {} (min guardMax maxJump))
  else .ended {}

/-- The guard of a cloud that is restored. -/
def restoreGuard (max : UInt64) : LamportGuard :=
  LamportGuard.raise {} max

/-- The steps end, with the stored time and with the guard of a cloud. -/
def Restores (build : Build) (guardMax : UInt64) : Prop :=
  ∃ rounds guard, plannerGuard build guardMax rounds = .ended guard ∧
    guard.maxSeen = guardMax ∧ guard = restoreGuard guardMax

section

variable {build : Build} {guardMax lamport : UInt64} {guard : LamportGuard}

theorem toNat_maxJump : maxJump.toNat = 2 ^ 20 :=
  rfl

theorem restoreGuard_eq (guardMax : UInt64) : restoreGuard guardMax = ⟨guardMax⟩ :=
  congrArg LamportGuard.mk (max_eq_right (UInt64.le_iff_toNat_le.2 (Nat.zero_le _)))

theorem le_saturatingAdd {second : Nat}
    (within : lamport.toNat ≤ guard.maxSeen.toNat + second) :
    lamport ≤ saturatingAdd guard.maxSeen second := by
  have high := lamport.toNat_lt
  rw [UInt64.le_iff_toNat_le, saturatingAdd, UInt64.toNat_ofNat_of_lt']
  · exact le_min within (Nat.le_sub_one_of_lt high)
  · exact Nat.lt_of_le_of_lt (min_le_right _ _) (by decide)

/-- A later time within the bounds of the guard is taken. -/
theorem tryStamp_of_later
    (later : guard.maxSeen < lamport) (within : lamport.toNat ≤ guard.maxSeen.toNat + 2 ^ 20) :
    tryStamp guard lamport = ⟨lamport⟩ := by
  have notZero : lamport ≠ 0 := by
    rintro rfl
    exact absurd (UInt64.lt_iff_toNat_lt.1 later) (Nat.not_lt_zero _)
  unfold tryStamp
  rw [exec_check, if_neg]
  · dsimp only
    rw [max_eq_right later.le]
  · rw [not_or, not_lt]
    exact ⟨notZero, le_saturatingAdd within⟩

/-- No stamp has the time zero. -/
theorem tryStamp_zero : tryStamp guard 0 = guard := by
  unfold tryStamp
  rw [exec_check, if_pos (.inl rfl)]

theorem plus_eq_some (fits : lamport.toNat + 2 ^ 20 < 2 ^ 64) :
    build.plus lamport maxJump = some (lamport + maxJump) ∧
      (lamport + maxJump).toNat = lamport.toNat + 2 ^ 20 := by
  have sum : (lamport + maxJump).toNat = lamport.toNat + 2 ^ 20 := by
    rw [UInt64.toNat_add, toNat_maxJump, Nat.mod_eq_of_lt fits]
  refine ⟨?_, sum⟩
  cases build with
  | checked =>
      unfold Build.plus
      rw [toNat_maxJump, if_pos fits]
  | wrapping => rfl

/-- A step that fits is taken. -/
theorem raiseOnce_eq
    (fits : guard.maxSeen.toNat + 2 ^ 20 < 2 ^ 64) (below : guard.maxSeen < guardMax) :
    raiseOnce build guardMax guard = some ⟨min (guard.maxSeen + maxJump) guardMax⟩ := by
  obtain ⟨isSum, sum⟩ := @plus_eq_some build _ fits
  have isNext : tryStamp guard (min (guard.maxSeen + maxJump) guardMax) =
      ⟨min (guard.maxSeen + maxJump) guardMax⟩ := by
    apply tryStamp_of_later
    · refine lt_min ?_ below
      rw [UInt64.lt_iff_toNat_lt, sum]
      omega
    · rw [← sum]
      exact UInt64.le_iff_toNat_le.1 (min_le_left _ _)
  unfold raiseOnce
  rw [isSum, ← isNext]
  rfl

theorem plannerGuard_of_pos
    (rounds : Nat) (positive : 0 < guardMax) :
    plannerGuard build guardMax rounds =
      loop (fun guard => guard.maxSeen < guardMax) (raiseOnce build guardMax) rounds
        ⟨min guardMax maxJump⟩ := by
  have start : tryStamp {} (min guardMax maxJump) = ⟨min guardMax maxJump⟩ := by
    apply tryStamp_of_later
    · exact lt_min positive (by decide)
    · exact UInt64.le_iff_toNat_le.1 (min_le_right _ _)
  unfold plannerGuard
  rw [if_pos positive, start]

/-- A step below a reachable time comes closer to it. -/
theorem raiseOnce_lowers
    (small : guardMax.toNat + 2 ^ 20 ≤ 2 ^ 64) (below : guard.maxSeen < guardMax) :
    ∃ next, raiseOnce build guardMax guard = some next ∧ next.maxSeen ≤ guardMax ∧
      guardMax.toNat - next.maxSeen.toNat < guardMax.toNat - guard.maxSeen.toNat := by
  have less := UInt64.lt_iff_toNat_lt.1 below
  have fits : guard.maxSeen.toNat + 2 ^ 20 < 2 ^ 64 := by omega
  have later : guard.maxSeen < min (guard.maxSeen + maxJump) guardMax := by
    refine lt_min ?_ below
    rw [UInt64.lt_iff_toNat_lt, (@plus_eq_some build _ fits).2]
    omega
  have laterNat := UInt64.lt_iff_toNat_lt.1 later
  refine ⟨_, raiseOnce_eq fits below, min_le_right _ _, ?_⟩
  dsimp only
  omega

/-- Up to the last full step, the guard is restored. -/
theorem restores_of_le (small : guardMax.toNat + 2 ^ 20 ≤ 2 ^ 64) : Restores build guardMax := by
  unfold Restores
  rw [restoreGuard_eq]
  by_cases positive : 0 < guardMax
  · obtain ⟨rounds, final, ends, notAbove, stops⟩ := @exists_ended LamportGuard
      (fun guard => guard.maxSeen < guardMax) (raiseOnce build guardMax)
      (fun guard => guard.maxSeen ≤ guardMax) ⟨min guardMax maxJump⟩
      (fun guard => guardMax.toNat - guard.maxSeen.toNat)
      (fun _ _ goes => raiseOnce_lowers small (of_decide_eq_true goes)) (min_le_left _ _)
    have reached : final.maxSeen = guardMax :=
      le_antisymm notAbove (not_lt.1 (of_decide_eq_false stops))
    refine ⟨rounds, final, ?_, reached, congrArg LamportGuard.mk reached⟩
    rw [plannerGuard_of_pos rounds positive]
    exact ends
  · have zero : guardMax = 0 := by
      rw [← UInt64.toNat_inj]
      rw [UInt64.lt_iff_toNat_lt] at positive
      exact Nat.eq_zero_of_not_pos positive
    refine ⟨0, {}, ?_, zero.symm, by rw [zero]⟩
    unfold plannerGuard
    rw [if_neg positive]

/-- The guard stands at a full step. -/
def AtFullStep (guard : LamportGuard) : Prop :=
  2 ^ 20 ∣ guard.maxSeen.toNat ∧ guard.maxSeen.toNat + 2 ^ 20 ≤ 2 ^ 64

/-- Towards a time beyond the last full step, a step leads to a full one or back. -/
theorem raiseOnce_atFullStep {next : LamportGuard}
    (great : 2 ^ 64 < guardMax.toNat + 2 ^ 20) (full : AtFullStep guard)
    (isNext : raiseOnce build guardMax guard = some next) : AtFullStep next := by
  obtain ⟨divides, within⟩ := full
  have below : guard.maxSeen < guardMax := by
    rw [UInt64.lt_iff_toNat_lt]
    omega
  by_cases fits : guard.maxSeen.toNat + 2 ^ 20 < 2 ^ 64
  · have sum := (@plus_eq_some build _ fits).2
    rw [raiseOnce_eq fits below, Option.some.injEq, min_eq_left] at isNext
    · subst isNext
      unfold AtFullStep
      dsimp only
      omega
    · rw [UInt64.le_iff_toNat_le, sum]
      omega
  · have sum : guard.maxSeen + maxJump = 0 := by
      rw [← UInt64.toNat_inj, UInt64.toNat_add, toNat_maxJump]
      have isLast : guard.maxSeen.toNat + 2 ^ 20 = 2 ^ 64 := by omega
      rw [isLast]
      rfl
    unfold raiseOnce at isNext
    cases build with
    | checked =>
        unfold Build.plus at isNext
        rw [toNat_maxJump, if_neg fits] at isNext
        cases isNext
    | wrapping =>
        -- The sum wraps around to zero, and no stamp has the time zero.
        have noStamp : tryStamp guard (min 0 guardMax) = guard := by
          rw [min_eq_left (UInt64.le_iff_toNat_le.2 (Nat.zero_le _))]
          exact tryStamp_zero
        unfold Build.plus at isNext
        dsimp only [Option.bind_eq_bind, Option.bind_some] at isNext
        rw [sum, noStamp] at isNext
        cases isNext
        exact ⟨divides, within⟩

/-- Beyond the last full step, the guard is not restored. -/
theorem not_restores_of_lt (great : 2 ^ 64 < guardMax.toNat + 2 ^ 20) :
    ¬ Restores build guardMax := by
  rintro ⟨rounds, final, ends, -, -⟩
  have positive : 0 < guardMax := by
    have high := guardMax.toNat_lt
    rw [UInt64.lt_iff_toNat_lt, UInt64.toNat_zero]
    omega
  have start : min guardMax maxJump = maxJump := by
    rw [min_eq_right]
    have high := guardMax.toNat_lt
    rw [UInt64.le_iff_toNat_le, toNat_maxJump]
    omega
  rw [plannerGuard_of_pos rounds positive, start] at ends
  refine @ne_ended LamportGuard (fun guard => guard.maxSeen < guardMax)
    (raiseOnce build guardMax) AtFullStep ⟨maxJump⟩ ?goesOn
    (fun _ _ full isNext => raiseOnce_atFullStep great full isNext) ?initially rounds final ends
  case goesOn =>
    intro guard full
    have within := full.2
    rw [decide_eq_true_iff, UInt64.lt_iff_toNat_lt]
    omega
  case initially => exact ⟨dvd_of_eq toNat_maxJump.symm, by rw [toNat_maxJump]; decide⟩

end

/-- The guard of a planner is restored exactly up to the last full step below the greatest
number. -/
theorem plannerGuard_restores_iff
    (build : Build)
    (guardMax : UInt64) :
    Restores build guardMax ↔ guardMax.toNat ≤ 2 ^ 64 - 2 ^ 20 := by
  constructor
  · intro restores
    by_contra great
    exact not_restores_of_lt (by omega) restores
  · intro small
    exact restores_of_le (by omega)

/-- The greatest time is stored and not restored, whether sums are checked or wrap around. -/
theorem plannerGuard_greatest_not_restored :
    ¬ Restores .checked 0xFFFFFFFFFFFFFFFF ∧ ¬ Restores .wrapping 0xFFFFFFFFFFFFFFFF :=
  ⟨not_restores_of_lt (by decide), not_restores_of_lt (by decide)⟩

end Planner
end Parvane
