import Parvane.Planner.Records
import Parvane.Shared.Seal

/-!
# Snapshots of the planner

A snapshot holds all objects of a planner with their stamps and tombstones.  It is merged
object by object, with the checks that a change of the same kind has to pass.
-/

namespace Parvane.Planner

open Wire Domain Convergence

def maxLearnedStored : Nat := 2000
def maxQuickStored : Nat := 2000
def maxRemindedStored : Nat := 4000

structure PlannerSnapshot where
  tasks : List Task := []
  events : List Event := []
  lists : List TaskList := []
  nutrition : List NutritionDay := []
  settings : Option Settings := none
  goals : Option GoalSet := none
  goalPeriods : List GoalPeriod := []
  health : List HealthRecord := []
  learned : List LearnedWord := []
  quickLines : List QuickLine := []
  reminded : List Reminded := []
  deriving DecidableEq

namespace PlannerSnapshot

variable (snapshot : PlannerSnapshot)

/-- The objects of a snapshot, in the order in which they are merged. -/
def objects : List ChangeKind :=
  snapshot.tasks.map ChangeKind.task ++ snapshot.events.map ChangeKind.event ++
    snapshot.lists.map ChangeKind.list ++ snapshot.nutrition.map ChangeKind.nutritionDay ++
    snapshot.settings.toList.map ChangeKind.settings ++
    snapshot.goals.toList.map ChangeKind.goals ++
    snapshot.goalPeriods.map ChangeKind.goalPeriod ++ snapshot.health.map ChangeKind.health ++
    snapshot.learned.map ChangeKind.learned ++ snapshot.quickLines.map ChangeKind.quickLine ++
    snapshot.reminded.map ChangeKind.reminded

def changes : List Change :=
  snapshot.objects.map fun kind => ⟨some kind⟩

end PlannerSnapshot

/-- All stamps of a snapshot. -/
def snapshotStamps (snapshot : PlannerSnapshot) : Result (List Stamp) :=
  if snapshot.changes.isEmpty then .ok []
  else opStamps ⟨snapshot.changes⟩

/-! ## Merging a snapshot -/

section

variable (isUppercase : Char -> Bool)

/-- Merge a snapshot.  An object is checked and merged as a change of its kind is. -/
def mergeSnapshot (snapshot : PlannerSnapshot) : Update PlannerState Unit := do
  let _ ← snapshotStamps snapshot
  snapshot.tasks.forM fun task => applyChange isUppercase ⟨some (.task task)⟩
  snapshot.events.forM fun event => applyChange isUppercase ⟨some (.event event)⟩
  snapshot.lists.forM fun list => applyChange isUppercase ⟨some (.list list)⟩
  snapshot.nutrition.forM fun day => applyChange isUppercase ⟨some (.nutritionDay day)⟩
  snapshot.settings.toList.forM fun settings =>
    applyChange isUppercase ⟨some (.settings settings)⟩
  snapshot.goals.toList.forM fun goals => applyChange isUppercase ⟨some (.goals goals)⟩
  snapshot.goalPeriods.forM fun period => applyChange isUppercase ⟨some (.goalPeriod period)⟩
  snapshot.health.forM fun record => applyChange isUppercase ⟨some (.health record)⟩
  snapshot.learned.forM fun word => applyChange isUppercase ⟨some (.learned word)⟩
  snapshot.quickLines.forM fun line => applyChange isUppercase ⟨some (.quickLine line)⟩
  snapshot.reminded.forM fun mark => applyChange isUppercase ⟨some (.reminded mark)⟩

def fromSnapshot (snapshot : PlannerSnapshot) : Result PlannerState :=
  match (mergeSnapshot isUppercase snapshot).exec .new with
  | (.ok _, state) => .ok state
  | (.error error, _) => .error error

end

def greatestLamport (stamps : List Stamp) : UInt64 :=
  (stamps.map Stamp.lamport).foldl max 0

/-- What so many operations can have brought the Lamport time to. -/
def lamportLimit (guard : Shared.LamportGuard) (uptoSeq : UInt64) : UInt64 :=
  Shared.saturatingAdd guard.maxSeen (Shared.lamportMaxJump * (max uptoSeq 1).toNat)

/-- The greatest Lamport time of a snapshot must not be above the limit; the guard takes it. -/
def guardSnapshot (snapshot : PlannerSnapshot) (uptoSeq : UInt64) :
    Update Shared.LamportGuard Unit := do
  let stamps ← snapshotStamps snapshot
  let guard ← get
  require (!(lamportLimit guard uptoSeq < greatestLamport stamps)) (.invalidField "lamport")
  set ({ maxSeen := max guard.maxSeen (greatestLamport stamps) } : Shared.LamportGuard)

theorem exec_guardSnapshot
    (snapshot : PlannerSnapshot) (uptoSeq : UInt64) (guard : Shared.LamportGuard) :
    (guardSnapshot snapshot uptoSeq).exec guard =
      match snapshotStamps snapshot with
      | .error error => (.error error, guard)
      | .ok stamps =>
          if greatestLamport stamps ≤ lamportLimit guard uptoSeq then
            (.ok (), ⟨max guard.maxSeen (greatestLamport stamps)⟩)
          else (.error (.invalidField "lamport"), guard) := by
  unfold guardSnapshot
  rw [Update.exec_bind, Update.exec_liftM]
  cases snapshotStamps snapshot with
  | error error => rfl
  | ok stamps =>
      simp only [Update.exec_bind, Update.exec_get, Update.exec_liftM]
      by_cases inside : greatestLamport stamps ≤ lamportLimit guard uptoSeq
      · rw [if_pos inside, decide_eq_false inside.not_gt]
        rfl
      · rw [if_neg inside, decide_eq_true (not_le.1 inside)]
        rfl

/-! ## Making a snapshot -/

/-- The stamps of the fields of a word. -/
def learnedStamps (word : LearnedWord) : List LwwStamp :=
  regStamp word.kind ++
    [word.kindCount, word.minutes, word.minutesCount, word.touched].flatMap regStamp

def learnedTouched (word : LearnedWord) : UInt32 :=
  word.touched.elim 0 U32.value

/-- The latest change of a field is later than the tombstone. -/
def isLearnedAlive (word : LearnedWord) : Bool :=
  stampKey word.deleted <
    ((learnedStamps word).map fun stamp => stampKey (some stamp)).foldl max (stampKey none)

def isQuickLineAlive (line : QuickLine) : Bool :=
  stampKey line.deleted < stampKey line.stamp

/-- Values that exist come before deleted ones, and late ones before earlier ones. -/
def storedRank (alive : Bool) (touched : UInt32) (deleted : Option LwwStamp) :
    Bool ×ₗ UInt64 ×ₗ String :=
  if alive then toLex (true, toLex (touched.toUInt64, ""))
  else toLex (false, stampKey deleted)

/-- All values of a map, or so many of the greatest rank. -/
def storedValues [LinearOrder κ] (limit : Nat) (rank : α -> κ) (id : α -> String)
    (values : Std.ExtTreeMap String α) : List α :=
  let all := values.toList.map Prod.snd
  if values.size ≤ limit then all
  else
    let ranked := all.insertionSort fun first second =>
      (toLex (OrderDual.toDual (rank first), id first) : κᵒᵈ ×ₗ String) ≤
        toLex (OrderDual.toDual (rank second), id second)
    (ranked.take limit).insertionSort fun first second => id first ≤ id second

namespace PlannerState

variable (state : PlannerState)

def learnedStored : List LearnedWord :=
  storedValues maxLearnedStored
    (fun word => storedRank (isLearnedAlive word) (learnedTouched word) word.deleted)
    LearnedWord.id state.learned

def quickStored : List QuickLine :=
  storedValues maxQuickStored
    (fun line => storedRank (isQuickLineAlive line) line.touched line.deleted)
    QuickLine.id state.quickLines

def remindedStored : List Reminded :=
  storedValues maxRemindedStored
    (fun mark => max (stampKey mark.stamp) (stampKey mark.deleted)) Reminded.id state.reminded

def toSnapshot : PlannerSnapshot where
  tasks := state.tasks.toList.map Prod.snd
  events := state.events.toList.map Prod.snd
  lists := state.lists.toList.map Prod.snd
  nutrition := state.nutrition.toList.map Prod.snd
  settings := state.settings
  goals := state.goals
  goalPeriods := state.goalPeriods.toList.map Prod.snd
  health := state.health.toList.map Prod.snd
  learned := state.learnedStored
  quickLines := state.quickStored
  reminded := state.remindedStored

end PlannerState

/-! ## What merging does -/

section

variable {isUppercase : Char -> Bool}

theorem mergeSnapshot_eq (snapshot : PlannerSnapshot) :
    mergeSnapshot isUppercase snapshot =
      (liftM (snapshotStamps snapshot) >>= fun _ =>
        snapshot.changes.forM (applyChange isUppercase)) := by
  unfold mergeSnapshot PlannerSnapshot.changes PlannerSnapshot.objects
  simp only [List.forM_eq_forM, List.map_append, List.map_map, List.forM_append, List.forM_map,
    bind_assoc]
  rfl

theorem exec_mergeSnapshot (snapshot : PlannerSnapshot) (state : PlannerState) :
    (mergeSnapshot isUppercase snapshot).exec state =
      match snapshotStamps snapshot with
      | .error error => (.error error, state)
      | .ok _ =>
          (snapshot.changes.forM fun change => (checkChange isUppercase change).map fun _ => (),
            (Update.foundBefore (checkChange isUppercase) snapshot.changes).foldl
              PlannerState.take state) := by
  rw [mergeSnapshot_eq, Update.exec_bind, Update.exec_liftM]
  cases snapshotStamps snapshot with
  | error error => rfl
  | ok stamps =>
      exact Update.exec_forM (applyChange_checksFirst isUppercase) snapshot.changes state

variable (isUppercase)

/-- The changes before the first that does not pass its check. -/
def validBefore (changes : List Change) : List Change :=
  changes.takeWhile fun change => (checkChange isUppercase change).isOk

theorem passed_validBefore (changes : List Change) :
    passed isUppercase (validBefore isUppercase changes) =
      Update.foundBefore (checkChange isUppercase) changes := by
  induction changes with
  | nil => rfl
  | cons change changes inductionHypothesis =>
      rw [Update.foundBefore, validBefore, List.takeWhile_cons]
      cases checked : checkChange isUppercase change with
      | error error => rfl
      | ok kind =>
          change (if true then change :: validBefore isUppercase changes else []).filterMap
            (fun change => (checkChange isUppercase change).toOption) = _
          rw [if_pos rfl, List.filterMap_cons, checked]
          exact congrArg (kind :: ·) inductionHypothesis

/-- A snapshot that is refused leaves the state as it was exactly if nothing was merged before
the refusal, or what was merged is without effect. -/
theorem mergeSnapshot_unchanged_iff (snapshot : PlannerSnapshot) (state : PlannerState) :
    (((mergeSnapshot isUppercase snapshot).exec state).1.isOk = false ->
        ((mergeSnapshot isUppercase snapshot).exec state).2 = state) ↔
      (snapshotStamps snapshot).isOk = false ∨
        (∀ change ∈ snapshot.changes, (checkChange isUppercase change).isOk = true) ∨
        (applyChanges isUppercase (validBefore isUppercase snapshot.changes) state).2 = state := by
  rw [exec_mergeSnapshot, applyChanges_eq_foldl, passed_validBefore]
  cases snapshotStamps snapshot with
  | error error => simp [Except.isOk, Except.toBool]
  | ok stamps =>
      rw [← Update.isOk_forM_map_iff]
      cases (snapshot.changes.forM fun change =>
        (checkChange isUppercase change).map fun _ => ()).isOk <;>
        simp [Except.isOk, Except.toBool]

end

end Parvane.Planner
