import Parvane.Planner.Registers

/-!
# Convergence of the planner

An accepted change merges one object into one map of the state.  Objects with a
stamp on every field converge field by field, so the state depends only on which
changes were applied, not on their order, repetition or grouping into operations.
-/

namespace Parvane.Planner

open Wire Domain Convergence

/-! ## Objects -/

section

variable {merge : τ -> τ -> τ} {initial : τ} {first second : List τ}

/-- A field that merging leaves alone. -/
theorem foldl_constant
    (part : τ -> α)
    (part_merge : ∀ current incoming, part (merge current incoming) = part current) :
    part (first.foldl merge initial) = part (second.foldl merge initial) := by
  have kept (operations : List τ) (state : τ) :
      part (operations.foldl merge state) = part state := by
    induction operations generalizing state with
    | nil => rfl
    | cons incoming operations inductionHypothesis =>
        rw [List.foldl_cons, inductionHypothesis, part_merge]
  rw [kept, kept]

/-- A stamped field of an object. -/
theorem foldl_register [Stamped α]
    (part : τ -> Option α) (initially : part initial = none)
    (part_merge : ∀ current incoming,
      mergeReg (part current) (part incoming) = part (merge current incoming))
    (same : SameMembers first second) :
    part (first.foldl merge initial) = part (second.foldl merge initial) := by
  have converges : ConvergesFrom (fun slot incoming => mergeReg slot (part incoming))
      (part initial) (fun _ => True) := by
    rw [initially]
    exact mergeReg_convergesFrom part
  exact converges.project part part_merge same fun _ _ => trivial

/-- The tombstone of an object. -/
theorem foldl_tombstone
    (part : τ -> Option LwwStamp) (initially : part initial = none)
    (part_merge : ∀ current incoming,
      mergeDeleted (part current) (part incoming) = part (merge current incoming))
    (same : SameMembers first second) :
    part (first.foldl merge initial) = part (second.foldl merge initial) := by
  have converges : ConvergesFrom (fun slot incoming => mergeDeleted slot (part incoming))
      (part initial) (fun _ => True) := by
    rw [initially]
    exact mergeDeleted_convergesFrom part
  exact converges.project part part_merge same fun _ _ => trivial

/-- The occurrences of a series. -/
theorem foldl_occurrences
    (part : τ -> List Occurrence)
    (initially : part initial = [])
    (part_merge : ∀ current incoming,
      mergeOccurrences (part current) (part incoming) = part (merge current incoming))
    (same : SameMembers first second)
    (stamped : ∀ incoming ∈ first, ∀ occurrence ∈ part incoming, IsStamped occurrence) :
    part (first.foldl merge initial) = part (second.foldl merge initial) := by
  have converges : ConvergesFrom
      (fun current incoming => mergeOccurrences current (part incoming)) (part initial)
      (fun incoming => ∀ occurrence ∈ part incoming, IsStamped occurrence) := by
    rw [initially]
    exact mergeOccurrences_convergesFrom.comap part
  exact converges.project part part_merge same stamped

end

theorem mergeTask_convergesFrom (id : String) :
    ConvergesFrom mergeTask { id := id }
      (fun task => ∀ occurrence ∈ task.occurrences, IsStamped occurrence) := by
  intro first second same stamped
  apply Task.ext
  · exact foldl_constant Task.id fun _ _ => rfl
  · exact foldl_register Task.name rfl (fun _ _ => rfl) same
  · exact foldl_register Task.description rfl (fun _ _ => rfl) same
  · exact foldl_register Task.steps rfl (fun _ _ => rfl) same
  · exact foldl_register Task.status rfl (fun _ _ => rfl) same
  · exact foldl_register Task.listId rfl (fun _ _ => rfl) same
  · exact foldl_register Task.rank rfl (fun _ _ => rfl) same
  · exact foldl_register Task.day rfl (fun _ _ => rfl) same
  · exact foldl_register Task.start rfl (fun _ _ => rfl) same
  · exact foldl_register Task.due rfl (fun _ _ => rfl) same
  · exact foldl_register Task.minutes rfl (fun _ _ => rfl) same
  · exact foldl_tombstone Task.deleted rfl (fun _ _ => rfl) same
  · exact foldl_register Task.repeatRule rfl (fun _ _ => rfl) same
  · exact foldl_occurrences Task.occurrences rfl (fun _ _ => rfl) same stamped
  · exact foldl_register Task.origin rfl (fun _ _ => rfl) same
  · exact foldl_register Task.source rfl (fun _ _ => rfl) same
  · exact foldl_register Task.remind rfl (fun _ _ => rfl) same

theorem mergeEvent_convergesFrom (id : String) :
    ConvergesFrom mergeEvent { id := id }
      (fun event => ∀ occurrence ∈ event.occurrences, IsStamped occurrence) := by
  intro first second same stamped
  apply Event.ext
  · exact foldl_constant Event.id fun _ _ => rfl
  · exact foldl_register Event.name rfl (fun _ _ => rfl) same
  · exact foldl_register Event.start rfl (fun _ _ => rfl) same
  · exact foldl_register Event.end rfl (fun _ _ => rfl) same
  · exact foldl_register Event.weekdays rfl (fun _ _ => rfl) same
  · exact foldl_register Event.day rfl (fun _ _ => rfl) same
  · exact foldl_tombstone Event.deleted rfl (fun _ _ => rfl) same
  · exact foldl_register Event.repeatRule rfl (fun _ _ => rfl) same
  · exact foldl_occurrences Event.occurrences rfl (fun _ _ => rfl) same stamped
  · exact foldl_register Event.origin rfl (fun _ _ => rfl) same
  · exact foldl_register Event.allDay rfl (fun _ _ => rfl) same
  · exact foldl_register Event.isHoliday rfl (fun _ _ => rfl) same
  · exact foldl_register Event.color rfl (fun _ _ => rfl) same
  · exact foldl_register Event.description rfl (fun _ _ => rfl) same
  · exact foldl_register Event.remind rfl (fun _ _ => rfl) same
  · exact foldl_register Event.listId rfl (fun _ _ => rfl) same

theorem mergeList_convergesFrom (id : String) :
    ConvergesFrom mergeList { id := id } (fun _ => True) := by
  intro first second same _
  apply TaskList.ext
  · exact foldl_constant TaskList.id fun _ _ => rfl
  · exact foldl_register TaskList.name rfl (fun _ _ => rfl) same
  · exact foldl_register TaskList.order rfl (fun _ _ => rfl) same
  · exact foldl_tombstone TaskList.deleted rfl (fun _ _ => rfl) same
  · exact foldl_register TaskList.color rfl (fun _ _ => rfl) same

theorem mergeLearned_convergesFrom (id : String) :
    ConvergesFrom mergeLearned { id := id } (fun _ => True) := by
  intro first second same _
  apply LearnedWord.ext
  · exact foldl_constant LearnedWord.id fun _ _ => rfl
  · exact foldl_register LearnedWord.kind rfl (fun _ _ => rfl) same
  · exact foldl_register LearnedWord.kindCount rfl (fun _ _ => rfl) same
  · exact foldl_register LearnedWord.minutes rfl (fun _ _ => rfl) same
  · exact foldl_register LearnedWord.minutesCount rfl (fun _ _ => rfl) same
  · exact foldl_register LearnedWord.touched rfl (fun _ _ => rfl) same
  · exact foldl_tombstone LearnedWord.deleted rfl (fun _ _ => rfl) same

/-- The stamp of a reminder mark is merged as a tombstone is. -/
theorem mergeDeleted_eq_ite (current incoming : Option LwwStamp) :
    mergeDeleted current incoming =
      if stampKey current < stampKey incoming then incoming else current := by
  cases incoming with
  | none => rw [if_neg (not_stampKey_lt_none current), mergeDeleted]
  | some stamp => rfl

theorem mergeReminded_convergesFrom (id : String) :
    ConvergesFrom mergeReminded { id := id } (fun _ => True) := by
  intro first second same _
  apply Reminded.ext
  · exact foldl_constant Reminded.id fun _ _ => rfl
  · exact foldl_tombstone Reminded.stamp rfl
      (fun current incoming => mergeDeleted_eq_ite current.stamp incoming.stamp) same
  · exact foldl_tombstone Reminded.deleted rfl (fun _ _ => rfl) same

/-! ## Maps of objects -/

theorem mergeObject_convergesFrom {merge : τ -> τ -> τ}
    (key : τ -> String) (empty : String -> τ) {Admissible : τ -> Prop}
    (objects : ∀ id, ConvergesFrom merge (empty id)
      fun incoming => Admissible incoming ∧ key incoming = id) :
    ConvergesFrom
      (fun store incoming =>
        mergeObject merge store (key incoming) (empty (key incoming)) incoming)
      ∅ Admissible := by
  have slots : ConvergesFrom
      (alterAt (fun incoming => some (key incoming))
        (fun slot incoming => some (merge (slot.getD (empty (key incoming))) incoming)))
      ∅ Admissible := by
    refine ConvergesFrom.alterAt fun id => ?_
    refine ((objects id).mono fun incoming admissible =>
      ⟨admissible.1, Option.some.inj admissible.2⟩).defaulted.congr ?_
    intro slot incoming admissible
    rw [Option.some.inj admissible.2]
  exact slots

/-! ## The state -/

def ChangeKind.task? : ChangeKind -> Option Task
  | .task inner => some inner
  | _ => none

def ChangeKind.event? : ChangeKind -> Option Event
  | .event inner => some inner
  | _ => none

def ChangeKind.list? : ChangeKind -> Option TaskList
  | .list inner => some inner
  | _ => none

def ChangeKind.nutritionDay? : ChangeKind -> Option NutritionDay
  | .nutritionDay inner => some inner
  | _ => none

def ChangeKind.settings? : ChangeKind -> Option Settings
  | .settings inner => some inner
  | _ => none

def ChangeKind.goals? : ChangeKind -> Option GoalSet
  | .goals inner => some inner
  | _ => none

def ChangeKind.goalPeriod? : ChangeKind -> Option GoalPeriod
  | .goalPeriod inner => some inner
  | _ => none

def ChangeKind.health? : ChangeKind -> Option HealthRecord
  | .health inner => some inner
  | _ => none

def ChangeKind.learned? : ChangeKind -> Option LearnedWord
  | .learned inner => some inner
  | _ => none

def ChangeKind.quickLine? : ChangeKind -> Option QuickLine
  | .quickLine inner => some inner
  | _ => none

def ChangeKind.reminded? : ChangeKind -> Option Reminded
  | .reminded inner => some inner
  | _ => none

/-- What a change that passed its check does to the state. -/
def PlannerState.take (state : PlannerState) (kind : ChangeKind) : PlannerState where
  tasks := kind.task?.elim state.tasks fun task =>
    mergeObject mergeTask state.tasks task.id { id := task.id } task
  events := kind.event?.elim state.events fun event =>
    mergeObject mergeEvent state.events event.id { id := event.id } event
  lists := kind.list?.elim state.lists fun list =>
    mergeObject mergeList state.lists list.id { id := list.id } list
  nutrition := kind.nutritionDay?.elim state.nutrition fun day =>
    mergeObject mergeDay state.nutrition day.day { day := day.day } day
  settings := mergeReg state.settings kind.settings?
  goals := mergeReg state.goals kind.goals?
  goalPeriods := kind.goalPeriod?.elim state.goalPeriods (mergeRecord state.goalPeriods)
  health := kind.health?.elim state.health (mergeRecord state.health)
  learned := kind.learned?.elim state.learned fun word =>
    mergeObject mergeLearned state.learned word.id { id := word.id } word
  quickLines := kind.quickLine?.elim state.quickLines (mergeRecord state.quickLines)
  reminded := kind.reminded?.elim state.reminded fun mark =>
    mergeObject mergeReminded state.reminded mark.id { id := mark.id } mark

/-- The check of a change. -/
def checkChange (isUppercase : Char -> Bool) (change : Change) : Result ChangeKind :=
  match change.change with
  | some (.task task) => do
      checkTask task
      return .task task
  | some (.event event) => do
      checkEvent event
      return .event event
  | some (.list list) => do
      checkList list
      return .list list
  | some (.nutritionDay day) => do
      checkDay day
      return .nutritionDay day
  | some (.settings settings) => do
      checkSettings settings
      return .settings settings
  | some (.goals goals) => do
      checkGoals goals
      return .goals goals
  | some (.goalPeriod period) => do
      checkGoalPeriod period
      return .goalPeriod period
  | some (.health record) => do
      checkHealth record
      return .health record
  | some (.learned word) => do
      checkLearned isUppercase word
      return .learned word
  | some (.quickLine line) => do
      checkQuickLine line
      return .quickLine line
  | some (.reminded mark) => do
      checkReminded mark
      return .reminded mark
  | some (.migration migration) => .ok (.migration migration)
  -- an unknown change does nothing, as a note about a migration does
  | none => .ok (.migration ⟨"", 0⟩)

section

variable (isUppercase : Char -> Bool)

/-- A change is refused with no effect, or its object is merged. -/
theorem applyChange_checksFirst (change : Change) :
    Update.ChecksFirst (applyChange isUppercase change) (checkChange isUppercase change)
      PlannerState.take := by
  obtain ⟨_ | kind⟩ := change
  · exact fun _ => rfl
  · cases kind with
    | migration migration => exact fun _ => rfl
    | task task =>
        exact Update.checksFirst_bind fun _ => Update.checksFirst_modify fun _ => rfl
    | event event =>
        exact Update.checksFirst_bind fun _ => Update.checksFirst_modify fun _ => rfl
    | list list =>
        exact Update.checksFirst_bind fun _ => Update.checksFirst_modify fun _ => rfl
    | nutritionDay day =>
        exact Update.checksFirst_bind fun _ => Update.checksFirst_modify fun _ => rfl
    | settings settings =>
        exact Update.checksFirst_bind fun _ => Update.checksFirst_modify fun _ => rfl
    | goals goals =>
        exact Update.checksFirst_bind fun _ => Update.checksFirst_modify fun _ => rfl
    | goalPeriod period =>
        exact Update.checksFirst_bind fun _ => Update.checksFirst_modify fun _ => rfl
    | health record =>
        exact Update.checksFirst_bind fun _ => Update.checksFirst_modify fun _ => rfl
    | learned word =>
        exact Update.checksFirst_bind fun _ => Update.checksFirst_modify fun _ => rfl
    | quickLine line =>
        exact Update.checksFirst_bind fun _ => Update.checksFirst_modify fun _ => rfl
    | reminded mark =>
        exact Update.checksFirst_bind fun _ => Update.checksFirst_modify fun _ => rfl

/-- The changes that pass their checks. -/
def passed (changes : List Change) : List ChangeKind :=
  changes.filterMap fun change => (checkChange isUppercase change).toOption

variable {isUppercase} in
theorem exists_of_mem_passed {changes : List Change} {kind : ChangeKind}
    (member : kind ∈ passed isUppercase changes) :
    ∃ change ∈ changes, checkChange isUppercase change = .ok kind := by
  obtain ⟨change, inside, found⟩ := List.mem_filterMap.1 member
  exact ⟨change, inside, eq_ok_of_toOption found⟩

theorem applyChanges_eq_foldl (changes : List Change) (state : PlannerState) :
    (applyChanges isUppercase changes state).2 =
      (passed isUppercase changes).foldl PlannerState.take state := by
  induction changes generalizing state with
  | nil => rfl
  | cons change changes inductionHypothesis =>
      have ran := applyChange_checksFirst isUppercase change state
      cases checked : checkChange isUppercase change with
      | error error =>
          rw [checked] at ran
          simp [applyChanges, ran, passed, checked, Except.toOption, inductionHypothesis]
      | ok kind =>
          rw [checked] at ran
          simp [applyChanges, ran, passed, checked, Except.toOption, inductionHypothesis]

theorem applyChanges_append (first second : List Change) (state : PlannerState) :
    (applyChanges isUppercase (first ++ second) state).2 =
      (applyChanges isUppercase second (applyChanges isUppercase first state).2).2 := by
  simp only [applyChanges_eq_foldl, passed, List.filterMap_append, List.foldl_append]

theorem passed_sameMembers {first second : List Change}
    (same : SameMembers first second) :
    SameMembers (passed isUppercase first) (passed isUppercase second) := by
  intro kind
  simp only [passed, List.mem_filterMap, same _]

/-- The check of a known change returns the change itself. -/
theorem checkChange_eq_ok {change : Change} {kind : ChangeKind}
    (checked : checkChange isUppercase change = .ok kind) :
    change.change = some kind ∨ ∃ migration, kind = .migration migration := by
  obtain ⟨_ | inner⟩ := change
  · cases checked
    exact .inr ⟨_, rfl⟩
  · left
    cases inner <;>
      simp only [checkChange, bind_eq_ok, pure, Except.pure, Except.ok.injEq] at checked <;>
      simp_all

end

/-- The parts of the state converge one by one. -/
theorem take_convergesFrom {Admissible : ChangeKind -> Prop}
    (tasks : ∀ kind, Admissible kind -> ∀ task ∈ kind.task?,
      ∀ occurrence ∈ task.occurrences, IsStamped occurrence)
    (events : ∀ kind, Admissible kind -> ∀ event ∈ kind.event?,
      ∀ occurrence ∈ event.occurrences, IsStamped occurrence)
    (nutrition : ConvergesFrom
      (fun days (kind : ChangeKind) => kind.nutritionDay?.elim days fun day =>
        mergeObject mergeDay days day.day { day := day.day } day) ∅ Admissible)
    (goalPeriods : ConvergesFrom
      (fun records (kind : ChangeKind) => kind.goalPeriod?.elim records (mergeRecord records))
      ∅ Admissible)
    (health : ConvergesFrom
      (fun records (kind : ChangeKind) => kind.health?.elim records (mergeRecord records))
      ∅ Admissible)
    (quickLines : ConvergesFrom
      (fun records (kind : ChangeKind) => kind.quickLine?.elim records (mergeRecord records))
      ∅ Admissible) : ConvergesFrom PlannerState.take .new Admissible := by
  intro first second same admissible
  have objects {τ : Type} {merge : τ -> τ -> τ} {Fine : τ -> Prop}
      (part : PlannerState -> Std.ExtTreeMap String τ)
      (view : ChangeKind -> Option τ)
      (key : τ -> String)
      (empty : String -> τ)
      (initially : part .new = ∅)
      (part_take : ∀ state kind,
        (view kind).elim (part state) (fun incoming =>
          mergeObject merge (part state) (key incoming) (empty (key incoming)) incoming) =
          part (state.take kind))
      (converges : ∀ id, ConvergesFrom merge (empty id) Fine)
      (fine : ∀ kind, Admissible kind -> ∀ object ∈ view kind, Fine object) :
      part (first.foldl PlannerState.take .new) =
        part (second.foldl PlannerState.take .new) := by
    have store : ConvergesFrom
        (fun store kind => (view kind).elim store fun incoming =>
          mergeObject merge store (key incoming) (empty (key incoming)) incoming)
        (part .new) Admissible := by
      rw [initially]
      have keyed (id : String) := (converges id).mono
        fun object (fine : Fine object ∧ key object = id) => fine.1
      exact ((mergeObject_convergesFrom key empty keyed).optional view).mono fine
    exact store.project part part_take same admissible
  apply PlannerState.ext
  · exact objects PlannerState.tasks ChangeKind.task? Task.id (fun id => { id := id }) rfl
      (fun _ _ => rfl) mergeTask_convergesFrom tasks
  · exact objects PlannerState.events ChangeKind.event? Event.id (fun id => { id := id }) rfl
      (fun _ _ => rfl) mergeEvent_convergesFrom events
  · exact objects PlannerState.lists ChangeKind.list? TaskList.id (fun id => { id := id }) rfl
      (fun _ _ => rfl) mergeList_convergesFrom fun _ _ _ _ => trivial
  · exact nutrition.project PlannerState.nutrition (fun _ _ => rfl) same admissible
  · exact ((mergeReg_convergesFrom ChangeKind.settings?).mono fun _ _ => trivial).project
      PlannerState.settings (fun _ _ => rfl) same admissible
  · exact ((mergeReg_convergesFrom ChangeKind.goals?).mono fun _ _ => trivial).project
      PlannerState.goals (fun _ _ => rfl) same admissible
  · exact goalPeriods.project PlannerState.goalPeriods (fun _ _ => rfl) same admissible
  · exact health.project PlannerState.health (fun _ _ => rfl) same admissible
  · exact objects PlannerState.learned ChangeKind.learned? LearnedWord.id
      (fun id => { id := id }) rfl (fun _ _ => rfl) mergeLearned_convergesFrom
      fun _ _ _ _ => trivial
  · exact quickLines.project PlannerState.quickLines (fun _ _ => rfl) same admissible
  · exact objects PlannerState.reminded ChangeKind.reminded? Reminded.id
      (fun id => { id := id }) rfl (fun _ _ => rfl) mergeReminded_convergesFrom
      fun _ _ _ _ => trivial

/-! ## Operations -/

section

variable (isUppercase : Char -> Bool)

/-- The operation is not refused when it comes from the device. -/
def Accepted (device : String) (op : PlannerOp) : Prop :=
  ((applyOp isUppercase op device).exec .new).1.isOk

/-- Apply operations with the devices they come from. -/
def applyOps (ops : List (String × PlannerOp)) (state : PlannerState) : PlannerState :=
  ops.foldl (fun state (device, op) => ((applyOp isUppercase op device).exec state).2) state

/-- The changes of some operations. -/
def changesOf (ops : List (String × PlannerOp)) : List Change :=
  ops.flatMap fun (_, op) => op.changes

variable {isUppercase}

theorem Accepted.stamps {device : String} {op : PlannerOp}
    (accepted : Accepted isUppercase device op) :
    ∃ stamps, opStamps op = .ok stamps ∧
      (stamps.all fun stamp => stamp.deviceId == device) = true := by
  unfold Accepted applyOp at accepted
  rw [Update.exec_bind, Update.exec_liftM] at accepted
  cases stampsEq : opStamps op with
  | error error =>
      rw [stampsEq] at accepted
      cases accepted
  | ok stamps =>
      refine ⟨stamps, rfl, ?_⟩
      rw [stampsEq] at accepted
      by_contra foreign
      simp [require, foreign, Except.isOk, Except.toBool] at accepted

/-- An accepted operation applies its changes. -/
theorem Accepted.exec {device : String} {op : PlannerOp}
    (accepted : Accepted isUppercase device op) (state : PlannerState) :
    ((applyOp isUppercase op device).exec state).2 =
      (applyChanges isUppercase op.changes state).2 := by
  obtain ⟨stamps, stampsEq, own⟩ := accepted.stamps
  simp only [applyOp, Update.exec_bind, Update.exec_liftM, Update.exec_modifyGet,
    stampsEq, own, require, if_true]

theorem applyOps_of_accepted
    (ops : List (String × PlannerOp))
    (accepted : ∀ pair ∈ ops, Accepted isUppercase pair.1 pair.2) (state : PlannerState) :
    applyOps isUppercase ops state =
      (applyChanges isUppercase (changesOf ops) state).2 := by
  induction ops generalizing state with
  | nil => rfl
  | cons pair ops inductionHypothesis =>
      obtain ⟨device, op⟩ := pair
      have head := (accepted (device, op) List.mem_cons_self).exec state
      have tail := inductionHypothesis
        fun other member => accepted other (List.mem_cons_of_mem _ member)
      have split : changesOf ((device, op) :: ops) = op.changes ++ changesOf ops := rfl
      rw [split, applyChanges_append, ← head]
      exact tail _

/-- Tasks, events, lists, learned words, reminder marks, settings and goals, every
occurrence with a stamp. -/
def FieldChange (change : Change) : Prop :=
  match change.change with
  | some (.task task) => ∀ occurrence ∈ task.occurrences, IsStamped occurrence
  | some (.event event) => ∀ occurrence ∈ event.occurrences, IsStamped occurrence
  | some (.list _) => True
  | some (.learned _) => True
  | some (.reminded _) => True
  | some (.settings _) => True
  | some (.goals _) => True
  | _ => False

/-- A change that passed its check as a change of stamped fields. -/
theorem fieldChange_of_mem_passed {changes : List Change}
    (fields : ∀ change ∈ changes, FieldChange change) {kind : ChangeKind}
    (member : kind ∈ passed isUppercase changes) : FieldChange ⟨some kind⟩ := by
  obtain ⟨change, inside, checked⟩ := exists_of_mem_passed member
  have field := fields change inside
  rcases checkChange_eq_ok isUppercase checked with known | ⟨migration, rfl⟩
  · obtain ⟨_ | inner⟩ := change
    · cases known
    · cases known
      exact field
  · obtain ⟨_ | inner⟩ := change
    · cases field
    · cases inner with
      | migration _ => cases field
      | _ =>
          simp only [checkChange, bind_eq_ok, pure, Except.pure, Except.ok.injEq, reduceCtorEq,
            and_false, exists_false] at checked

end

/-- Accepted operations on objects with stamped fields give one state in whatever
order, however often and in whatever operations their changes come. -/
theorem fields_converge
    (isUppercase : Char -> Bool)
    (first second : List (String × PlannerOp))
    (firstAccepted : ∀ pair ∈ first, Accepted isUppercase pair.1 pair.2)
    (secondAccepted : ∀ pair ∈ second, Accepted isUppercase pair.1 pair.2)
    (fields : ∀ change ∈ changesOf first, FieldChange change)
    (same : SameMembers (changesOf first) (changesOf second)) :
    applyOps isUppercase first .new = applyOps isUppercase second .new := by
  rw [applyOps_of_accepted first firstAccepted, applyOps_of_accepted second secondAccepted,
    applyChanges_eq_foldl, applyChanges_eq_foldl]
  have never {τ : Type} (step : τ -> ChangeKind -> τ) (initial : τ)
      (ignores : ∀ state kind, FieldChange ⟨some kind⟩ -> step state kind = state) :
      ConvergesFrom step initial fun kind => FieldChange ⟨some kind⟩ := by
    have unchanged : ConvergesFrom (fun (state : τ) (_ : ChangeKind) => state) initial
        fun kind => FieldChange ⟨some kind⟩ := by
      intro first second _ _
      rw [List.foldl_fixed, List.foldl_fixed]
    exact unchanged.congr ignores
  refine take_convergesFrom ?_ ?_ ?_ ?_ ?_ ?_ _ _ (passed_sameMembers isUppercase same)
    fun kind member => fieldChange_of_mem_passed fields member
  · intro kind field task isTask
    cases kind <;> cases isTask
    exact field
  · intro kind field event isEvent
    cases kind <;> cases isEvent
    exact field
  · apply never
    intro days kind field
    cases kind <;> first | rfl | cases field
  · apply never
    intro records kind field
    cases kind <;> first | rfl | cases field
  · apply never
    intro records kind field
    cases kind <;> first | rfl | cases field
  · apply never
    intro records kind field
    cases kind <;> first | rfl | cases field

/-- A task with a name and one occurrence, written by a device. -/
def sampleTask (device name : String) : PlannerOp where
  changes := [⟨some (.task {
    id := "t"
    name := some ⟨some ⟨1, device⟩, name⟩
    occurrences := [⟨"2024-01-02", some ⟨1, device⟩, false, true, []⟩] })⟩]

/-- Two devices write the same task with the same Lamport time. -/
theorem fields_converge_sample :
    applyOps Char.isUpper [("d1", sampleTask "d1" "a"), ("d2", sampleTask "d2" "b")] .new =
      applyOps Char.isUpper
        [("d2", sampleTask "d2" "b"), ("d1", sampleTask "d1" "a"), ("d2", sampleTask "d2" "b")]
        .new := by
  refine fields_converge Char.isUpper _ _ ?_ ?_ ?_ ?_
  · simp only [List.mem_cons, List.not_mem_nil, or_false, forall_eq_or_imp, forall_eq, Accepted]
    decide
  · simp only [List.mem_cons, List.not_mem_nil, or_false, forall_eq_or_imp, forall_eq, Accepted]
    decide
  · intro change member
    simp only [changesOf, sampleTask, List.flatMap_cons, List.flatMap_nil, List.append_nil,
      List.cons_append, List.nil_append, List.mem_cons, List.not_mem_nil, or_false] at member
    rcases member with rfl | rfl <;> simp [FieldChange, IsStamped, Stamped.stamp]
  · intro change
    simp only [changesOf, sampleTask, List.flatMap_cons, List.flatMap_nil, List.append_nil,
      List.cons_append, List.nil_append, List.mem_cons, List.not_mem_nil, or_false]
    tauto

end Parvane.Planner
