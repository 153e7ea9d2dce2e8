import Parvane.Agenda.NoteTasks
import Parvane.Foundation.Firsts

/-!
# Tasks of two notes

A task of a note is found by its id, whichever note it is of.  A line that is copied to another
note takes its marker along, and both notes write the same task.
-/

namespace Parvane.Agenda

open Firsts

section

variable {state : State} {task : Task} {tasks : List Task} {source noteId id : String}
  {written : Written} {plan last : NoteTaskPlan} {plans : List NoteTaskPlan}

/-- The plans for a task. -/
def plansFor (plans : List NoteTaskPlan) (id : String) : List NoteTaskPlan :=
  plans.filter fun plan => noteTaskId plan.marker == id

/-- A task after all plans for it are written. -/
def putPlans (plans : List NoteTaskPlan) (task : Task) : Task :=
  (plansFor plans task.id).foldl putPlan task

/-- The tasks that are not of a note. -/
def otherTasks (noteId : String) (tasks : List Task) : List Task :=
  tasks.filter fun task => sourceChat task != some (noteSourceOf noteId)

theorem findIn_eq_lookup : findIn tasks id = lookup Task.id id tasks :=
  rfl

theorem mem_plansFor : plan ∈ plansFor plans id ↔ plan ∈ plans ∧ noteTaskId plan.marker = id := by
  unfold plansFor
  rw [List.mem_filter, beq_iff_eq]

theorem plansFor_cons_self :
    plansFor (plan :: plans) (noteTaskId plan.marker) =
      plan :: plansFor plans (noteTaskId plan.marker) := by
  unfold plansFor
  rw [List.filter_cons, beq_self_eq_true, if_pos rfl]

theorem plansFor_cons_ne (isOther : noteTaskId plan.marker ≠ id) :
    plansFor (plan :: plans) id = plansFor plans id := by
  unfold plansFor
  rw [List.filter_cons, beq_false_of_ne isOther, if_neg Bool.false_ne_true]

theorem id_foldl_putPlan : (plans.foldl putPlan task).id = task.id := by
  induction plans generalizing task with
  | nil => rfl
  | cons plan rest inductionHypothesis =>
      rw [List.foldl_cons, inductionHypothesis, id_putPlan]

theorem source_foldl_putPlan : (plans.foldl putPlan task).source = task.source := by
  induction plans generalizing task with
  | nil => rfl
  | cons plan rest inductionHypothesis =>
      rw [List.foldl_cons, inductionHypothesis, source_putPlan]

theorem id_putPlans (plans : List NoteTaskPlan) (task : Task) :
    (putPlans plans task).id = task.id :=
  id_foldl_putPlan

theorem source_putPlans (plans : List NoteTaskPlan) (task : Task) :
    (putPlans plans task).source = task.source :=
  source_foldl_putPlan

theorem putPlans_cons_self (isTask : task.id = noteTaskId plan.marker) :
    putPlans (plan :: plans) task = putPlans plans (putPlan task plan) := by
  unfold putPlans
  rw [id_putPlan, isTask, plansFor_cons_self, List.foldl_cons]

theorem putPlans_cons_ne (isOther : noteTaskId plan.marker ≠ task.id) :
    putPlans (plan :: plans) task = putPlans plans task := by
  unfold putPlans
  rw [plansFor_cons_ne isOther]

/-- Writing one plan changes the first task with its id. -/
theorem putFirst_eq_mapFirsts {seen : List String}
    (notSeen : noteTaskId plan.marker ∉ seen)
    (found : findIn tasks (noteTaskId plan.marker) = some task) :
    putFirst tasks (noteTaskId plan.marker) (putPlan task plan) =
      mapFirsts Task.id (putPlans [plan]) seen tasks := by
  have one (other : Task) (sameId : other.id = noteTaskId plan.marker) :
      putPlans [plan] other = putPlan other plan :=
    putPlans_cons_self sameId
  have none (other : Task) (isOther : noteTaskId plan.marker ≠ other.id) :
      putPlans [plan] other = other :=
    putPlans_cons_ne isOther
  induction tasks generalizing seen with
  | nil => cases found
  | cons head rest inductionHypothesis =>
      rw [findIn_eq_lookup] at found
      rw [putFirst, mapFirsts]
      split
      case isTrue isHead =>
        have headId : head.id = noteTaskId plan.marker := beq_iff_eq.1 isHead
        rw [← headId, lookup_cons_self] at found
        cases found
        rw [if_neg (by rwa [headId]), one task headId, mapFirsts_eq_self]
        intro other _
        by_cases sameId : other.id = task.id
        · exact .inl (sameId ▸ List.mem_cons_self)
        · exact .inr (none other (by rw [← headId]; exact Ne.symm sameId))
      case isFalse isLater =>
        have isOther : noteTaskId plan.marker ≠ head.id := fun same =>
          isLater (beq_iff_eq.2 same.symm)
        rw [lookup_cons_ne isOther.symm] at found
        rw [none head isOther, ite_self, ← inductionHypothesis _ found]
        rw [List.mem_cons, not_or]
        exact ⟨isOther, notSeen⟩

theorem tasks_applyPlan_of_found {source : String} {written : Written}
    (found : findIn written.tasks (noteTaskId plan.marker) = some task) :
    (applyPlan source written plan).tasks =
      mapFirsts Task.id (putPlans [plan]) [] written.tasks := by
  rw [← putFirst_eq_mapFirsts List.not_mem_nil found, applyPlan]
  dsimp only
  rw [found]

theorem tasks_applyPlan_of_new {source : String} {written : Written}
    (isNew : findIn written.tasks (noteTaskId plan.marker) = none) :
    (applyPlan source written plan).tasks =
      written.tasks ++ [createdTask source plan (written.minRank - 1)] := by
  rw [applyPlan]
  dsimp only
  rw [isNew]

/-- The first plan is written before the others. -/
theorem mapFirsts_putPlans_cons (plan : NoteTaskPlan) (plans : List NoteTaskPlan) :
    mapFirsts Task.id (putPlans plans) [] (mapFirsts Task.id (putPlans [plan]) [] tasks) =
      mapFirsts Task.id (putPlans (plan :: plans)) [] tasks := by
  rw [mapFirsts_mapFirsts (id_putPlans [plan])]
  refine mapFirsts_congr fun task _ => ?_
  by_cases isTask : task.id = noteTaskId plan.marker
  · rw [putPlans_cons_self isTask, putPlans_cons_self isTask]
    rfl
  · rw [putPlans_cons_ne (Ne.symm isTask), putPlans_cons_ne (Ne.symm isTask)]
    rfl

/-- What is written: the first tasks of the ids are as the plans say, and new tasks of the note
are at the end. -/
theorem exists_created (source : String) (plans : List NoteTaskPlan) (written : Written) :
    ∃ created, (plans.foldl (applyPlan source) written).tasks =
        mapFirsts Task.id (putPlans plans) [] written.tasks ++ created ∧
      ∀ task ∈ created, sourceChat task = some source ∧ findIn written.tasks task.id = none := by
  induction plans generalizing written with
  | nil =>
      refine ⟨[], ?_, fun task member => absurd member List.not_mem_nil⟩
      rw [List.append_nil]
      exact (mapFirsts_eq_self fun task _ => .inr rfl).symm
  | cons plan rest inductionHypothesis =>
      obtain ⟨created, isWritten, isNew⟩ := inductionHypothesis (applyPlan source written plan)
      rw [List.foldl_cons, isWritten]
      cases found : findIn written.tasks (noteTaskId plan.marker) with
      | some existing =>
          have tasks := @tasks_applyPlan_of_found _ _ source _ found
          refine ⟨created, by rw [tasks, mapFirsts_putPlans_cons], fun task member => ?_⟩
          obtain ⟨isSource, notFound⟩ := isNew task member
          refine ⟨isSource, ?_⟩
          rw [tasks, findIn_eq_lookup, lookup_mapFirsts (id_putPlans [plan]),
            Option.map_eq_none_iff] at notFound
          exact notFound
      | none =>
          have tasks := @tasks_applyPlan_of_new _ source _ found
          have noTask : ∀ task ∈ written.tasks, noteTaskId plan.marker ≠ task.id := by
            intro task member sameId
            exact List.find?_eq_none.1 found task member (beq_iff_eq.2 sameId.symm)
          have unchanged : mapFirsts Task.id (putPlans rest) [] written.tasks =
              mapFirsts Task.id (putPlans (plan :: rest)) [] written.tasks :=
            mapFirsts_congr fun task member => (putPlans_cons_ne (noTask task member)).symm
          rw [tasks, mapFirsts_append, unchanged, List.append_assoc]
          refine ⟨_, rfl, fun task member => ?_⟩
          rcases List.mem_append.1 member with isFirst | isLater
          · rw [mapFirsts, mapFirsts, List.mem_singleton] at isFirst
            have sameId := key_ite (id_putPlans rest)
              (createdTask source plan (written.minRank - 1))
              ((written.tasks.map Task.id).reverse ++ [])
            rw [← isFirst] at sameId
            refine ⟨?_, by rw [sameId]; exact found⟩
            have sameSource : task.source = some ⟨source, markerToOpId plan.marker⟩ := by
              rw [isFirst]
              split
              case isTrue => rfl
              case isFalse => exact source_putPlans _ _
            rw [sourceChat, sameSource]
            rfl
          · obtain ⟨isSource, notFound⟩ := isNew task isLater
            rw [tasks, findIn, List.find?_append, Option.or_eq_none_iff] at notFound
            exact ⟨isSource, notFound.1⟩

/-! ## What plans leave alone -/

/-- The status is one that plans write. -/
def IsWritten (task : Task) : Prop :=
  task.status = "done" ∨ task.status = "queue"

theorem isWritten_statusOf (isStatus : task.status = statusOf plan) : IsWritten task := by
  unfold IsWritten
  rw [isStatus, statusOf]
  cases plan.isDone
  · exact .inr rfl
  · exact .inl rfl

theorem IsWritten.status_eq
    (isWritten : IsWritten task)
    (done : isDone task = plan.isDone) : task.status = statusOf plan := by
  unfold isDone at done
  rw [statusOf, ← done]
  rcases isWritten with isStatus | isStatus
  · rw [isStatus]
    rfl
  · rw [isStatus]
    rfl

theorem status_putPlan :
    (putPlan task plan).status =
      if isDone task != plan.isDone then statusOf plan else task.status := by
  have status (other : Task) : (putStatus other plan).status =
      if isDone other != plan.isDone then statusOf plan else other.status := by
    unfold putStatus
    split
    case isTrue => rfl
    case isFalse => rfl
  unfold putPlan
  split
  case isTrue => exact status task
  case isFalse => exact status (putFields task plan)

theorem isWritten_putPlan (some_written : IsWritten task ∨ plan.isDone = true) :
    IsWritten (putPlan task plan) := by
  by_cases same : isDone task = plan.isDone
  · have status : (putPlan task plan).status = task.status := by
      rw [status_putPlan, same, bne_self_eq_false, if_neg Bool.false_ne_true]
    unfold IsWritten
    rw [status]
    rcases some_written with isWritten | done
    · exact isWritten
    · rw [done] at same
      exact .inl (beq_iff_eq.1 same)
  · exact isWritten_statusOf (by rw [status_putPlan, if_pos (bne_iff_ne.2 same)])

theorem isWritten_foldl (some_written : IsWritten task ∨ ∃ plan ∈ plans, plan.isDone = true) :
    IsWritten (plans.foldl putPlan task) := by
  induction plans generalizing task with
  | nil =>
      rcases some_written with isWritten | ⟨plan, member, -⟩
      · exact isWritten
      · exact absurd member List.not_mem_nil
  | cons plan rest inductionHypothesis =>
      refine inductionHypothesis ?_
      rw [List.exists_mem_cons_iff, ← or_assoc] at some_written
      exact some_written.imp_left isWritten_putPlan

theorem status_foldl (same : ∀ plan ∈ plans, plan.isDone = isDone task) :
    (plans.foldl putPlan task).status = task.status := by
  induction plans generalizing task with
  | nil => rfl
  | cons plan rest inductionHypothesis =>
      have done := same plan List.mem_cons_self
      have stillDone : isDone (putPlan task plan) = isDone task :=
        (follows_putPlan task plan).2.trans done
      rw [List.foldl_cons, inductionHypothesis fun other member =>
        (same other (List.mem_cons_of_mem _ member)).trans stillDone.symm, status_putPlan, done,
        bne_self_eq_false, if_neg Bool.false_ne_true]

theorem putFields_eq_self (same : sameFields task plan = true) : putFields task plan = task := by
  obtain ⟨name, day, start, minutes, due⟩ := sameFields_iff.1 same
  unfold putFields
  rw [← name, ← day, ← start, ← minutes, ← due]

/-- Whatever plans have written, other fields override it. -/
theorem putFields_foldl :
    putFields (plans.foldl putPlan task) plan =
      { putFields task plan with status := (plans.foldl putPlan task).status } := by
  induction plans generalizing task with
  | nil => rfl
  | cons first rest inductionHypothesis =>
      have head : { putFields (putPlan task first) plan with
            status := ((first :: rest).foldl putPlan task).status } =
          { putFields task plan with status := ((first :: rest).foldl putPlan task).status } := by
        unfold putPlan putStatus
        split <;> split <;> rfl
      rw [List.foldl_cons, inductionHypothesis]
      exact head

/-- A task is left as it was exactly when it is as the last plan says, and when no plan before has
written a status that the last one does not write back. -/
theorem foldl_putPlan_eq_self_iff :
    plans.foldl putPlan task = task ↔
      ∀ last, plans.getLast? = some last ->
        Follows task last ∧
          (task.status = statusOf last ∨ ∀ plan ∈ plans, plan.isDone = false) := by
  cases empty : plans.getLast? with
  | none =>
      rw [List.getLast?_eq_none_iff.1 empty]
      refine iff_of_true rfl fun last isLast => ?_
      cases isLast
  | some last =>
      obtain ⟨front, rfl⟩ := List.getLast?_eq_some_iff.1 empty
      have followsLast : Follows ((front ++ [last]).foldl putPlan task) last := by
        rw [List.foldl_append]
        exact follows_putPlan _ last
      simp only [Option.some.injEq, forall_eq']
      constructor
      · intro same
        rw [same] at followsLast
        refine ⟨followsLast, ?_⟩
        by_cases some_done : ∃ plan ∈ front ++ [last], plan.isDone = true
        · have isWritten := @isWritten_foldl task _ (.inr some_done)
          rw [same] at isWritten
          exact .inl (isWritten.status_eq followsLast.2)
        · exact .inr fun plan member =>
            Bool.not_eq_true _ ▸ fun done => some_done ⟨plan, member, done⟩
      · rintro ⟨follows, status⟩
        have sameStatus : ((front ++ [last]).foldl putPlan task).status = task.status := by
          rcases status with isStatus | noneDone
          · rw [isStatus]
            exact (isWritten_foldl (.inl (isWritten_statusOf isStatus))).status_eq followsLast.2
          · refine status_foldl fun plan member => ?_
            rw [noneDone plan member, follows.2]
            exact (noneDone last (List.mem_append_right _ List.mem_cons_self)).symm
        have fields := @putFields_foldl task last (front ++ [last])
        rw [putFields_eq_self followsLast.1, putFields_eq_self follows.1, sameStatus] at fields
        exact fields

/-- The plans for a task leave it as it is: the last one says what it is, and no other has written
another status. -/
def IsSaid (plans : List NoteTaskPlan) (task : Task) : Prop :=
  ∀ last, (plansFor plans task.id).getLast? = some last ->
    Follows task last ∧
      (task.status = statusOf last ∨ ∀ plan ∈ plansFor plans task.id, plan.isDone = false)

/-- A task of another note that has the id of a plan is as the plans say. -/
def LeavesOthers (state : State) (noteId : String) (plans : List NoteTaskPlan) : Prop :=
  ∀ plan ∈ plans, ∀ task,
    findIn (keptTasks noteId plans state.tasks) (noteTaskId plan.marker) = some task ->
      sourceChat task ≠ some (noteSourceOf noteId) -> IsSaid plans task

theorem putPlans_eq_self_iff : putPlans plans task = task ↔ IsSaid plans task :=
  foldl_putPlan_eq_self_iff

theorem otherTasks_keptTasks :
    otherTasks noteId (keptTasks noteId plans tasks) = otherTasks noteId tasks := by
  unfold otherTasks keptTasks
  rw [List.filter_filter]
  apply List.filter_congr
  intro task _
  unfold isStale
  cases isOther : sourceChat task != some (noteSourceOf noteId) with
  | false => rfl
  | true =>
      rw [bne_iff_ne] at isOther
      rw [beq_false_of_ne isOther]
      rfl

/-- Exactly when it is so, applying the plans of a note leaves the tasks that are not of it. -/
theorem otherTasks_applyNoteTasks_iff :
    otherTasks noteId (applyNoteTasks state noteId plans).1.tasks = otherTasks noteId state.tasks ↔
      LeavesOthers state noteId plans := by
  obtain ⟨created, isWritten, isNew⟩ :=
    exists_created (noteSourceOf noteId) plans (unwritten state noteId plans)
  have noneCreated : otherTasks noteId created = [] := by
    refine List.filter_eq_nil_iff.2 fun task member => ?_
    rw [(isNew task member).1, bne_self_eq_false]
    exact Bool.false_ne_true
  have keeps (task : Task) :
      (sourceChat (putPlans plans task) != some (noteSourceOf noteId)) =
        (sourceChat task != some (noteSourceOf noteId)) := by
    rw [sourceChat, source_putPlans, sourceChat]
  have changed : otherTasks noteId (applyNoteTasks state noteId plans).1.tasks =
      otherTasks noteId (mapFirsts Task.id (putPlans plans) []
        (keptTasks noteId plans state.tasks)) := by
    rw [tasks_applyNoteTasks, isWritten]
    unfold otherTasks at noneCreated ⊢
    rw [List.filter_append, noneCreated, List.append_nil]
    rfl
  rw [changed, ← @otherTasks_keptTasks state.tasks noteId plans]
  refine (filter_mapFirsts_eq_iff keeps).trans ?_
  constructor
  · intro unchanged plan _ task found isOther
    exact putPlans_eq_self_iff.1 (unchanged _ List.not_mem_nil task found (bne_iff_ne.2 isOther))
  · intro leaves id _ task found isOther
    have taskId : task.id = id := key_of_lookup found
    refine putPlans_eq_self_iff.2 fun last isLast => ?_
    obtain ⟨isPlan, isFor⟩ := mem_plansFor.1 (List.mem_of_getLast? isLast)
    refine leaves last isPlan task ?_ (bne_iff_ne.1 isOther) last isLast
    rw [isFor, taskId]
    exact found

end

/-! ## One note after another -/

section

variable {state : State} {task : Task} {tasks : List Task} {first second id : String}
  {plan : NoteTaskPlan} {firstPlans secondPlans : List NoteTaskPlan}

/-- Both notes have nothing to change after the first is applied and then the second. -/
def QuietTogether
    (state : State) (first : String) (firstPlans : List NoteTaskPlan) (second : String)
    (secondPlans : List NoteTaskPlan) : Prop :=
  let applied := (applyNoteTasks (applyNoteTasks state first firstPlans).1 second secondPlans).1
  hasNoteTaskChanges applied first firstPlans = false ∧
    hasNoteTaskChanges applied second secondPlans = false

/-- What one note needs for another to be applied after it. -/
structure Settles
    (state : State) (first : String) (firstPlans : List NoteTaskPlan) (second : String)
    (secondPlans : List NoteTaskPlan) : Prop where
  /-- Plans with one marker are one plan, of whichever note. -/
  alike : Alike (firstPlans ++ secondPlans)
  /-- New tasks of the first note are read as tasks of its plans. -/
  reads : ∀ plan ∈ firstPlans,
    findIn (keptTasks first firstPlans state.tasks) (noteTaskId plan.marker) = none ->
      ReadsBack firstPlans plan
  /-- New tasks of the second note, too. -/
  readsAfter : ∀ plan ∈ secondPlans,
    findIn (keptTasks second secondPlans (keptTasks first firstPlans state.tasks))
        (noteTaskId plan.marker) = none ->
      (plan.marker ∈ firstPlans.map NoteTaskPlan.marker ->
        findIn (keptTasks first firstPlans state.tasks) (noteTaskId plan.marker) ≠ none) ->
        ReadsBack secondPlans plan
  /-- A task that the second note takes away is no task of the first one, unless a task behind it
  is as the first note says. -/
  stays : ∀ plan ∈ firstPlans, plan.marker ∉ secondPlans.map NoteTaskPlan.marker -> ∀ task,
    findIn (keptTasks first firstPlans state.tasks) (noteTaskId plan.marker) = some task ->
      isStale (noteSourceOf second) (secondPlans.map NoteTaskPlan.marker) task = true ->
        needsPlan (keptTasks second secondPlans (keptTasks first firstPlans state.tasks)) plan =
          false

theorem noteSourceOf_inj : noteSourceOf first = noteSourceOf second ↔ first = second := by
  unfold noteSourceOf
  exact String.append_right_inj _

theorem isStale_of_sourceChat {source : String} {markers : List String}
    (isOther : sourceChat task ≠ some source) : isStale source markers task = false :=
  isStale_eq_false_iff.2 fun isSource => absurd isSource isOther

/-- A task with a stamp that is made for a plan is of the note of the plan. -/
theorem sourceChat_of_stampFor {source : String}
    (isStamp : stampOf task = stampFor source plan) : sourceChat task = some source := by
  rw [sourceChat, show task.source = (stampFor source plan).2 from congrArg Prod.snd isStamp]
  rfl

/-- The second note neither takes away nor makes tasks of the first one. -/
theorem live_after_iff (isOther : first ≠ second) :
    (∀ task ∈ (applyNoteTasks state second secondPlans).1.tasks,
        isStale (noteSourceOf first) (firstPlans.map NoteTaskPlan.marker) task = false) ↔
      ∀ task ∈ state.tasks,
        isStale (noteSourceOf first) (firstPlans.map NoteTaskPlan.marker) task = false := by
  have notFirst : noteSourceOf second ≠ noteSourceOf first := fun same =>
    isOther (noteSourceOf_inj.1 same).symm
  constructor
  · intro live task member
    by_cases isFirst : sourceChat task = some (noteSourceOf first)
    · have isKept : task ∈ keptTasks second secondPlans state.tasks := by
        refine mem_keptTasks.2 ⟨member, isStale_of_sourceChat ?_⟩
        rw [isFirst]
        exact fun same => notFirst (Option.some.inj same).symm
      obtain ⟨written, isWritten, same⟩ := List.mem_map.1
        (mem_stamps_applyNoteTasks.2 (.inl (List.mem_map_of_mem isKept)))
      rw [← isStale_congr (congrArg Prod.snd same)]
      exact live written isWritten
    · exact isStale_of_sourceChat isFirst
  · intro live task member
    rcases mem_stamps_applyNoteTasks.1 (List.mem_map_of_mem member) with
      isOld | ⟨plan, -, -, isNew⟩
    · obtain ⟨old, isKept, same⟩ := List.mem_map.1 isOld
      rw [← isStale_congr (congrArg Prod.snd same)]
      exact live old (mem_keptTasks.1 isKept).1
    · refine isStale_of_sourceChat ?_
      rw [sourceChat_of_stampFor isNew]
      exact fun same => notFirst (Option.some.inj same)

theorem findIn_eq_none_iff : findIn tasks id = none ↔ ∀ task ∈ tasks, task.id ≠ id := by
  unfold findIn
  rw [List.find?_eq_none]
  exact forall₂_congr fun _ _ => not_congr beq_iff_eq

/-- An id is new to the second note when it was so beforehand and the first note has made no task
with it. -/
theorem findIn_after_eq_none_iff (isOther : first ≠ second) {marker : String} :
    findIn (keptTasks second secondPlans (applyNoteTasks state first firstPlans).1.tasks)
        (noteTaskId marker) = none ↔
      findIn (keptTasks second secondPlans (keptTasks first firstPlans state.tasks))
          (noteTaskId marker) = none ∧
        (marker ∈ firstPlans.map NoteTaskPlan.marker ->
          findIn (keptTasks first firstPlans state.tasks) (noteTaskId marker) ≠ none) := by
  have notSecond {other : Task} (isFirst : sourceChat other = some (noteSourceOf first)) :
      isStale (noteSourceOf second) (secondPlans.map NoteTaskPlan.marker) other = false := by
    refine isStale_of_sourceChat ?_
    rw [isFirst]
    exact fun same => isOther (noteSourceOf_inj.1 (Option.some.inj same))
  constructor
  · intro notFound
    have noTask := findIn_eq_none_iff.1 notFound
    constructor
    · refine findIn_eq_none_iff.2 fun task isKept => ?_
      obtain ⟨isTask, isLive⟩ := mem_keptTasks.1 isKept
      obtain ⟨written, isWritten, same⟩ := List.mem_map.1
        (mem_stamps_applyNoteTasks.2 (.inl (List.mem_map_of_mem isTask)))
      have stillLive := (isStale_congr (congrArg Prod.snd same) _ _).trans isLive
      rw [← show written.id = task.id from congrArg Prod.fst same]
      exact noTask written (mem_keptTasks.2 ⟨isWritten, stillLive⟩)
    · intro isMarker isNew
      obtain ⟨plan, member, rfl⟩ := List.mem_map.1 isMarker
      obtain ⟨written, isWritten, isStamp⟩ := List.mem_map.1
        (mem_stamps_applyNoteTasks.2 (.inr ⟨plan, member, isNew, rfl⟩))
      exact noTask written
        (mem_keptTasks.2 ⟨isWritten, notSecond (sourceChat_of_stampFor isStamp)⟩)
        (congrArg Prod.fst isStamp)
  · rintro ⟨notFound, some_found⟩
    refine findIn_eq_none_iff.2 fun task isKept sameId => ?_
    obtain ⟨isTask, isLive⟩ := mem_keptTasks.1 isKept
    rcases mem_stamps_applyNoteTasks.1 (List.mem_map_of_mem isTask) with
      isOld | ⟨plan, member, isNew, isStamp⟩
    · obtain ⟨old, isOldKept, same⟩ := List.mem_map.1 isOld
      have wasLive := (isStale_congr (congrArg Prod.snd same) _ _).trans isLive
      refine findIn_eq_none_iff.1 notFound old (mem_keptTasks.2 ⟨isOldKept, wasLive⟩) ?_
      exact (congrArg Prod.fst same).trans sameId
    · have sameMarker : plan.marker = marker :=
        noteTaskId_inj.1 ((congrArg Prod.fst isStamp).symm.trans sameId)
      rw [sameMarker] at isNew
      exact some_found (sameMarker ▸ List.mem_map_of_mem member) isNew

/-- What is found and kept is still found. -/
theorem findIn_keptTasks
    (found : findIn tasks id = some task)
    (live : isStale (noteSourceOf second) (secondPlans.map NoteTaskPlan.marker) task = false) :
    findIn (keptTasks second secondPlans tasks) id = some task := by
  unfold findIn keptTasks at *
  obtain ⟨isId, before, behind, rfl, notBefore⟩ := List.find?_eq_some_iff_append.1 found
  rw [List.find?_filter]
  refine List.find?_eq_some_iff_append.2 ⟨?_, before, behind, rfl, fun other member => ?_⟩
  · rw [live, isId]
    rfl
  · have notId := notBefore other member
    rw [Bool.not_eq_true'] at notId
    rw [notId]
    simp

theorem findIn_after_of_stale
    (found : findIn (keptTasks first firstPlans state.tasks) id = some task)
    (stale : isStale (noteSourceOf second) (secondPlans.map NoteTaskPlan.marker) task = true) :
    findIn (keptTasks second secondPlans (applyNoteTasks state first firstPlans).1.tasks) id =
      findIn (keptTasks second secondPlans (keptTasks first firstPlans state.tasks)) id := by
  obtain ⟨created, isWritten, isNew⟩ :=
    exists_created (noteSourceOf first) firstPlans (unwritten state first firstPlans)
  have keeps (other : Task) :
      (!isStale (noteSourceOf second) (secondPlans.map NoteTaskPlan.marker)
        (putPlans firstPlans other)) =
      !isStale (noteSourceOf second) (secondPlans.map NoteTaskPlan.marker) other := by
    rw [isStale_congr (source_putPlans firstPlans other)]
  have dropped (other : Task)
      (isFirst : lookup Task.id id (keptTasks first firstPlans state.tasks) = some other) :
      (!isStale (noteSourceOf second) (secondPlans.map NoteTaskPlan.marker) other) = false := by
    rw [findIn_eq_lookup, isFirst] at found
    cases found
    rw [stale, Bool.not_true]
  have behind := @lookup_filter_mapFirsts _ _ _ Task.id (putPlans firstPlans) []
    (keptTasks first firstPlans state.tasks) id
    (fun other => !isStale (noteSourceOf second) (secondPlans.map NoteTaskPlan.marker) other)
    (id_putPlans firstPlans) keeps (.inr dropped)
  have noneCreated : findIn (keptTasks second secondPlans created) id = none := by
    refine findIn_eq_none_iff.2 fun other isKept sameId => ?_
    have notFound := (isNew other (mem_keptTasks.1 isKept).1).2
    rw [sameId] at notFound
    have isSome : findIn (unwritten state first firstPlans).tasks id = some task := found
    rw [isSome] at notFound
    cases notFound
  rw [tasks_applyNoteTasks, isWritten]
  unfold keptTasks findIn at noneCreated ⊢
  rw [List.filter_append, List.find?_append, noneCreated, Option.or_none]
  exact behind

theorem needsPlan_congr {others : List Task}
    (same : findIn tasks (noteTaskId plan.marker) = findIn others (noteTaskId plan.marker)) :
    needsPlan tasks plan = needsPlan others plan := by
  unfold needsPlan
  rw [same]

/-- A plan of the first note is still written behind the second one, unless the second one takes
the first task of its id away. -/
theorem needsPlan_kept
    (isOther : first ≠ second) (alikeFirst : Alike firstPlans) (member : plan ∈ firstPlans)
    (notStale : ∀ task,
      findIn (keptTasks first firstPlans state.tasks) (noteTaskId plan.marker) = some task ->
        isStale (noteSourceOf second) (secondPlans.map NoteTaskPlan.marker) task = false) :
    needsPlan (keptTasks second secondPlans (applyNoteTasks state first firstPlans).1.tasks) plan =
      false := by
  have settled : needsPlan (applyNoteTasks state first firstPlans).1.tasks plan = false :=
    needsPlan_foldl alikeFirst member
  obtain ⟨task, found, follows⟩ := needsPlan_eq_false_iff.1 settled
  refine needsPlan_eq_false_iff.2 ⟨task, findIn_keptTasks found ?_, follows⟩
  obtain ⟨created, isWritten, isNew⟩ :=
    exists_created (noteSourceOf first) firstPlans (unwritten state first firstPlans)
  rw [tasks_applyNoteTasks, isWritten, findIn, List.find?_append, Option.or_eq_some_iff] at found
  rcases found with isOld | ⟨-, isCreated⟩
  · have changed := @lookup_mapFirsts _ _ _ Task.id (putPlans firstPlans) []
      (keptTasks first firstPlans state.tasks) (noteTaskId plan.marker) (id_putPlans firstPlans)
    obtain ⟨old, isFirst, isChanged⟩ := Option.map_eq_some_iff.1 (changed.symm.trans isOld)
    rw [if_neg List.not_mem_nil] at isChanged
    rw [← isChanged, isStale_congr (source_putPlans firstPlans old)]
    exact notStale old isFirst
  · refine isStale_of_sourceChat ?_
    rw [(isNew task (List.mem_of_find?_eq_some isCreated)).1]
    exact fun same => isOther (noteSourceOf_inj.1 (Option.some.inj same))

/-- After the second note, a plan of the first is written exactly when the second has no other one
with its marker and, when it has none, does not take the task away. -/
theorem needsPlan_after_iff
    (isOther : first ≠ second) (alikeFirst : Alike firstPlans) (alikeSecond : Alike secondPlans)
    (member : plan ∈ firstPlans) :
    needsPlan (applyNoteTasks (applyNoteTasks state first firstPlans).1 second secondPlans).1.tasks
        plan = false ↔
      (∀ other ∈ secondPlans, plan.marker = other.marker -> plan = other) ∧
        (plan.marker ∉ secondPlans.map NoteTaskPlan.marker -> ∀ task,
          findIn (keptTasks first firstPlans state.tasks) (noteTaskId plan.marker) = some task ->
            isStale (noteSourceOf second) (secondPlans.map NoteTaskPlan.marker) task = true ->
              needsPlan (keptTasks second secondPlans
                (keptTasks first firstPlans state.tasks)) plan = false) := by
  by_cases shared : plan.marker ∈ secondPlans.map NoteTaskPlan.marker
  · obtain ⟨other, isSecond, sameMarker⟩ := List.mem_map.1 shared
    have settled : needsPlan (applyNoteTasks (applyNoteTasks state first firstPlans).1 second
        secondPlans).1.tasks other = false :=
      needsPlan_foldl alikeSecond isSecond
    constructor
    · intro planSettled
      exact ⟨fun third isThird same =>
          eq_of_settled planSettled (needsPlan_foldl alikeSecond isThird) same,
        fun notShared => absurd shared notShared⟩
    · rintro ⟨same, -⟩
      rw [same other isSecond sameMarker.symm]
      exact settled
  · have notShared : ∀ other ∈ secondPlans, noteTaskId plan.marker ≠ noteTaskId other.marker :=
      fun other isSecond same =>
        shared (List.mem_map.2 ⟨other, isSecond, (noteTaskId_inj.1 same).symm⟩)
    have unwrittenSecond :
        needsPlan (applyNoteTasks (applyNoteTasks state first firstPlans).1 second
          secondPlans).1.tasks plan =
        needsPlan (keptTasks second secondPlans (applyNoteTasks state first firstPlans).1.tasks)
          plan :=
      needsPlan_congr (findIn_foldl_ne notShared)
    rw [unwrittenSecond]
    by_cases taken : ∃ task,
        findIn (keptTasks first firstPlans state.tasks) (noteTaskId plan.marker) = some task ∧
          isStale (noteSourceOf second) (secondPlans.map NoteTaskPlan.marker) task = true
    · obtain ⟨task, found, stale⟩ := taken
      rw [needsPlan_congr (findIn_after_of_stale found stale)]
      constructor
      · intro settled
        exact ⟨fun other isSecond same =>
            absurd (congrArg noteTaskId same) (notShared other isSecond),
          fun _ _ _ _ => settled⟩
      · rintro ⟨-, stays⟩
        exact stays shared task found stale
    · have notStale (task : Task)
          (found : findIn (keptTasks first firstPlans state.tasks) (noteTaskId plan.marker) =
            some task) :
          isStale (noteSourceOf second) (secondPlans.map NoteTaskPlan.marker) task = false :=
        Bool.not_eq_true _ ▸ fun stale => taken ⟨task, found, stale⟩
      refine iff_of_true (needsPlan_kept isOther alikeFirst member notStale) ⟨?_, ?_⟩
      · exact fun other isSecond same =>
          absurd (congrArg noteTaskId same) (notShared other isSecond)
      · intro _ task found stale
        exact absurd ⟨task, found, stale⟩ taken

theorem quietTogether_iff (isOther : first ≠ second) :
    QuietTogether state first firstPlans second secondPlans ↔
      Settles state first firstPlans second secondPlans := by
  unfold QuietTogether
  dsimp only
  rw [hasNoteTaskChanges_eq_false_iff, hasNoteTaskChanges_eq_false_iff]
  constructor
  · rintro ⟨quietFirst, quietSecond⟩
    have alikeFirst := alike_of_settled quietFirst.settled
    obtain ⟨alikeSecond, returns⟩ := quiet_applyNoteTasks_iff.1 quietSecond
    have after (plan : NoteTaskPlan) (member : plan ∈ firstPlans) :=
      (needsPlan_after_iff isOther alikeFirst alikeSecond member).1 (quietFirst.settled plan member)
    constructor
    case alike =>
      intro plan isPlan other isOtherPlan same
      rcases List.mem_append.1 isPlan with inFirst | inSecond
      · rcases List.mem_append.1 isOtherPlan with otherFirst | otherSecond
        · exact alikeFirst plan inFirst other otherFirst same
        · exact (after plan inFirst).1 other otherSecond same
      · rcases List.mem_append.1 isOtherPlan with otherFirst | otherSecond
        · exact ((after other otherFirst).1 plan inSecond same.symm).symm
        · exact alikeSecond plan inSecond other otherSecond same
    case reads => exact live_applyNoteTasks_iff.1 ((live_after_iff isOther).1 quietFirst.live)
    case readsAfter =>
      intro plan member notFound some_found
      exact returns plan member ((findIn_after_eq_none_iff isOther).2 ⟨notFound, some_found⟩)
    case stays => exact fun plan member => (after plan member).2
  · intro settles
    have alikeFirst : Alike firstPlans := fun plan isPlan other isOtherPlan =>
      settles.alike plan (List.mem_append_left _ isPlan) other
        (List.mem_append_left _ isOtherPlan)
    have alikeSecond : Alike secondPlans := fun plan isPlan other isOtherPlan =>
      settles.alike plan (List.mem_append_right _ isPlan) other
        (List.mem_append_right _ isOtherPlan)
    constructor
    · constructor
      case live => exact (live_after_iff isOther).2 (live_applyNoteTasks_iff.2 settles.reads)
      case settled =>
        intro plan member
        refine (needsPlan_after_iff isOther alikeFirst alikeSecond member).2
          ⟨fun other isSecond => ?_, settles.stays plan member⟩
        exact settles.alike plan (List.mem_append_left _ member) other
          (List.mem_append_right _ isSecond)
    · refine quiet_applyNoteTasks_iff.2 ⟨alikeSecond, fun plan member notFound => ?_⟩
      obtain ⟨wasNotFound, some_found⟩ := (findIn_after_eq_none_iff isOther).1 notFound
      exact settles.readsAfter plan member wasNotFound some_found

/-- Exactly when tasks of other notes with ids of its plans are as the plans say, a note leaves
the tasks of others; and exactly when the notes need nothing of each other, both have nothing to
change, whichever is applied first. -/
theorem applyNoteTasks_apart
    (isOther : first ≠ second)
    (state : State)
    (firstPlans secondPlans : List NoteTaskPlan) :
    (otherTasks first (applyNoteTasks state first firstPlans).1.tasks =
        otherTasks first state.tasks ↔ LeavesOthers state first firstPlans) ∧
      (QuietTogether state first firstPlans second secondPlans ∧
          QuietTogether state second secondPlans first firstPlans ↔
        Settles state first firstPlans second secondPlans ∧
          Settles state second secondPlans first firstPlans) :=
  ⟨otherTasks_applyNoteTasks_iff,
    and_congr (quietTogether_iff isOther) (quietTogether_iff (Ne.symm isOther))⟩

end

theorem applyNoteTasks_apart_twoLines :
    (otherTasks "a" (applyNoteTasks (stateWithLine "b" (lineWith "t0b2c" "write" true)) "a"
          [lineWith "t7f3a" "call" false]).1.tasks =
        otherTasks "a" (stateWithLine "b" (lineWith "t0b2c" "write" true)).tasks ↔
      LeavesOthers (stateWithLine "b" (lineWith "t0b2c" "write" true)) "a"
        [lineWith "t7f3a" "call" false]) ∧
      (QuietTogether (stateWithLine "b" (lineWith "t0b2c" "write" true)) "a"
            [lineWith "t7f3a" "call" false] "b" [lineWith "t0b2c" "write" false] ∧
          QuietTogether (stateWithLine "b" (lineWith "t0b2c" "write" true)) "b"
            [lineWith "t0b2c" "write" false] "a" [lineWith "t7f3a" "call" false] ↔
        Settles (stateWithLine "b" (lineWith "t0b2c" "write" true)) "a"
            [lineWith "t7f3a" "call" false] "b" [lineWith "t0b2c" "write" false] ∧
          Settles (stateWithLine "b" (lineWith "t0b2c" "write" true)) "b"
            [lineWith "t0b2c" "write" false] "a" [lineWith "t7f3a" "call" false]) :=
  applyNoteTasks_apart (by decide) (stateWithLine "b" (lineWith "t0b2c" "write" true))
    [lineWith "t7f3a" "call" false] [lineWith "t0b2c" "write" false]

/-- The line of a note was copied to another note and changed there: the other note writes the
task of the first one, and the notes go on rewriting it. -/
theorem copiedLine_rewrites :
    (otherTasks "b" (applyNoteTasks (stateWithLine "a" (lineWith "t7f3a" "call" false)) "b"
        [lineWith "t7f3a" "write" false]).1.tasks).map Task.name = ["write"] ∧
      (otherTasks "b" (stateWithLine "a" (lineWith "t7f3a" "call" false)).tasks).map Task.name =
        ["call"] ∧
      ¬QuietTogether (stateWithLine "a" (lineWith "t7f3a" "call" false)) "a"
        [lineWith "t7f3a" "call" false] "b" [lineWith "t7f3a" "write" false] ∧
      ¬QuietTogether (stateWithLine "a" (lineWith "t7f3a" "call" false)) "b"
        [lineWith "t7f3a" "write" false] "a" [lineWith "t7f3a" "call" false] := by
  unfold QuietTogether
  decide +kernel

end Parvane.Agenda
