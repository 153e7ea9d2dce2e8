import Mathlib.Data.List.Perm.Basic
import Parvane.Foundation.Occurring
import Parvane.Planner.Restart

/-!
# The stamps of operations and snapshots

Wherever a stamp stands in an operation, it is among those that are checked: it is one of the
device that signed the operation, and it does not jump ahead of what was seen before.
-/

namespace Parvane.Planner

open Wire Domain Occurring

/-! ## Where stamps stand in messages -/

/-- All stamps in a value, wherever they stand. -/
abbrev stampsIn [Holds LwwStamp α] (value : α) : List LwwStamp :=
  held LwwStamp value

instance : Holds LwwStamp String where
  held _ := []

instance : Holds LwwStamp UInt32 where
  held _ := []

instance : Holds LwwStamp Int32 where
  held _ := []

instance : Holds LwwStamp Bool where
  held _ := []

instance : Holds LwwStamp Double where
  held _ := []

instance : Holds LwwStamp Str where
  held := fun ⟨stamp, value⟩ => stampsIn stamp ++ stampsIn value

instance : Holds LwwStamp U32 where
  held := fun ⟨stamp, value, unset⟩ => stampsIn stamp ++ stampsIn value ++ stampsIn unset

instance : Holds LwwStamp I32 where
  held := fun ⟨stamp, value⟩ => stampsIn stamp ++ stampsIn value

instance : Holds LwwStamp Flag where
  held := fun ⟨stamp, value⟩ => stampsIn stamp ++ stampsIn value

instance : Holds LwwStamp Step where
  held := fun ⟨text, isDone⟩ => stampsIn text ++ stampsIn isDone

instance : Holds LwwStamp Steps where
  held := fun ⟨stamp, items⟩ => stampsIn stamp ++ stampsIn items

instance : Holds LwwStamp Weekdays where
  held := fun ⟨stamp, days⟩ => stampsIn stamp ++ stampsIn days

instance : Holds LwwStamp Repeat where
  held := fun ⟨stamp, kind, interval, weekdays, monthDay, startDay, endDay, count⟩ =>
    stampsIn stamp ++ stampsIn kind ++ stampsIn interval ++ stampsIn weekdays ++
      stampsIn monthDay ++ stampsIn startDay ++ stampsIn endDay ++ stampsIn count

instance : Holds LwwStamp Occurrence where
  held := fun ⟨day, stamp, excluded, done, doneSteps⟩ =>
    stampsIn day ++ stampsIn stamp ++ stampsIn excluded ++ stampsIn done ++ stampsIn doneSteps

instance : Holds LwwStamp Origin where
  held := fun ⟨stamp, seriesId, day⟩ => stampsIn stamp ++ stampsIn seriesId ++ stampsIn day

instance : Holds LwwStamp Source where
  held := fun ⟨stamp, chat, opId⟩ => stampsIn stamp ++ stampsIn chat ++ stampsIn opId

instance : Holds LwwStamp Task where
  held := fun ⟨id, name, description, steps, status, listId, rank, day, start, due, minutes,
      deleted, repeatRule, occurrences, origin, source, remind⟩ =>
    stampsIn id ++ stampsIn name ++ stampsIn description ++ stampsIn steps ++ stampsIn status ++
      stampsIn listId ++ stampsIn rank ++ stampsIn day ++ stampsIn start ++ stampsIn due ++
      stampsIn minutes ++ stampsIn deleted ++ stampsIn repeatRule ++ stampsIn occurrences ++
      stampsIn origin ++ stampsIn source ++ stampsIn remind

instance : Holds LwwStamp Event where
  held := fun ⟨id, name, start, «end», weekdays, day, deleted, repeatRule, occurrences, origin,
      allDay, isHoliday, color, description, remind, listId⟩ =>
    stampsIn id ++ stampsIn name ++ stampsIn start ++ stampsIn «end» ++ stampsIn weekdays ++
      stampsIn day ++ stampsIn deleted ++ stampsIn repeatRule ++ stampsIn occurrences ++
      stampsIn origin ++ stampsIn allDay ++ stampsIn isHoliday ++ stampsIn color ++
      stampsIn description ++ stampsIn remind ++ stampsIn listId

instance : Holds LwwStamp TaskList where
  held := fun ⟨id, name, order, deleted, color⟩ =>
    stampsIn id ++ stampsIn name ++ stampsIn order ++ stampsIn deleted ++ stampsIn color

instance : Holds LwwStamp LearnedWord where
  held := fun ⟨id, kind, kindCount, minutes, minutesCount, touched, deleted⟩ =>
    stampsIn id ++ stampsIn kind ++ stampsIn kindCount ++ stampsIn minutes ++
      stampsIn minutesCount ++ stampsIn touched ++ stampsIn deleted

instance : Holds LwwStamp Reminded where
  held := fun ⟨id, stamp, deleted⟩ => stampsIn id ++ stampsIn stamp ++ stampsIn deleted

instance : Holds LwwStamp Settings where
  held := fun ⟨stamp, dayStart, dayEnd, lunchStart, lunchEnd, margin, budget⟩ =>
    stampsIn stamp ++ stampsIn dayStart ++ stampsIn dayEnd ++ stampsIn lunchStart ++
      stampsIn lunchEnd ++ stampsIn margin ++ stampsIn budget

instance : Holds LwwStamp Goal where
  held := fun ⟨target, tolerance, set⟩ => stampsIn target ++ stampsIn tolerance ++ stampsIn set

instance : Holds LwwStamp GoalSet where
  held := fun ⟨stamp, kcal, protein, fat, carbs, fiber, water⟩ =>
    stampsIn stamp ++ stampsIn kcal ++ stampsIn protein ++ stampsIn fat ++ stampsIn carbs ++
      stampsIn fiber ++ stampsIn water

instance : Holds LwwStamp GoalPeriod where
  held := fun ⟨id, stamp, startDay, endDay, kcal, protein, fat, carbs, fiber, water, deleted⟩ =>
    stampsIn id ++ stampsIn stamp ++ stampsIn startDay ++ stampsIn endDay ++ stampsIn kcal ++
      stampsIn protein ++ stampsIn fat ++ stampsIn carbs ++ stampsIn fiber ++ stampsIn water ++
      stampsIn deleted

instance : Holds LwwStamp FoodEntry where
  held := fun ⟨id, stamp, name, meal, kcal, protein, fat, carbs, fiber, grams, known, per100,
      deleted, sugar, salt, time⟩ =>
    stampsIn id ++ stampsIn stamp ++ stampsIn name ++ stampsIn meal ++ stampsIn kcal ++
      stampsIn protein ++ stampsIn fat ++ stampsIn carbs ++ stampsIn fiber ++ stampsIn grams ++
      stampsIn known ++ stampsIn per100 ++ stampsIn deleted ++ stampsIn sugar ++ stampsIn salt ++
      stampsIn time

instance : Holds LwwStamp HealthRecord where
  held := fun ⟨id, stamp, day, kind, time, endTime, value, value2, name, details, deleted⟩ =>
    stampsIn id ++ stampsIn stamp ++ stampsIn day ++ stampsIn kind ++ stampsIn time ++
      stampsIn endTime ++ stampsIn value ++ stampsIn value2 ++ stampsIn name ++
      stampsIn details ++ stampsIn deleted

instance : Holds LwwStamp QuickLine where
  held := fun ⟨id, stamp, text, count, touched, hidden, deleted⟩ =>
    stampsIn id ++ stampsIn stamp ++ stampsIn text ++ stampsIn count ++ stampsIn touched ++
      stampsIn hidden ++ stampsIn deleted

instance : Holds LwwStamp NutritionDay where
  held := fun ⟨day, entries, isComplete, fixedGoals, waterMl⟩ =>
    stampsIn day ++ stampsIn entries ++ stampsIn isComplete ++ stampsIn fixedGoals ++
      stampsIn waterMl

instance : Holds LwwStamp Migration where
  held := fun ⟨sourceDevice, count⟩ => stampsIn sourceDevice ++ stampsIn count

instance : Holds LwwStamp ChangeKind where
  held
    | .task task => stampsIn task
    | .event event => stampsIn event
    | .list list => stampsIn list
    | .nutritionDay day => stampsIn day
    | .settings settings => stampsIn settings
    | .goals goals => stampsIn goals
    | .migration migration => stampsIn migration
    | .goalPeriod period => stampsIn period
    | .health record => stampsIn record
    | .learned word => stampsIn word
    | .quickLine line => stampsIn line
    | .reminded mark => stampsIn mark

instance : Holds LwwStamp Change where
  held := fun ⟨change⟩ => stampsIn change

instance : Holds LwwStamp PlannerOp where
  held := fun ⟨changes⟩ => stampsIn changes

instance : Holds LwwStamp PlannerSnapshot where
  held := fun ⟨tasks, events, lists, nutrition, settings, goals, goalPeriods, health, learned,
      quickLines, reminded⟩ =>
    stampsIn tasks ++ stampsIn events ++ stampsIn lists ++ stampsIn nutrition ++
      stampsIn settings ++ stampsIn goals ++ stampsIn goalPeriods ++ stampsIn health ++
      stampsIn learned ++ stampsIn quickLines ++ stampsIn reminded

/-! ## Messages with one stamp -/

/-- The only stamp in a message is its own. -/
class OneStamp (α : Type) [Stamped α] [Holds LwwStamp α] : Prop where
  stampsIn_eq (value : α) : stampsIn value = (Stamped.stamp value).toList

@[simp] theorem stampsIn_string (text : String) : stampsIn text = [] := rfl

@[simp] theorem stampsIn_option (stamp : Option LwwStamp) : stampsIn stamp = stamp.toList := by
  cases stamp <;> rfl

@[simp] theorem stampsIn_numbers (numbers : List UInt32) : stampsIn numbers = [] := by
  apply List.flatMap_eq_nil_iff.2
  intro number _
  rfl

@[simp] theorem stampsIn_steps (steps : List Step) : stampsIn steps = [] := by
  apply List.flatMap_eq_nil_iff.2
  intro step _
  rfl

@[simp] theorem stampsIn_goal (goal : Option Goal) : stampsIn goal = [] := by
  cases goal <;> rfl

instance : OneStamp Str where
  stampsIn_eq value := by
    change stampsIn value.stamp ++ [] = value.stamp.toList
    simp

instance : OneStamp U32 where
  stampsIn_eq number := by
    change stampsIn number.stamp ++ [] ++ [] = number.stamp.toList
    simp

instance : OneStamp I32 where
  stampsIn_eq number := by
    change stampsIn number.stamp ++ [] = number.stamp.toList
    simp

instance : OneStamp Flag where
  stampsIn_eq truth := by
    change stampsIn truth.stamp ++ [] = truth.stamp.toList
    simp

instance : OneStamp Steps where
  stampsIn_eq steps := by
    change stampsIn steps.stamp ++ stampsIn steps.items = steps.stamp.toList
    simp

instance : OneStamp Weekdays where
  stampsIn_eq weekdays := by
    change stampsIn weekdays.stamp ++ stampsIn weekdays.days = weekdays.stamp.toList
    simp

instance : OneStamp Repeat where
  stampsIn_eq rule := by
    change stampsIn rule.stamp ++ [] ++ [] ++ stampsIn rule.weekdays ++ [] ++ [] ++ [] ++ [] =
      rule.stamp.toList
    simp

instance : OneStamp Occurrence where
  stampsIn_eq occurrence := by
    change [] ++ stampsIn occurrence.stamp ++ [] ++ [] ++ stampsIn occurrence.doneSteps =
      occurrence.stamp.toList
    simp

instance : OneStamp Origin where
  stampsIn_eq origin := by
    change stampsIn origin.stamp ++ [] ++ [] = origin.stamp.toList
    simp

instance : OneStamp Source where
  stampsIn_eq source := by
    change stampsIn source.stamp ++ [] ++ [] = source.stamp.toList
    simp

instance : OneStamp Settings where
  stampsIn_eq settings := by
    change stampsIn settings.stamp ++ [] ++ [] ++ [] ++ [] ++ [] ++ [] = settings.stamp.toList
    simp

instance : OneStamp GoalSet where
  stampsIn_eq goals := by
    change stampsIn goals.stamp ++ stampsIn goals.kcal ++ stampsIn goals.protein ++
      stampsIn goals.fat ++ stampsIn goals.carbs ++ stampsIn goals.fiber ++
      stampsIn goals.water = goals.stamp.toList
    simp

section

variable [Stamped α] [Holds LwwStamp α] [OneStamp α]

theorem stampsIn_field (field : Option α) : stampsIn field = regStamp field := by
  cases field with
  | none => rfl
  | some value => exact (held_some value).trans (OneStamp.stampsIn_eq value)

theorem stampsIn_list (values : List α) : stampsIn values = values.filterMap Stamped.stamp := by
  induction values with
  | nil => rfl
  | cons value values inductionHypothesis =>
      change stampsIn value ++ stampsIn values = _
      rw [List.filterMap_cons, inductionHypothesis, OneStamp.stampsIn_eq]
      cases Stamped.stamp value <;> rfl

end

theorem stampsIn_occurrences (occurrences : List Occurrence) :
    stampsIn occurrences = occurrences.filterMap Occurrence.stamp :=
  stampsIn_list occurrences

/-! ## Messages with a stamp and a tombstone -/

/-- The stamps of a record are its own and its tombstone. -/
theorem stampsIn_goalPeriod (period : GoalPeriod) :
    stampsIn period = period.stamp.toList ++ period.deleted.toList := by
  change [] ++ stampsIn period.stamp ++ [] ++ [] ++ stampsIn period.kcal ++
    stampsIn period.protein ++ stampsIn period.fat ++ stampsIn period.carbs ++
    stampsIn period.fiber ++ stampsIn period.water ++ stampsIn period.deleted = _
  simp

theorem stampsIn_entry (entry : FoodEntry) :
    stampsIn entry = entry.stamp.toList ++ entry.deleted.toList := by
  change [] ++ stampsIn entry.stamp ++ [] ++ [] ++ [] ++ [] ++ [] ++ [] ++ [] ++ [] ++ [] ++
    [] ++ stampsIn entry.deleted ++ [] ++ [] ++ [] = _
  simp

theorem stampsIn_health (record : HealthRecord) :
    stampsIn record = record.stamp.toList ++ record.deleted.toList := by
  change [] ++ stampsIn record.stamp ++ [] ++ [] ++ [] ++ [] ++ [] ++ [] ++ [] ++ [] ++
    stampsIn record.deleted = _
  simp

theorem stampsIn_quickLine (line : QuickLine) :
    stampsIn line = line.stamp.toList ++ line.deleted.toList := by
  change [] ++ stampsIn line.stamp ++ [] ++ [] ++ [] ++ [] ++ stampsIn line.deleted = _
  simp

theorem stampsIn_reminded (mark : Reminded) :
    stampsIn mark = mark.stamp.toList ++ mark.deleted.toList := by
  change [] ++ stampsIn mark.stamp ++ stampsIn mark.deleted = _
  simp

theorem stampsIn_entries (entries : List FoodEntry) :
    stampsIn entries = entries.flatMap fun e => e.stamp.toList ++ e.deleted.toList :=
  List.flatMap_congr fun entry _ => stampsIn_entry entry

/-! ## The stamps of a change -/

theorem stampsIn_change (kind : ChangeKind) : stampsIn (⟨some kind⟩ : Change) = stampsIn kind :=
  held_some kind

theorem stampsIn_task (task : Task) :
    stampsIn task =
      stampsIn task.id ++ stampsIn task.name ++ stampsIn task.description ++
        stampsIn task.steps ++ stampsIn task.status ++ stampsIn task.listId ++
        stampsIn task.rank ++ stampsIn task.day ++ stampsIn task.start ++ stampsIn task.due ++
        stampsIn task.minutes ++ stampsIn task.deleted ++ stampsIn task.repeatRule ++
        stampsIn task.occurrences ++ stampsIn task.origin ++ stampsIn task.source ++
        stampsIn task.remind := by
  cases task
  rfl

theorem stampsIn_event (event : Event) :
    stampsIn event =
      stampsIn event.id ++ stampsIn event.name ++ stampsIn event.start ++ stampsIn event.end ++
        stampsIn event.weekdays ++ stampsIn event.day ++ stampsIn event.deleted ++
        stampsIn event.repeatRule ++ stampsIn event.occurrences ++ stampsIn event.origin ++
        stampsIn event.allDay ++ stampsIn event.isHoliday ++ stampsIn event.color ++
        stampsIn event.description ++ stampsIn event.remind ++ stampsIn event.listId := by
  cases event
  rfl

theorem stampsIn_taskList (list : TaskList) :
    stampsIn list =
      stampsIn list.id ++ stampsIn list.name ++ stampsIn list.order ++ stampsIn list.deleted ++
        stampsIn list.color := by
  cases list
  rfl

theorem stampsIn_word (word : LearnedWord) :
    stampsIn word =
      stampsIn word.id ++ stampsIn word.kind ++ stampsIn word.kindCount ++
        stampsIn word.minutes ++ stampsIn word.minutesCount ++ stampsIn word.touched ++
        stampsIn word.deleted := by
  cases word
  rfl

theorem stampsIn_day (day : NutritionDay) :
    stampsIn day =
      stampsIn day.day ++ stampsIn day.entries ++ stampsIn day.isComplete ++
        stampsIn day.fixedGoals ++ stampsIn day.waterMl := by
  cases day
  rfl

/-- The stamps that are collected from a change are those that stand in it. -/
theorem changeStamps_perm (change : Change) : (changeStamps change).Perm (stampsIn change) := by
  obtain ⟨kind⟩ := change
  rcases kind with _ | kind
  · rfl
  rw [stampsIn_change]
  -- The two lists differ in their order only, so each stamp is counted in both.
  apply List.perm_iff_count.2
  intro stamp
  cases kind with
  | task task =>
      change _ = List.count stamp (stampsIn task)
      rw [stampsIn_task, changeStamps]
      simp only [stampsIn_string, stampsIn_field, stampsIn_occurrences, stampsIn_option,
        List.flatMap_cons, List.flatMap_nil, List.count_append, List.count_nil]
      omega
  | event event =>
      change _ = List.count stamp (stampsIn event)
      rw [stampsIn_event, changeStamps]
      simp only [stampsIn_string, stampsIn_field, stampsIn_occurrences, stampsIn_option,
        List.flatMap_cons, List.flatMap_nil, List.count_append, List.count_nil]
      omega
  | list list =>
      change _ = List.count stamp (stampsIn list)
      rw [stampsIn_taskList, changeStamps]
      simp only [stampsIn_string, stampsIn_field, stampsIn_option, List.count_append,
        List.count_nil]
      omega
  | nutritionDay day =>
      change _ = List.count stamp (stampsIn day)
      rw [stampsIn_day, changeStamps, stampsIn_entries]
      simp only [stampsIn_string, stampsIn_field, List.count_append, List.count_nil]
      omega
  | settings settings =>
      exact (congrArg (List.count stamp) (OneStamp.stampsIn_eq settings)).symm
  | goals goals => exact (congrArg (List.count stamp) (OneStamp.stampsIn_eq goals)).symm
  | migration migration => rfl
  | goalPeriod period => exact (congrArg (List.count stamp) (stampsIn_goalPeriod period)).symm
  | health record => exact (congrArg (List.count stamp) (stampsIn_health record)).symm
  | learned word =>
      change _ = List.count stamp (stampsIn word)
      rw [stampsIn_word, changeStamps]
      simp only [stampsIn_string, stampsIn_field, stampsIn_option, List.flatMap_cons,
        List.flatMap_nil, List.count_append, List.count_nil]
      omega
  | quickLine line => exact (congrArg (List.count stamp) (stampsIn_quickLine line)).symm
  | reminded mark => exact (congrArg (List.count stamp) (stampsIn_reminded mark)).symm

/-! ## The stamps of operations and of snapshots -/

theorem flatMap_changeStamps_perm (changes : List Change) :
    (changes.flatMap changeStamps).Perm (stampsIn changes) :=
  List.Perm.flatMap_left changes fun change _ => changeStamps_perm change

variable {stamps : List Stamp}

/-- The stamps of an operation are read as they stand in it. -/
theorem map_toPb_of_opStamps {changes : List Change}
    (stamped : opStamps ⟨changes⟩ = .ok stamps) :
    stamps.map Stamp.toPb = changes.flatMap changeStamps := by
  simp only [opStamps, bind_eq_ok, require_eq_ok, pure, Except.pure, Except.ok.injEq] at stamped
  obtain ⟨parsed, parsedEq, -, -, rfl⟩ := stamped
  have valid : ∀ stamp ∈ changes.flatMap changeStamps,
      Stamp.fromPb (some stamp) = .ok ⟨stamp.lamport, stamp.deviceId⟩ := by
    intro stamp member
    obtain ⟨result, -, read⟩ := exists_mem_of_mapM_eq_ok parsedEq member
    have isValid : IsValidStamp stamp := by
      rw [IsValidStamp, read]
      rfl
    exact isValid.fromPb.2
  rw [mapM_eq_ok_map _ valid, Except.ok.injEq] at parsedEq
  rw [← parsedEq, List.map_map]
  exact List.map_id _

theorem stampsIn_op (changes : List Change) :
    stampsIn (⟨changes⟩ : PlannerOp) = stampsIn changes := rfl

/-- Every stamp in an operation is among its stamps, as often as it stands there. -/
theorem opStamps_perm {op : PlannerOp}
    (stamped : opStamps op = .ok stamps) : (stamps.map Stamp.toPb).Perm (stampsIn op) := by
  obtain ⟨changes⟩ := op
  rw [map_toPb_of_opStamps stamped, stampsIn_op]
  exact flatMap_changeStamps_perm changes

/-- The stamps of an operation are found exactly if there are some and all of them are valid. -/
theorem isOk_opStamps_iff (op : PlannerOp) :
    (opStamps op).isOk = true ↔
      stampsIn op ≠ [] ∧ ∀ stamp ∈ stampsIn op, IsValidStamp stamp := by
  obtain ⟨changes⟩ := op
  have same := flatMap_changeStamps_perm changes
  rw [stampsIn_op]
  constructor
  · intro isOk
    cases stamped : opStamps ⟨changes⟩ with
    | error error =>
        rw [stamped] at isOk
        cases isOk
    | ok stamps =>
        simp only [opStamps, bind_eq_ok, require_eq_ok, pure, Except.pure, Except.ok.injEq]
          at stamped
        obtain ⟨parsed, parsedEq, -, some, rfl⟩ := stamped
        refine ⟨fun none => ?_, fun stamp member => ?_⟩
        · rw [none, List.perm_nil] at same
          rw [same] at parsedEq
          cases parsedEq
          cases some
        · obtain ⟨result, -, read⟩ := exists_mem_of_mapM_eq_ok parsedEq (same.mem_iff.2 member)
          rw [IsValidStamp, read]
          rfl
  · rintro ⟨some, valid⟩
    have parsed := mapM_eq_ok_map (changes.flatMap changeStamps) fun stamp member =>
      (valid stamp (same.mem_iff.1 member)).fromPb.2
    unfold opStamps
    rw [parsed]
    cases collected : changes.flatMap changeStamps with
    | nil =>
        rw [collected] at same
        exact absurd (List.nil_perm.1 same) some
    | cons stamp stamps => rfl

/-- The stamps in a snapshot stand in its objects. -/
theorem stampsIn_changes (snapshot : PlannerSnapshot) :
    stampsIn snapshot.changes = stampsIn snapshot := by
  obtain ⟨tasks, events, lists, nutrition, settings, goals, goalPeriods, health, learned,
    quickLines, reminded⟩ := snapshot
  have objects (kinds : List ChangeKind) :
      stampsIn (kinds.map fun kind => (⟨some kind⟩ : Change)) = stampsIn kinds := by
    rw [stampsIn, held_list, List.flatMap_map]
    exact List.flatMap_congr fun kind _ => stampsIn_change kind
  have each {α : Type} [Holds LwwStamp α] (make : α -> ChangeKind)
      (same : ∀ value, Holds.held (make value) = held LwwStamp value) (values : List α) :
      held LwwStamp (values.map make) = held LwwStamp values := by
    rw [held_list, List.flatMap_map]
    exact List.flatMap_congr fun value _ => same value
  rw [PlannerSnapshot.changes, objects, PlannerSnapshot.objects]
  simp only [stampsIn, held_append]
  -- By the tactic only the left side is unfolded: the objects have many fields.
  rw [each .task fun _ => by rfl, each .event fun _ => by rfl, each .list fun _ => by rfl,
    each .nutritionDay fun _ => by rfl, each .settings fun _ => by rfl, each .goals fun _ => by rfl,
    each .goalPeriod fun _ => by rfl, each .health fun _ => by rfl, each .learned fun _ => by rfl,
    each .quickLine fun _ => by rfl, each .reminded fun _ => by rfl]
  rfl

/-- Every stamp in a snapshot is among its stamps, as often as it stands there. -/
theorem snapshotStamps_perm {snapshot : PlannerSnapshot}
    (stamped : snapshotStamps snapshot = .ok stamps) :
    (stamps.map Stamp.toPb).Perm (stampsIn snapshot) := by
  rw [← stampsIn_changes, ← stampsIn_op]
  unfold snapshotStamps at stamped
  split at stamped
  · next empty =>
      cases stamped
      rw [List.isEmpty_iff.1 empty]
      rfl
  · exact opStamps_perm stamped

/-! ## Lamport times -/

theorem greatestLamport_cons (stamp : Stamp) (stamps : List Stamp) :
    greatestLamport (stamp :: stamps) = max stamp.lamport (greatestLamport stamps) := by
  rw [greatestLamport, List.map_cons, List.foldl_cons, max_comm, List.foldl_assoc,
    greatestLamport]

theorem le_greatestLamport {stamp : Stamp}
    (member : stamp ∈ stamps) : stamp.lamport ≤ greatestLamport stamps := by
  induction stamps with
  | nil => cases member
  | cons first stamps inductionHypothesis =>
      rw [greatestLamport_cons]
      rcases List.mem_cons.1 member with rfl | inRest
      · exact le_max_left _ _
      · exact (inductionHypothesis inRest).trans (le_max_right _ _)

/-- No stamp is farther above those before it, and above what the guard has seen, than it may
jump. -/
def StepsWithin (seen : UInt64) (stamps : List Stamp) : Prop :=
  ∀ earlier stamp rest, stamps = earlier ++ stamp :: rest ->
    stamp.lamport ≤ Shared.saturatingAdd (max seen (greatestLamport earlier))
      Shared.lamportMaxJump

theorem StepsWithin.cons {seen : UInt64} {stamp : Stamp}
    (first : stamp.lamport ≤ Shared.saturatingAdd seen Shared.lamportMaxJump)
    (steps : StepsWithin (max seen stamp.lamport) stamps) : StepsWithin seen (stamp :: stamps) := by
  intro earlier other rest split
  cases earlier with
  | nil =>
      cases split
      have least : max seen (greatestLamport []) = seen := max_eq_left UInt64.zero_le
      rwa [least]
  | cons head earlier =>
      cases split
      have bound := steps earlier other rest rfl
      rwa [max_assoc, ← greatestLamport_cons] at bound

theorem exec_check (stamp : Stamp) (guard : Shared.LamportGuard) :
    (Shared.LamportGuard.check stamp).exec guard =
      if stamp.lamport = 0 ∨
          Shared.saturatingAdd guard.maxSeen Shared.lamportMaxJump < stamp.lamport then
        (.error (.invalidField "lamport"), guard)
      else (.ok (), ⟨max guard.maxSeen stamp.lamport⟩) := by
  unfold Shared.LamportGuard.check
  simp only [Update.exec_bind, Update.exec_get, Update.exec_liftM]
  by_cases refused : stamp.lamport = 0 ∨
      Shared.saturatingAdd guard.maxSeen Shared.lamportMaxJump < stamp.lamport
  · rw [if_pos refused]
    have fails : (stamp.lamport == 0 ||
        decide (Shared.saturatingAdd guard.maxSeen Shared.lamportMaxJump < stamp.lamport)) =
          true := by
      simpa using refused
    rw [fails]
    rfl
  · rw [if_neg refused]
    have passes : (stamp.lamport == 0 ||
        decide (Shared.saturatingAdd guard.maxSeen Shared.lamportMaxJump < stamp.lamport)) =
          false := by
      rw [Bool.eq_false_iff]
      simpa using refused
    rw [passes]
    rfl

variable {guard later : Shared.LamportGuard}

/-- A guard that lets stamps pass has seen the greatest of them, and they stepped within its
bounds. -/
theorem stepsWithin_of_checkAll
    (passes : (Shared.LamportGuard.checkAll stamps).exec guard = (.ok (), later)) :
    later.maxSeen = max guard.maxSeen (greatestLamport stamps) ∧
      StepsWithin guard.maxSeen stamps := by
  induction stamps generalizing guard with
  | nil =>
      cases passes
      refine ⟨(max_eq_left UInt64.zero_le).symm, fun earlier stamp rest split => ?_⟩
      exact absurd split.symm (by simp)
  | cons first stamps inductionHypothesis =>
      change (Shared.LamportGuard.check first >>= fun _ =>
        Shared.LamportGuard.checkAll stamps).exec guard = _ at passes
      rw [Update.exec_bind, exec_check] at passes
      by_cases refused : first.lamport = 0 ∨
          Shared.saturatingAdd guard.maxSeen Shared.lamportMaxJump < first.lamport
      · rw [if_pos refused] at passes
        cases passes
      · rw [if_neg refused] at passes
        obtain ⟨seen, steps⟩ := inductionHypothesis passes
        obtain ⟨-, near⟩ := not_or.1 refused
        refine ⟨?_, steps.cons (not_lt.1 near)⟩
        rw [seen, greatestLamport_cons, max_assoc]

/-- The stamps of an operation in the order in which they are collected. -/
def guardOp (op : PlannerOp) : Update Shared.LamportGuard Unit := do
  let stamps ← opStamps op
  Shared.LamportGuard.checkAll stamps

/-- An operation that the guard lets pass has stamps that step within its bounds, and none that
the guard has not seen afterwards. -/
theorem guardOp_bounds {op : PlannerOp}
    (passes : (guardOp op).exec guard = (.ok (), later)) :
    ∃ stamps, opStamps op = .ok stamps ∧ StepsWithin guard.maxSeen stamps ∧
      later.maxSeen = max guard.maxSeen (greatestLamport stamps) := by
  rw [guardOp, Update.exec_bind, Update.exec_liftM] at passes
  cases stamped : opStamps op with
  | error error =>
      rw [stamped] at passes
      cases passes
  | ok stamps =>
      rw [stamped] at passes
      obtain ⟨seen, steps⟩ := stepsWithin_of_checkAll passes
      exact ⟨stamps, rfl, steps, seen⟩

/-- An operation that is applied has stamps of its author device only. -/
theorem deviceId_of_applyOp
    {isUppercase : Char -> Bool} {op : PlannerOp} {device : String} {state : PlannerState}
    (accepted : ((applyOp isUppercase op device).exec state).1.isOk = true)
    {stamp : LwwStamp}
    (member : stamp ∈ stampsIn op) : IsValidStamp stamp ∧ stamp.deviceId = device := by
  have isAccepted : Accepted isUppercase device op :=
    (isOk_applyOp op device .new state).trans accepted
  obtain ⟨stamps, stamped, own⟩ := isAccepted.stamps
  have valid := ((isOk_opStamps_iff op).1 (by rw [stamped]; rfl)).2 stamp member
  refine ⟨valid, ?_⟩
  obtain ⟨read, inside, rfl⟩ := List.mem_map.1 ((opStamps_perm stamped).mem_iff.2 member)
  exact beq_iff_eq.1 (List.all_eq_true.1 own read inside)

/-- A snapshot that the guard lets pass has no stamp above the limit. -/
theorem guardSnapshot_bounds {snapshot : PlannerSnapshot} {uptoSeq : UInt64}
    (passes : (guardSnapshot snapshot uptoSeq).exec guard = (.ok (), later))
    {stamp : LwwStamp}
    (member : stamp ∈ stampsIn snapshot) : stamp.lamport ≤ lamportLimit guard uptoSeq := by
  rw [exec_guardSnapshot] at passes
  cases stamped : snapshotStamps snapshot with
  | error error =>
      rw [stamped] at passes
      cases passes
  | ok stamps =>
      rw [stamped] at passes
      dsimp only at passes
      split at passes
      · next below =>
          obtain ⟨read, inside, rfl⟩ :=
            List.mem_map.1 ((snapshotStamps_perm stamped).mem_iff.2 member)
          exact (le_greatestLamport inside).trans below
      · cases passes

end Parvane.Planner
