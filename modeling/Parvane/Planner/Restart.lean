import Parvane.Planner.Snapshot
import Parvane.Planner.Stored

/-!
# Restarts of the planner

A device keeps its planner as a snapshot and makes the state from it anew after a restart.
The snapshot has all of the state, but the state comes back only if every object in it passes
the check that a change of its kind has to pass, and if the snapshot has a stamp.
-/

namespace Parvane.Planner

open Wire Domain Convergence

/-! ## Collections -/

namespace Shelf

variable {shelf : Shelf α}

/-- Put an object under its name. -/
def keep (shelf : Shelf α) (store : Std.ExtTreeMap String α) (incoming : α) :
    Std.ExtTreeMap String α :=
  store.alter (shelf.name incoming) fun slot => some (shelf.put slot incoming)

/-- Everything in a collection is sound and stands under its name. -/
def Holds (shelf : Shelf α) (store : Std.ExtTreeMap String α) : Prop :=
  ∀ (name : String) (kept : α), store[name]? = some kept ->
    shelf.name kept = name ∧ shelf.Sound kept ∧ AllValid (shelf.stamps kept)

theorem holds_empty (shelf : Shelf α) : shelf.Holds ∅ := by
  intro name kept found
  rw [Std.ExtTreeMap.getElem?_empty] at found
  cases found

variable {store : Std.ExtTreeMap String α}

theorem Holds.keep
    (holds : shelf.Holds store) (lawful : shelf.Lawful) {incoming : α}
    (checked : shelf.check incoming = .ok ())
    (valid : AllValid (shelf.stamps incoming)) : shelf.Holds (shelf.keep store incoming) := by
  intro name kept found
  rw [Shelf.keep, Std.ExtTreeMap.getElem?_alter] at found
  split at found
  · next same =>
      obtain rfl := Std.LawfulEqCmp.compare_eq_iff_eq.1 same
      cases found
      have held : ∀ current ∈ store[shelf.name incoming]?,
          shelf.name current = shelf.name incoming ∧ shelf.Sound current ∧
            AllValid (shelf.stamps current) :=
        fun current present => holds _ current present
      exact ⟨lawful.name_put _ _ fun current present => (held current present).1,
        lawful.sound_put _ _
          (fun current present => ⟨(held current present).2.1, (held current present).1⟩) checked,
        lawful.stamps_put _ _ (fun current present => (held current present).1)
          (fun current present => (held current present).2.2) valid⟩
  · exact holds name kept found

/-- The objects of a collection, in the order of their names. -/
def values (store : Std.ExtTreeMap String α) : List α :=
  store.toList.map Prod.snd

theorem Holds.of_mem
    (holds : shelf.Holds store) {kept : α} (member : kept ∈ values store) :
    store[shelf.name kept]? = some kept ∧ shelf.Sound kept ∧ AllValid (shelf.stamps kept) := by
  obtain ⟨⟨name, _⟩, inside, rfl⟩ := List.mem_map.1 member
  have found := Std.ExtTreeMap.mem_toList_iff_getElem?_eq_some.1 inside
  obtain ⟨rfl, sound, valid⟩ := holds name _ found
  exact ⟨found, sound, valid⟩

theorem Holds.distinctKeys
    (holds : shelf.Holds store) : KeyedList.DistinctKeys shelf.name (values store) := by
  refine List.pairwise_map.2 (Std.ExtTreeMap.distinct_keys_toList.imp_of_mem ?_)
  rintro ⟨first, _⟩ ⟨second, _⟩ firstInside secondInside different same
  obtain ⟨rfl, -⟩ := holds first _ (Std.ExtTreeMap.mem_toList_iff_getElem?_eq_some.1 firstInside)
  obtain ⟨rfl, -⟩ := holds second _
    (Std.ExtTreeMap.mem_toList_iff_getElem?_eq_some.1 secondInside)
  exact different (Std.LawfulEqCmp.compare_eq_iff_eq.2 same)

/-- A collection comes back when its objects are put into an empty one. -/
theorem Holds.refill
    (holds : shelf.Holds store)
    (lawful : shelf.Lawful) : (values store).foldl shelf.keep ∅ = store := by
  have steps : (fun slot incoming => some (shelf.put slot incoming)) =
      KeyedList.slotStep (fun current => shelf.put (some current)) (shelf.put none) := by
    funext slot incoming
    cases slot <;> rfl
  have kept : ∀ entry ∈ values store, shelf.put none entry = entry :=
    fun entry member => lawful.put_none entry (holds.of_mem member).2.1
  apply Std.ExtTreeMap.ext_getElem?
  intro name
  have slots := ConvergesFrom.getElem?_foldl_alterAt (fun incoming => some (shelf.name incoming))
    (fun slot incoming => some (shelf.put slot incoming)) (values store) ∅ name
  refine slots.trans ?_
  simp only [Option.some.injEq, Std.ExtTreeMap.getElem?_empty, steps]
  rw [KeyedList.foldl_filter_eq_lookup holds.distinctKeys kept]
  apply Option.ext
  intro found
  constructor
  · intro looked
    obtain rfl : shelf.name found = name := by simpa using List.find?_some looked
    exact (holds.of_mem ((KeyedList.lookup_eq_some_iff holds.distinctKeys).1 looked)).1
  · intro stored
    obtain ⟨rfl, -⟩ := holds name found stored
    exact (KeyedList.lookup_eq_some_iff holds.distinctKeys).2
      (List.mem_map.2 ⟨_, Std.ExtTreeMap.mem_toList_iff_getElem?_eq_some.2 stored, rfl⟩)

end Shelf

/-! ## The state -/

/-- A record of a state, with the checks that it passed. -/
def RegisterSound [Stamped α] (check : α -> Result Unit) (register : Option α) : Prop :=
  mergeReg none register = register ∧ checkOption register check = .ok () ∧
    AllValid (regStamp register)

theorem RegisterSound.merge [Stamped α]
    {check : α -> Result Unit} {register : Option α} (sound : RegisterSound check register)
    {incoming : α}
    (checked : check incoming = .ok ())
    (valid : AllValid (regStamp (some incoming))) :
    RegisterSound check (mergeReg register (some incoming)) :=
  ⟨mergeReg_again sound.1, checkOption_mergeReg sound.2.1 checked,
    allValid_mergeReg sound.2.2 valid⟩

/-- The parts of a state that has taken what passed its checks. -/
structure PlannerState.Stored (isUppercase : Char -> Bool) (state : PlannerState) : Prop where
  tasks : taskObject.shelf.Holds state.tasks
  events : eventObject.shelf.Holds state.events
  lists : listObject.shelf.Holds state.lists
  nutrition : dayObject.shelf.Holds state.nutrition
  settings : RegisterSound checkSettings state.settings
  goals : RegisterSound checkGoals state.goals
  goalPeriods : (recordShelf checkGoalPeriod true).Holds state.goalPeriods
  health : (recordShelf checkHealth false).Holds state.health
  learned : (wordObject isUppercase).shelf.Holds state.learned
  quickLines : (recordShelf checkQuickLine false).Holds state.quickLines
  reminded : markObject.shelf.Holds state.reminded

/-- A change that passes its check and carries valid stamps. -/
def Brought (isUppercase : Char -> Bool) (kind : ChangeKind) : Prop :=
  checkChange isUppercase ⟨some kind⟩ = .ok kind ∧ AllValid (changeStamps ⟨some kind⟩)

theorem mergeRecord_eq_keep [Record α]
    (check : α -> Result Unit) (bare : Bool) (records : Std.ExtTreeMap String α) (incoming : α) :
    mergeRecord records incoming = (recordShelf check bare).keep records incoming := by
  unfold mergeRecord Shelf.keep
  refine congrArg (records.alter (Record.id incoming)) (funext fun slot => ?_)
  cases slot <;> rfl

theorem recordShelf_fits [Record α]
    (check : α -> Result Unit) (bare : Bool)
    (record : α) : (recordShelf check bare).fits record = (hasContent record || bare) :=
  rfl

variable {isUppercase : Char -> Bool}

theorem stored_new : PlannerState.new.Stored isUppercase where
  tasks := Shelf.holds_empty _
  events := Shelf.holds_empty _
  lists := Shelf.holds_empty _
  nutrition := Shelf.holds_empty _
  settings := ⟨rfl, rfl, allValid_nil⟩
  goals := ⟨rfl, rfl, allValid_nil⟩
  goalPeriods := Shelf.holds_empty _
  health := Shelf.holds_empty _
  learned := Shelf.holds_empty _
  quickLines := Shelf.holds_empty _
  reminded := Shelf.holds_empty _

/-- The check of a change is the check of what it brings. -/
theorem passes_of_checkChange {check : Result Unit} {kind found : ChangeKind}
    (passes : (check >>= fun _ => pure kind) = .ok found) : check = .ok () := by
  simp only [bind_eq_ok] at passes
  obtain ⟨_, passes, -⟩ := passes
  exact passes

variable {kind : ChangeKind}

/-- A change goes into its own collection. -/
theorem PlannerState.Stored.take {state : PlannerState}
    (stored : state.Stored isUppercase)
    (brought : Brought isUppercase kind) : (state.take kind).Stored isUppercase := by
  obtain ⟨checked, valid⟩ := brought
  cases kind with
  | task task =>
      exact { stored with
        tasks := stored.tasks.keep taskObject_lawful.shelf (passes_of_checkChange checked) valid }
  | event event =>
      exact { stored with
        events := stored.events.keep eventObject_lawful.shelf (passes_of_checkChange checked)
          valid }
  | list list =>
      exact { stored with
        lists := stored.lists.keep listObject_lawful.shelf (passes_of_checkChange checked) valid }
  | nutritionDay day =>
      exact { stored with
        nutrition := stored.nutrition.keep dayObject_lawful.shelf (passes_of_checkChange checked)
          valid }
  | settings settings =>
      exact { stored with
        settings := stored.settings.merge (passes_of_checkChange checked) valid }
  | goals goals =>
      exact { stored with
        goals := stored.goals.merge (passes_of_checkChange checked) valid }
  | migration migration => exact { stored with }
  | goalPeriod period =>
      refine { stored with goalPeriods := ?_ }
      change (recordShelf checkGoalPeriod true).Holds (mergeRecord state.goalPeriods period)
      rw [mergeRecord_eq_keep checkGoalPeriod true]
      exact stored.goalPeriods.keep goalPeriod_recordCheck.shelf (passes_of_checkChange checked)
        valid
  | health record =>
      refine { stored with health := ?_ }
      change (recordShelf checkHealth false).Holds (mergeRecord state.health record)
      rw [mergeRecord_eq_keep checkHealth false]
      exact stored.health.keep health_recordCheck.shelf (passes_of_checkChange checked) valid
  | learned word =>
      exact { stored with
        learned := stored.learned.keep (wordObject_lawful isUppercase).shelf
          (passes_of_checkChange checked) valid }
  | quickLine line =>
      refine { stored with quickLines := ?_ }
      change (recordShelf checkQuickLine false).Holds (mergeRecord state.quickLines line)
      rw [mergeRecord_eq_keep checkQuickLine false]
      exact stored.quickLines.keep quickLine_recordCheck.shelf (passes_of_checkChange checked)
        valid
  | reminded mark =>
      exact { stored with
        reminded := stored.reminded.keep markObject_lawful.shelf (passes_of_checkChange checked)
          valid }

theorem PlannerState.Stored.foldl_take {state : PlannerState}
    (stored : state.Stored isUppercase) {kinds : List ChangeKind}
    (brought : ∀ kind ∈ kinds, Brought isUppercase kind) :
    (kinds.foldl PlannerState.take state).Stored isUppercase := by
  induction kinds generalizing state with
  | nil => exact stored
  | cons kind kinds inductionHypothesis =>
      obtain ⟨head, tail⟩ := List.forall_mem_cons.1 brought
      exact inductionHypothesis (stored.take head) tail

/-! ## Runs -/

/-- The states that accepted operations and accepted snapshots lead to. -/
inductive Reachable (isUppercase : Char -> Bool) : PlannerState -> Prop
  | new : Reachable isUppercase .new
  | op {state : PlannerState} (op : PlannerOp) (device : String)
      (reachable : Reachable isUppercase state)
      (accepted : ((applyOp isUppercase op device).exec state).1.isOk = true) :
      Reachable isUppercase ((applyOp isUppercase op device).exec state).2
  | snapshot {state : PlannerState} (snapshot : PlannerSnapshot)
      (reachable : Reachable isUppercase state)
      (accepted : ((mergeSnapshot isUppercase snapshot).exec state).1.isOk = true) :
      Reachable isUppercase ((mergeSnapshot isUppercase snapshot).exec state).2

/-- What an operation with valid stamps brings. -/
theorem brought_of_opStamps {changes : List Change} {stamps : List Stamp}
    (stamped : opStamps ⟨changes⟩ = .ok stamps)
    (member : kind ∈ passed isUppercase changes) : Brought isUppercase kind := by
  obtain ⟨change, inside, checked⟩ := exists_of_mem_passed member
  simp only [opStamps, bind_eq_ok, require_eq_ok, pure, Except.pure, Except.ok.injEq] at stamped
  obtain ⟨parsed, parsedEq, -, -, rfl⟩ := stamped
  rcases checkChange_eq_ok isUppercase checked with same | ⟨migration, rfl⟩
  · obtain ⟨_⟩ := change
    obtain rfl : _ = some kind := same
    refine ⟨checked, fun stamp stampMember => ?_⟩
    obtain ⟨result, -, read⟩ := exists_mem_of_mapM_eq_ok parsedEq
      (List.mem_flatMap.2 ⟨_, inside, stampMember⟩)
    rw [IsValidStamp, read]
    rfl
  · exact ⟨rfl, allValid_nil⟩

/-- Whether an operation is accepted does not depend on the state. -/
theorem isOk_applyOp
    (op : PlannerOp) (device : String) (state other : PlannerState) :
    ((applyOp isUppercase op device).exec state).1.isOk =
      ((applyOp isUppercase op device).exec other).1.isOk := by
  simp only [applyOp, Update.exec_bind, Update.exec_liftM, Update.exec_modifyGet]
  cases opStamps op with
  | error error => rfl
  | ok stamps =>
      dsimp only
      cases require (stamps.all fun stamp => stamp.deviceId == device) .contextMismatch <;> rfl

/-- A snapshot with well formed stamps brings what it has before its first mistake. -/
theorem brought_of_snapshotStamps {snapshot : PlannerSnapshot} {stamps : List Stamp}
    (stamped : snapshotStamps snapshot = .ok stamps) :
    ∀ kind ∈ Update.foundBefore (checkChange isUppercase) snapshot.changes,
      Brought isUppercase kind := by
  intro kind member
  rw [← passed_validBefore] at member
  obtain ⟨change, inside, found⟩ := List.mem_filterMap.1 member
  have present : change ∈ snapshot.changes := (List.takeWhile_sublist _).subset inside
  unfold snapshotStamps at stamped
  rw [if_neg (by
    rw [List.isEmpty_iff]
    exact List.ne_nil_of_mem present)] at stamped
  exact brought_of_opStamps stamped (List.mem_filterMap.2 ⟨change, present, found⟩)

theorem Reachable.stored {state : PlannerState}
    (reachable : Reachable isUppercase state) : state.Stored isUppercase := by
  induction reachable with
  | new => exact stored_new
  | @op state op device _ accepted stored =>
      have isAccepted : Accepted isUppercase device op :=
        (isOk_applyOp op device .new state).trans accepted
      obtain ⟨stamps, stamped, -⟩ := isAccepted.stamps
      rw [isAccepted.exec, applyChanges_eq_foldl]
      exact stored.foldl_take fun kind => brought_of_opStamps stamped
  | @snapshot state snapshot _ accepted stored =>
      rw [exec_mergeSnapshot] at accepted ⊢
      cases stamped : snapshotStamps snapshot with
      | error error =>
          rw [stamped] at accepted
          cases accepted
      | ok stamps => exact stored.foldl_take (brought_of_snapshotStamps stamped)

/-! ## The snapshot of a state -/

/-- What may fail the check of an object that is kept. -/
def ChangeKind.fits : ChangeKind -> Bool
  | .task t => t.occurrences.length ≤ maxOccurrences
  | .event e => e.occurrences.length ≤ maxOccurrences
  | .nutritionDay d => decide (d.entries.length ≤ 200) && d.entries.all hasContent
  | .health r => hasContent r
  | .quickLine l => hasContent l
  | _ => true

/-- No collection is larger than snapshots keep it. -/
structure PlannerState.WithinCaps (state : PlannerState) : Prop where
  learned : state.learned.size ≤ maxLearnedStored
  quickLines : state.quickLines.size ≤ maxQuickStored
  reminded : state.reminded.size ≤ maxRemindedStored

/-- The objects of a state, kind by kind. -/
def PlannerState.objects (state : PlannerState) : List ChangeKind :=
  (Shelf.values state.tasks).map .task ++
    (Shelf.values state.events).map .event ++
    (Shelf.values state.lists).map .list ++
    (Shelf.values state.nutrition).map .nutritionDay ++
    state.settings.toList.map .settings ++
    state.goals.toList.map .goals ++
    (Shelf.values state.goalPeriods).map .goalPeriod ++
    (Shelf.values state.health).map .health ++
    (Shelf.values state.learned).map .learned ++
    (Shelf.values state.quickLines).map .quickLine ++
    (Shelf.values state.reminded).map .reminded

theorem storedValues_eq [LinearOrder κ]
    {limit : Nat} (rank : α -> κ) (id : α -> String) {store : Std.ExtTreeMap String α}
    (within : store.size ≤ limit) : storedValues limit rank id store = Shelf.values store := by
  rw [storedValues]
  exact if_pos within

section

variable {state : PlannerState}

theorem objects_toSnapshot (within : state.WithinCaps) :
    state.toSnapshot.objects = state.objects := by
  rw [PlannerSnapshot.objects, PlannerState.objects]
  simp only [PlannerState.toSnapshot, PlannerState.learnedStored, PlannerState.quickStored,
    PlannerState.remindedStored, storedValues_eq _ _ within.learned,
    storedValues_eq _ _ within.quickLines, storedValues_eq _ _ within.reminded]
  rfl

/-- An object of a shelf passes the check of its change exactly if it fits. -/
theorem passes_iff {check : Result Unit} {fits : Bool}
    (checks : check = .ok () ↔ fits = true) :
    (check >>= fun _ => pure kind) = .ok kind ↔ fits = true := by
  rw [← checks, bind_eq_ok]
  exact ⟨fun ⟨_, passes, _⟩ => passes, fun passes => ⟨(), passes, rfl⟩⟩

/-- What is kept has valid stamps, and it passes its check if it fits. -/
theorem PlannerState.Stored.object
    (stored : state.Stored isUppercase) (within : state.WithinCaps)
    (member : kind ∈ state.toSnapshot.objects) :
    AllValid (changeStamps ⟨some kind⟩) ∧
      (checkChange isUppercase ⟨some kind⟩ = .ok kind ↔ kind.fits = true) := by
  rw [objects_toSnapshot within, PlannerState.objects] at member
  simp only [List.mem_append, List.mem_map, or_assoc] at member
  rcases member with ⟨task, inside, rfl⟩ | ⟨event, inside, rfl⟩ | ⟨list, inside, rfl⟩ |
    ⟨day, inside, rfl⟩ | ⟨settings, inside, rfl⟩ | ⟨goals, inside, rfl⟩ | ⟨period, inside, rfl⟩ |
    ⟨record, inside, rfl⟩ | ⟨word, inside, rfl⟩ | ⟨line, inside, rfl⟩ | ⟨mark, inside, rfl⟩
  · obtain ⟨-, sound, valid⟩ := stored.tasks.of_mem inside
    exact ⟨valid, passes_iff (taskObject_lawful.check_iff task sound)⟩
  · obtain ⟨-, sound, valid⟩ := stored.events.of_mem inside
    exact ⟨valid, passes_iff (eventObject_lawful.check_iff event sound)⟩
  · obtain ⟨-, sound, valid⟩ := stored.lists.of_mem inside
    exact ⟨valid, passes_iff (listObject_lawful.check_iff list sound)⟩
  · obtain ⟨-, sound, valid⟩ := stored.nutrition.of_mem inside
    exact ⟨valid, passes_iff (dayObject_lawful.check_iff day sound)⟩
  · obtain ⟨-, checked, valid⟩ := stored.settings
    rw [Option.mem_toList.1 inside] at checked valid
    exact ⟨valid, passes_iff (iff_of_true checked rfl)⟩
  · obtain ⟨-, checked, valid⟩ := stored.goals
    rw [Option.mem_toList.1 inside] at checked valid
    exact ⟨valid, passes_iff (iff_of_true checked rfl)⟩
  · obtain ⟨-, sound, valid⟩ := stored.goalPeriods.of_mem inside
    exact ⟨valid, passes_iff ((goalPeriod_recordCheck.shelf.check_iff period sound).trans
      (iff_of_true (Bool.or_true _) rfl))⟩
  · obtain ⟨-, sound, valid⟩ := stored.health.of_mem inside
    exact ⟨valid, passes_iff ((health_recordCheck.shelf.check_iff record sound).trans
      (by rw [recordShelf_fits, Bool.or_false, ChangeKind.fits]))⟩
  · obtain ⟨-, sound, valid⟩ := stored.learned.of_mem inside
    exact ⟨valid, passes_iff ((wordObject_lawful isUppercase).check_iff word sound)⟩
  · obtain ⟨-, sound, valid⟩ := stored.quickLines.of_mem inside
    exact ⟨valid, passes_iff ((quickLine_recordCheck.shelf.check_iff line sound).trans
      (by rw [recordShelf_fits, Bool.or_false, ChangeKind.fits]))⟩
  · obtain ⟨-, sound, valid⟩ := stored.reminded.of_mem inside
    exact ⟨valid, passes_iff (markObject_lawful.check_iff mark sound)⟩

theorem foldl_kept_register [Stamped α]
    {register : Option α} (kept : mergeReg none register = register) :
    register.toList.foldl (fun register incoming => mergeReg register (some incoming)) none =
      register := by
  cases register with
  | none => rfl
  | some value => exact kept

/-- The objects of a state make the state anew. -/
theorem PlannerState.Stored.foldl_objects
    (stored : state.Stored isUppercase) (within : state.WithinCaps) :
    state.toSnapshot.objects.foldl PlannerState.take .new = state := by
  have refill {α : Type} {shelf : Shelf α} (part : PlannerState -> Std.ExtTreeMap String α)
      (view : ChangeKind -> Option α)
      (part_take : ∀ state kind, part (PlannerState.take state kind) =
        (view kind).elim (part state) (shelf.keep (part state)))
      (holds : shelf.Holds (part state)) (lawful : shelf.Lawful) (empty : part .new = ∅)
      (kinds : state.toSnapshot.objects.filterMap view = Shelf.values (part state)) :
      part (state.toSnapshot.objects.foldl PlannerState.take .new) = part state := by
    rw [foldl_part part view part_take, kinds, empty]
    exact holds.refill lawful
  have register {α : Type} [Stamped α] {check : α -> Result Unit}
      (part : PlannerState -> Option α) (view : ChangeKind -> Option α)
      (part_take : ∀ state kind, part (PlannerState.take state kind) =
        mergeReg (part state) (view kind))
      (sound : RegisterSound check (part state)) (empty : part .new = none)
      (kinds : state.toSnapshot.objects.filterMap view = (part state).toList) :
      part (state.toSnapshot.objects.foldl PlannerState.take .new) = part state := by
    have optional : ∀ state kind, part (PlannerState.take state kind) =
        (view kind).elim (part state) fun incoming => mergeReg (part state) (some incoming) := by
      intro state kind
      rw [part_take]
      cases view kind <;> rfl
    have run : part (state.toSnapshot.objects.foldl PlannerState.take .new) =
        (state.toSnapshot.objects.filterMap view).foldl
          (fun register incoming => mergeReg register (some incoming)) (part .new) :=
      foldl_part part view optional _ _
    rw [run, kinds, empty]
    exact foldl_kept_register sound.1
  have kinds {α : Type} (view : ChangeKind -> Option α) :
      state.toSnapshot.objects.filterMap view = _ :=
    congrArg (List.filterMap view) (objects_toSnapshot within)
  simp only [PlannerState.objects, List.filterMap_append, List.filterMap_map] at kinds
  apply PlannerState.ext
  · refine refill PlannerState.tasks ChangeKind.task? (fun state kind => ?_) stored.tasks
      taskObject_lawful.shelf rfl ?_
    · cases kind <;> rfl
    · rw [kinds]
      simp [ChangeKind.task?, Function.comp_def]
  · refine refill PlannerState.events ChangeKind.event? (fun state kind => ?_) stored.events
      eventObject_lawful.shelf rfl ?_
    · cases kind <;> rfl
    · rw [kinds]
      simp [ChangeKind.event?, Function.comp_def]
  · refine refill PlannerState.lists ChangeKind.list? (fun state kind => ?_) stored.lists
      listObject_lawful.shelf rfl ?_
    · cases kind <;> rfl
    · rw [kinds]
      simp [ChangeKind.list?, Function.comp_def]
  · refine refill PlannerState.nutrition ChangeKind.nutritionDay? (fun state kind => ?_)
      stored.nutrition dayObject_lawful.shelf rfl ?_
    · cases kind <;> rfl
    · rw [kinds]
      simp [ChangeKind.nutritionDay?, Function.comp_def]
  · refine register PlannerState.settings ChangeKind.settings? (fun _ _ => rfl) stored.settings
      rfl ?_
    rw [kinds]
    simp [ChangeKind.settings?, Function.comp_def]
  · refine register PlannerState.goals ChangeKind.goals? (fun _ _ => rfl) stored.goals rfl ?_
    rw [kinds]
    simp [ChangeKind.goals?, Function.comp_def]
  · refine refill PlannerState.goalPeriods ChangeKind.goalPeriod? (fun state kind => ?_)
      stored.goalPeriods goalPeriod_recordCheck.shelf rfl ?_
    · cases kind <;> first | rfl | exact mergeRecord_eq_keep checkGoalPeriod true _ _
    · rw [kinds]
      simp [ChangeKind.goalPeriod?, Function.comp_def]
  · refine refill PlannerState.health ChangeKind.health? (fun state kind => ?_)
      stored.health health_recordCheck.shelf rfl ?_
    · cases kind <;> first | rfl | exact mergeRecord_eq_keep checkHealth false _ _
    · rw [kinds]
      simp [ChangeKind.health?, Function.comp_def]
  · refine refill PlannerState.learned ChangeKind.learned? (fun state kind => ?_)
      stored.learned (wordObject_lawful isUppercase).shelf rfl ?_
    · cases kind <;> rfl
    · rw [kinds]
      simp [ChangeKind.learned?, Function.comp_def]
  · refine refill PlannerState.quickLines ChangeKind.quickLine? (fun state kind => ?_)
      stored.quickLines quickLine_recordCheck.shelf rfl ?_
    · cases kind <;> first | rfl | exact mergeRecord_eq_keep checkQuickLine false _ _
    · rw [kinds]
      simp [ChangeKind.quickLine?, Function.comp_def]
  · refine refill PlannerState.reminded ChangeKind.reminded? (fun state kind => ?_)
      stored.reminded markObject_lawful.shelf rfl ?_
    · cases kind <;> rfl
    · rw [kinds]
      simp [ChangeKind.reminded?, Function.comp_def]

/-- The stamps of a state can be read back if there is one, or if there is nothing. -/
theorem PlannerState.Stored.snapshotStamps_iff
    (stored : state.Stored isUppercase) (within : state.WithinCaps) :
    (snapshotStamps state.toSnapshot).isOk = true ↔
      state.toSnapshot.objects = [] ∨
        state.toSnapshot.objects.flatMap (fun kind => changeStamps ⟨some kind⟩) ≠ [] := by
  have same : state.toSnapshot.changes.flatMap changeStamps =
      state.toSnapshot.objects.flatMap fun kind => changeStamps ⟨some kind⟩ :=
    List.flatMap_map _ _ _
  have valid : ∀ stamp ∈ state.toSnapshot.changes.flatMap changeStamps,
      Stamp.fromPb (some stamp) = .ok ⟨stamp.lamport, stamp.deviceId⟩ := by
    rw [same]
    intro stamp member
    obtain ⟨kind, inside, stamped⟩ := List.mem_flatMap.1 member
    exact ((stored.object within inside).1 stamp stamped).fromPb.2
  unfold snapshotStamps opStamps
  rw [mapM_eq_ok_map _ valid, ← same]
  by_cases empty : state.toSnapshot.objects = []
  · rw [if_pos (by rw [PlannerSnapshot.changes, empty]; rfl)]
    exact iff_of_true rfl (.inl empty)
  · rw [if_neg (by rw [PlannerSnapshot.changes, List.isEmpty_iff, List.map_eq_nil_iff]; exact empty),
      or_iff_right empty]
    cases state.toSnapshot.changes.flatMap changeStamps with
    | nil => exact iff_of_false Bool.false_ne_true fun some => some rfl
    | cons stamp stamps => exact iff_of_true rfl (List.cons_ne_nil _ _)

end

/-- Checks that return what they were asked about return all of a list. -/
theorem foundBefore_eq {kinds : List ChangeKind}
    (passes : ∀ kind ∈ kinds, checkChange isUppercase ⟨some kind⟩ = .ok kind) :
    Update.foundBefore (checkChange isUppercase) (kinds.map fun kind => ⟨some kind⟩) = kinds := by
  induction kinds with
  | nil => rfl
  | cons kind kinds inductionHypothesis =>
      obtain ⟨head, tail⟩ := List.forall_mem_cons.1 passes
      rw [List.map_cons, Update.foundBefore, head]
      exact congrArg (kind :: ·) (inductionHypothesis tail)

theorem checkChange_some_isOk (kind : ChangeKind) :
    (checkChange isUppercase ⟨some kind⟩).isOk = true ↔
      checkChange isUppercase ⟨some kind⟩ = .ok kind := by
  have same : ∀ found, checkChange isUppercase ⟨some kind⟩ = .ok found -> found = kind := by
    intro found checked
    cases kind with
    | migration migration => exact (Except.ok.inj checked).symm
    | _ =>
        simp only [checkChange, bind_eq_ok, pure, Except.pure, Except.ok.injEq] at checked
        exact checked.choose_spec.2.symm
  cases checked : checkChange isUppercase ⟨some kind⟩ with
  | error error => exact iff_of_false Bool.false_ne_true (by simp)
  | ok found =>
      rw [same found checked]
      exact iff_of_true rfl rfl

/-- Every object fits, and there is a stamp if there is an object. -/
def AllFit (objects : List ChangeKind) : Prop :=
  (∀ kind ∈ objects, kind.fits = true) ∧
    (objects = [] ∨ objects.flatMap (fun kind => changeStamps ⟨some kind⟩) ≠ [])

/-- A snapshot that fits makes its state anew, and one that does not makes none. -/
theorem PlannerState.Stored.comes_back_or_fails {state : PlannerState}
    (stored : state.Stored isUppercase) (within : state.WithinCaps) :
    (fromSnapshot isUppercase state.toSnapshot = .ok state ∧ AllFit state.toSnapshot.objects) ∨
      ((fromSnapshot isUppercase state.toSnapshot).isOk = false ∧
        ¬ AllFit state.toSnapshot.objects) := by
  have fits : (∀ kind ∈ state.toSnapshot.objects, kind.fits = true) ↔
      ∀ kind ∈ state.toSnapshot.objects, checkChange isUppercase ⟨some kind⟩ = .ok kind :=
    forall₂_congr fun kind member => (stored.object within member).2.symm
  rw [AllFit, fits, ← stored.snapshotStamps_iff within, fromSnapshot,
    exec_mergeSnapshot]
  cases snapshotStamps state.toSnapshot with
  | error error => exact .inr ⟨rfl, fun holds => Bool.false_ne_true holds.2⟩
  | ok stamps =>
      have passes : (state.toSnapshot.changes.forM fun change =>
          (checkChange isUppercase change).map fun _ => ()).isOk = true ↔
            ∀ kind ∈ state.toSnapshot.objects,
              checkChange isUppercase ⟨some kind⟩ = .ok kind := by
        rw [Update.isOk_forM_map_iff, PlannerSnapshot.changes, List.forall_mem_map]
        exact forall₂_congr fun kind _ => checkChange_some_isOk kind
      cases merged : state.toSnapshot.changes.forM fun change =>
          (checkChange isUppercase change).map fun _ => () with
      | error error =>
          rw [merged] at passes
          exact .inr ⟨rfl, fun holds => Bool.false_ne_true (passes.2 holds.1)⟩
      | ok _ =>
          rw [merged] at passes
          have all := passes.1 rfl
          have found := foundBefore_eq all
          refine .inl ⟨?_, all, rfl⟩
          change Except.ok (List.foldl PlannerState.take .new
            (Update.foundBefore (checkChange isUppercase) state.toSnapshot.changes)) = _
          rw [PlannerSnapshot.changes, found, stored.foldl_objects within]

/-- A device that has kept its planner as a snapshot has it again after a restart exactly if
every object fits and the snapshot, if it is not empty, has a stamp. -/
theorem restart_iff
    {state : PlannerState}
    (reachable : Reachable isUppercase state)
    (within : state.WithinCaps) :
    fromSnapshot isUppercase state.toSnapshot = .ok state ↔
      (∀ kind ∈ state.toSnapshot.objects, kind.fits = true) ∧
        (state.toSnapshot.objects = [] ∨
          state.toSnapshot.objects.flatMap (fun kind => changeStamps ⟨some kind⟩) ≠ []) := by
  rcases reachable.stored.comes_back_or_fails within with ⟨back, fits⟩ | ⟨failed, unfit⟩
  · exact iff_of_true back fits
  · refine iff_of_false (fun back => ?_) unfit
    rw [back] at failed
    cases failed

/-- A planner with one task comes back. -/
theorem restart_iff_sample :
    fromSnapshot Char.isUpper
        (((applyOp Char.isUpper (sampleTask "d1" "a") "d1").exec .new).2).toSnapshot =
      .ok ((applyOp Char.isUpper (sampleTask "d1" "a") "d1").exec .new).2 :=
  (restart_iff (.op (sampleTask "d1" "a") "d1" .new (by decide +kernel))
    ⟨by decide +kernel, by decide +kernel, by decide +kernel⟩).2
    ⟨by decide +kernel, by decide +kernel⟩

/-- A task, and a measurement to which its device gave no stamp. -/
def sampleBareRecord : PlannerOp where
  changes :=
    (sampleTask "d1" "a").changes ++
      [⟨some (.health { id := "h", day := "2024-01-02", kind := "sleep" })⟩]

/-- The measurement is accepted, nothing but its name is kept, and no restart succeeds. -/
theorem planner_lost_at_restart :
    ¬ ∀ state, Reachable Char.isUpper state -> state.WithinCaps ->
      fromSnapshot Char.isUpper state.toSnapshot = .ok state := by
  intro restored
  have again := restored _ (.op sampleBareRecord "d1" .new (by decide +kernel))
    ⟨by decide +kernel, by decide +kernel, by decide +kernel⟩
  have accepted := congrArg Except.isOk again
  revert accepted
  decide +kernel

end Parvane.Planner
