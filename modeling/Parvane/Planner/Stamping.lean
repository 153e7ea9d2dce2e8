import Parvane.Planner.Stamps

/-!
# Stamping an operation

A host sends its changes without stamps.  The engine sets one stamp on everything in them that
merging compares: on the fields that are there, on occurrences and on tombstones, and on a
record as a whole unless it is deleted.
-/

namespace Parvane.Planner

open Wire Domain Occurring

/-! ## Setting a stamp -/

/-- A message whose own stamp can be set. -/
class Stampable (α : Type) [Stamped α] where
  withStamp : LwwStamp -> α -> α
  stamp_withStamp (stamp : LwwStamp) (value : α) :
    Stamped.stamp (withStamp stamp value) = some stamp

instance : Stampable Str where
  withStamp stamp str := { str with stamp := some stamp }
  stamp_withStamp _ _ := rfl

instance : Stampable U32 where
  withStamp stamp number := { number with stamp := some stamp }
  stamp_withStamp _ _ := rfl

instance : Stampable I32 where
  withStamp stamp number := { number with stamp := some stamp }
  stamp_withStamp _ _ := rfl

instance : Stampable Flag where
  withStamp stamp truth := { truth with stamp := some stamp }
  stamp_withStamp _ _ := rfl

instance : Stampable Steps where
  withStamp stamp steps := { steps with stamp := some stamp }
  stamp_withStamp _ _ := rfl

instance : Stampable Weekdays where
  withStamp stamp weekdays := { weekdays with stamp := some stamp }
  stamp_withStamp _ _ := rfl

instance : Stampable Repeat where
  withStamp stamp rule := { rule with stamp := some stamp }
  stamp_withStamp _ _ := rfl

instance : Stampable Occurrence where
  withStamp stamp occurrence := { occurrence with stamp := some stamp }
  stamp_withStamp _ _ := rfl

instance : Stampable Origin where
  withStamp stamp origin := { origin with stamp := some stamp }
  stamp_withStamp _ _ := rfl

instance : Stampable Source where
  withStamp stamp source := { source with stamp := some stamp }
  stamp_withStamp _ _ := rfl

instance : Stampable Settings where
  withStamp stamp settings := { settings with stamp := some stamp }
  stamp_withStamp _ _ := rfl

instance : Stampable GoalSet where
  withStamp stamp goals := { goals with stamp := some stamp }
  stamp_withStamp _ _ := rfl

instance : Stampable GoalPeriod where
  withStamp stamp period := { period with stamp := some stamp }
  stamp_withStamp _ _ := rfl

instance : Stampable HealthRecord where
  withStamp stamp record := { record with stamp := some stamp }
  stamp_withStamp _ _ := rfl

instance : Stampable QuickLine where
  withStamp stamp line := { line with stamp := some stamp }
  stamp_withStamp _ _ := rfl

instance : Stampable FoodEntry where
  withStamp stamp entry := { entry with stamp := some stamp }
  stamp_withStamp _ _ := rfl

section

variable (stamp : LwwStamp)

/-- Stamp a field if it is there. -/
def stampReg [Stamped α] [Stampable α] (field : Option α) : Option α :=
  field.map (Stampable.withStamp stamp)

/-- Stamp a tombstone if there is one. -/
def stampDeleted (deleted : Option LwwStamp) : Option LwwStamp :=
  deleted.map fun _ => stamp

/-- Stamp a record, or only its tombstone if it is deleted. -/
def stampRecord [Record α] [Stampable α] (record : α) : α :=
  if (Record.deleted record).isSome then Record.withDeleted record (some stamp)
  else Stampable.withStamp stamp record

def stampTask (t : Task) : Task :=
  { t with
    name := stampReg stamp t.name
    description := stampReg stamp t.description
    status := stampReg stamp t.status
    listId := stampReg stamp t.listId
    day := stampReg stamp t.day
    start := stampReg stamp t.start
    due := stampReg stamp t.due
    steps := stampReg stamp t.steps
    rank := stampReg stamp t.rank
    minutes := stampReg stamp t.minutes
    repeatRule := stampReg stamp t.repeatRule
    origin := stampReg stamp t.origin
    source := stampReg stamp t.source
    remind := stampReg stamp t.remind
    occurrences := t.occurrences.map (Stampable.withStamp stamp)
    deleted := stampDeleted stamp t.deleted }

def stampEvent (e : Event) : Event :=
  { e with
    name := stampReg stamp e.name
    start := stampReg stamp e.start
    «end» := stampReg stamp e.end
    day := stampReg stamp e.day
    description := stampReg stamp e.description
    listId := stampReg stamp e.listId
    weekdays := stampReg stamp e.weekdays
    repeatRule := stampReg stamp e.repeatRule
    origin := stampReg stamp e.origin
    allDay := stampReg stamp e.allDay
    isHoliday := stampReg stamp e.isHoliday
    color := stampReg stamp e.color
    remind := stampReg stamp e.remind
    occurrences := e.occurrences.map (Stampable.withStamp stamp)
    deleted := stampDeleted stamp e.deleted }

def stampList (l : TaskList) : TaskList :=
  { l with
    name := stampReg stamp l.name
    order := stampReg stamp l.order
    color := stampReg stamp l.color
    deleted := stampDeleted stamp l.deleted }

def stampDay (d : NutritionDay) : NutritionDay :=
  { d with
    isComplete := stampReg stamp d.isComplete
    fixedGoals := stampReg stamp d.fixedGoals
    waterMl := stampReg stamp d.waterMl
    entries := d.entries.map (stampRecord stamp) }

def stampLearned (w : LearnedWord) : LearnedWord :=
  { w with
    kind := stampReg stamp w.kind
    kindCount := stampReg stamp w.kindCount
    minutes := stampReg stamp w.minutes
    minutesCount := stampReg stamp w.minutesCount
    touched := stampReg stamp w.touched
    deleted := stampDeleted stamp w.deleted }

def stampReminded (r : Reminded) : Reminded :=
  if r.deleted.isSome then { r with deleted := some stamp } else { r with stamp := some stamp }

def stampKind : ChangeKind -> ChangeKind
  | .task t => .task (stampTask stamp t)
  | .event e => .event (stampEvent stamp e)
  | .list l => .list (stampList stamp l)
  | .nutritionDay d => .nutritionDay (stampDay stamp d)
  | .settings s => .settings (Stampable.withStamp stamp s)
  | .goals g => .goals (Stampable.withStamp stamp g)
  | .migration migration => .migration migration
  | .goalPeriod p => .goalPeriod (stampRecord stamp p)
  | .health r => .health (stampRecord stamp r)
  | .learned w => .learned (stampLearned stamp w)
  | .quickLine l => .quickLine (stampRecord stamp l)
  | .reminded r => .reminded (stampReminded stamp r)

end

/-- Set one stamp on all registers of an operation that are there. -/
def stampOp (op : PlannerOp) (stamp : Stamp) : PlannerOp where
  changes := op.changes.map fun change => ⟨change.change.map (stampKind stamp.toPb)⟩

/-! ## What merging compares -/

/-- A register of a change as merging compares it with the one that is stored: its stamp, and
whether it is the content of a deleted record. -/
structure Register where
  stamp : Option LwwStamp
  isBuried : Bool
  deriving DecidableEq

/-- Stamp a register, unless it is the content of a deleted record. -/
def Register.write (stamp : LwwStamp) (register : Register) : Register :=
  if register.isBuried then register else ⟨some stamp, false⟩

/-- The register of a field that may be absent. -/
def fieldRegister [Stamped α] (field : Option α) : List Register :=
  field.toList.map fun value => ⟨Stamped.stamp value, false⟩

def deletedRegister (deleted : Option LwwStamp) : List Register :=
  deleted.toList.map fun stamp => ⟨some stamp, false⟩

/-- The registers of a record that is merged as a whole. -/
def recordRegisters (stamp deleted : Option LwwStamp) : List Register :=
  ⟨stamp, deleted.isSome⟩ :: deletedRegister deleted

/-- The registers of a change, in the order in which they are merged. -/
def registers : ChangeKind -> List Register
  | .task t =>
      fieldRegister t.name ++ fieldRegister t.description ++ fieldRegister t.steps ++
        fieldRegister t.status ++ fieldRegister t.listId ++ fieldRegister t.rank ++
        fieldRegister t.day ++ fieldRegister t.start ++ fieldRegister t.due ++
        fieldRegister t.minutes ++ fieldRegister t.repeatRule ++ fieldRegister t.origin ++
        fieldRegister t.source ++ fieldRegister t.remind ++
        (t.occurrences.map fun occurrence => ⟨occurrence.stamp, false⟩) ++
        deletedRegister t.deleted
  | .event e =>
      fieldRegister e.name ++ fieldRegister e.start ++ fieldRegister e.end ++
        fieldRegister e.weekdays ++ fieldRegister e.day ++ fieldRegister e.repeatRule ++
        fieldRegister e.origin ++ fieldRegister e.allDay ++ fieldRegister e.isHoliday ++
        fieldRegister e.color ++ fieldRegister e.description ++ fieldRegister e.remind ++
        fieldRegister e.listId ++
        (e.occurrences.map fun occurrence => ⟨occurrence.stamp, false⟩) ++
        deletedRegister e.deleted
  | .list l =>
      fieldRegister l.name ++ fieldRegister l.order ++ fieldRegister l.color ++
        deletedRegister l.deleted
  | .nutritionDay d =>
      fieldRegister d.isComplete ++ fieldRegister d.fixedGoals ++ fieldRegister d.waterMl ++
        d.entries.flatMap fun entry => recordRegisters entry.stamp entry.deleted
  | .settings s => [⟨s.stamp, false⟩]
  | .goals g => [⟨g.stamp, false⟩]
  | .migration _ => []
  | .goalPeriod p => recordRegisters p.stamp p.deleted
  | .health r => recordRegisters r.stamp r.deleted
  | .learned w =>
      fieldRegister w.kind ++ fieldRegister w.kindCount ++ fieldRegister w.minutes ++
        fieldRegister w.minutesCount ++ fieldRegister w.touched ++ deletedRegister w.deleted
  | .quickLine l => recordRegisters l.stamp l.deleted
  | .reminded r => recordRegisters r.stamp r.deleted

def PlannerOp.registers (op : PlannerOp) : List Register :=
  op.changes.flatMap fun change => change.change.toList.flatMap Planner.registers

section

variable (stamp : LwwStamp)

theorem fieldRegister_stampReg [Stamped α] [Stampable α] (field : Option α) :
    fieldRegister (stampReg stamp field) = (fieldRegister field).map (.write stamp) := by
  cases field with
  | none => rfl
  | some value =>
      change [Register.mk (Stamped.stamp (Stampable.withStamp stamp value)) false] = _
      rw [Stampable.stamp_withStamp]
      rfl

theorem deletedRegister_stampDeleted (deleted : Option LwwStamp) :
    deletedRegister (stampDeleted stamp deleted) =
      (deletedRegister deleted).map (.write stamp) := by
  cases deleted <;> rfl

theorem registers_occurrences (occurrences : List Occurrence) :
    ((occurrences.map (Stampable.withStamp stamp)).map fun occurrence =>
        (⟨occurrence.stamp, false⟩ : Register)) =
      (occurrences.map fun occurrence => ⟨occurrence.stamp, false⟩).map (.write stamp) := by
  rw [List.map_map, List.map_map]
  rfl

/-- Setting the stamp of a record leaves its tombstone alone. -/
class LawfulStampable (α : Type) [Record α] [Stampable α] : Prop where
  deleted_withStamp (stamp : LwwStamp) (record : α) :
    Record.deleted (Stampable.withStamp stamp record) = Record.deleted record

instance : LawfulStampable GoalPeriod := ⟨fun _ _ => rfl⟩
instance : LawfulStampable HealthRecord := ⟨fun _ _ => rfl⟩
instance : LawfulStampable QuickLine := ⟨fun _ _ => rfl⟩
instance : LawfulStampable FoodEntry := ⟨fun _ _ => rfl⟩

/-- A record gets the stamp; a deleted one gets it on its tombstone only. -/
theorem recordRegisters_stampRecord [Record α] [LawfulRecord α] [Stampable α] [LawfulStampable α]
    (record : α) :
    recordRegisters (Stamped.stamp (stampRecord stamp record))
        (Record.deleted (stampRecord stamp record)) =
      (recordRegisters (Stamped.stamp record) (Record.deleted record)).map (.write stamp) := by
  cases deleted : Record.deleted record with
  | none =>
      rw [stampRecord, deleted, if_neg (by simp), Stampable.stamp_withStamp,
        LawfulStampable.deleted_withStamp, deleted]
      rfl
  | some tombstone =>
      rw [stampRecord, deleted, if_pos Option.isSome_some, LawfulRecord.stamp_withDeleted,
        LawfulRecord.deleted_withDeleted]
      rfl

theorem recordRegisters_stampReminded (mark : Reminded) :
    recordRegisters (stampReminded stamp mark).stamp (stampReminded stamp mark).deleted =
      (recordRegisters mark.stamp mark.deleted).map (.write stamp) := by
  obtain ⟨id, own, deleted⟩ := mark
  cases deleted <;> rfl

/-- Every register of a change gets the stamp, but the content of a deleted record. -/
theorem registers_stampKind (kind : ChangeKind) :
    registers (stampKind stamp kind) = (registers kind).map (.write stamp) := by
  cases kind with
  | task task =>
      simp only [registers, stampKind, stampTask, fieldRegister_stampReg,
        deletedRegister_stampDeleted, registers_occurrences, List.map_append]
  | event event =>
      simp only [registers, stampKind, stampEvent, fieldRegister_stampReg,
        deletedRegister_stampDeleted, registers_occurrences, List.map_append]
  | list list =>
      simp only [registers, stampKind, stampList, fieldRegister_stampReg,
        deletedRegister_stampDeleted, List.map_append]
  | nutritionDay day =>
      simp only [registers, stampKind, stampDay, fieldRegister_stampReg, List.map_append]
      rw [List.flatMap_map, List.map_flatMap]
      exact congrArg _ (List.flatMap_congr fun entry _ =>
        recordRegisters_stampRecord stamp entry)
  | settings settings => rfl
  | goals goals => rfl
  | migration migration => rfl
  | goalPeriod period => exact recordRegisters_stampRecord stamp period
  | health record => exact recordRegisters_stampRecord stamp record
  | learned word =>
      simp only [registers, stampKind, stampLearned, fieldRegister_stampReg,
        deletedRegister_stampDeleted, List.map_append]
  | quickLine line => exact recordRegisters_stampRecord stamp line
  | reminded mark => exact recordRegisters_stampReminded stamp mark

end

theorem registers_stampOp (op : PlannerOp) (stamp : Stamp) :
    (stampOp op stamp).registers = op.registers.map (.write stamp.toPb) := by
  rw [stampOp, PlannerOp.registers, PlannerOp.registers, List.flatMap_map, List.map_flatMap]
  apply List.flatMap_congr
  intro change _
  cases change.change with
  | none => rfl
  | some kind =>
      change registers (stampKind stamp.toPb kind) ++ [] = (registers kind ++ []).map _
      rw [List.append_nil, List.append_nil, registers_stampKind]

/-! ## The stamps of the registers -/

theorem stamps_fieldRegister [Stamped α] (field : Option α) :
    (fieldRegister field).filterMap Register.stamp = regStamp field := by
  cases field with
  | none => rfl
  | some value =>
      rw [fieldRegister, Option.toList_some, List.map_singleton, List.filterMap_cons, regStamp,
        Option.bind_some]
      cases Stamped.stamp value <;> rfl

theorem stamps_deletedRegister (deleted : Option LwwStamp) :
    (deletedRegister deleted).filterMap Register.stamp = deleted.toList := by
  cases deleted <;> rfl

theorem stamps_recordRegisters (stamp deleted : Option LwwStamp) :
    (recordRegisters stamp deleted).filterMap Register.stamp =
      stamp.toList ++ deleted.toList := by
  cases stamp <;> cases deleted <;> rfl

theorem stamps_single (stamp : Option LwwStamp) :
    [(⟨stamp, false⟩ : Register)].filterMap Register.stamp = stamp.toList := by
  cases stamp <;> rfl

theorem stamps_occurrences (occurrences : List Occurrence) :
    (occurrences.map fun occurrence => (⟨occurrence.stamp, false⟩ : Register)).filterMap
        Register.stamp =
      occurrences.filterMap Occurrence.stamp := by
  rw [List.filterMap_map]
  rfl

/-- The stamps of the registers of a change are all stamps in it. -/
theorem stamps_registers_perm (kind : ChangeKind) :
    ((registers kind).filterMap Register.stamp).Perm (stampsIn kind) := by
  rw [← stampsIn_change]
  refine List.Perm.trans ?_ (changeStamps_perm ⟨some kind⟩)
  apply List.perm_iff_count.2
  intro stamp
  cases kind with
  | task task =>
      rw [registers, changeStamps]
      simp only [List.filterMap_append, stamps_fieldRegister, stamps_deletedRegister,
        stamps_occurrences, List.flatMap_cons, List.flatMap_nil, List.count_append,
        List.count_nil]
      omega
  | event event =>
      rw [registers, changeStamps]
      simp only [List.filterMap_append, stamps_fieldRegister, stamps_deletedRegister,
        stamps_occurrences, List.flatMap_cons, List.flatMap_nil, List.count_append,
        List.count_nil]
      omega
  | list list =>
      rw [registers, changeStamps]
      simp only [List.filterMap_append, stamps_fieldRegister, stamps_deletedRegister]
  | nutritionDay day =>
      rw [registers, changeStamps]
      simp only [List.filterMap_append, stamps_fieldRegister, List.filterMap_flatMap,
        stamps_recordRegisters]
  | settings settings => rw [registers, changeStamps, stamps_single]
  | goals goals => rw [registers, changeStamps, stamps_single]
  | migration migration => rfl
  | goalPeriod period => rw [registers, changeStamps, stamps_recordRegisters]
  | health record => rw [registers, changeStamps, stamps_recordRegisters]
  | learned word =>
      rw [registers, changeStamps]
      simp only [List.filterMap_append, stamps_fieldRegister, stamps_deletedRegister,
        List.flatMap_cons, List.flatMap_nil, List.count_append, List.count_nil]
      omega
  | quickLine line => rw [registers, changeStamps, stamps_recordRegisters]
  | reminded mark => rw [registers, changeStamps, stamps_recordRegisters]

theorem stamps_op_perm (op : PlannerOp) :
    (op.registers.filterMap Register.stamp).Perm (stampsIn op) := by
  obtain ⟨changes⟩ := op
  rw [PlannerOp.registers, List.filterMap_flatMap, stampsIn_op]
  refine List.Perm.flatMap_left changes fun change _ => ?_
  obtain ⟨kind⟩ := change
  cases kind with
  | none => exact List.Perm.refl _
  | some kind =>
      change ((registers kind ++ []).filterMap Register.stamp).Perm (held LwwStamp (some kind))
      rw [List.append_nil, held_some]
      exact stamps_registers_perm kind

/-- In a stamped operation every register has the stamp, but the content of a deleted record. -/
theorem stamp_of_stampOp {op : PlannerOp} {stamp : Stamp} {register : Register}
    (member : register ∈ (stampOp op stamp).registers) :
    register.stamp = some stamp.toPb ∨
      register.isBuried = true ∧ register ∈ op.registers := by
  rw [registers_stampOp] at member
  obtain ⟨before, inside, rfl⟩ := List.mem_map.1 member
  rw [Register.write]
  by_cases buried : before.isBuried = true
  · rw [if_pos buried]
    exact .inr ⟨buried, inside⟩
  · rw [if_neg buried]
    exact .inl rfl

/-- If no deleted record has a stamp of its own, the only stamp in a stamped operation is the
one that was set. -/
theorem eq_of_mem_stampsIn_stampOp {op : PlannerOp}
    (bare : ∀ register ∈ op.registers, register.isBuried = true -> register.stamp = none)
    {stamp : Stamp} {found : LwwStamp}
    (member : found ∈ stampsIn (stampOp op stamp)) : found = stamp.toPb := by
  obtain ⟨register, inside, isFound⟩ :=
    List.mem_filterMap.1 ((stamps_op_perm (stampOp op stamp)).mem_iff.2 member)
  rcases stamp_of_stampOp inside with written | ⟨buried, kept⟩
  · rw [written] at isFound
    exact (Option.some.inj isFound).symm
  · rw [bare register kept buried] at isFound
    cases isFound

/-! ## All stamps are checked and set -/

/-- A record of measurements that is deleted, but has the stamp of another device. -/
def sampleBuried : PlannerOp where
  changes := [⟨some (.health {
    id := "h"
    stamp := some ⟨9, "d2"⟩
    deleted := some ⟨0, ""⟩ })⟩]

/-- A task with two stamps, the second farther above the first than a stamp may jump. -/
def sampleClimb : PlannerOp where
  changes := [⟨some (.task {
    id := "t"
    name := some ⟨some ⟨0x100000, "d1"⟩, "milk"⟩
    description := some ⟨some ⟨0x200000, "d1"⟩, "two bottles"⟩ })⟩]

/-- Stamping leaves the stamp of a deleted record as it is, and the stamps of one operation can
climb above the limit that the guard had before it. -/
theorem stamps_left_and_above :
    (¬ ∀ (op : PlannerOp) (stamp : Stamp), ∀ register ∈ (stampOp op stamp).registers,
      register.stamp = some stamp.toPb) ∧
    ¬ ∀ (op : PlannerOp) (guard later : Shared.LamportGuard) (device : String)
        (state : PlannerState),
      (guardOp op).exec guard = (.ok (), later) ->
      ((applyOp Char.isUpper op device).exec state).1.isOk = true ->
      ∀ stamp ∈ stampsIn op,
        stamp.lamport ≤ Shared.saturatingAdd guard.maxSeen Shared.lamportMaxJump := by
  constructor
  · intro all
    have written := all sampleBuried ⟨10, "d1"⟩ ⟨some ⟨9, "d2"⟩, true⟩ (by decide)
    cases written
  · intro below
    have bound := below sampleClimb {} ⟨0x200000⟩ "d1" .new (by decide +kernel)
      (by decide +kernel) ⟨0x200000, "d1"⟩ (by decide)
    revert bound
    decide +kernel

/-- The stamps of an operation are all stamps in it.  If it is applied, they are of its author
device, and if the guard let it pass, each was close to those before it.  Setting a stamp sets
it on every register, but not on the content of a deleted record.  The stamps of a snapshot are
all stamps in it, and none that the guard lets pass is above its limit. -/
theorem stamps_checked_and_set (isUppercase : Char -> Bool) :
    (∀ op, ((opStamps op).isOk = true ↔
        stampsIn op ≠ [] ∧ ∀ stamp ∈ stampsIn op, IsValidStamp stamp) ∧
      ∀ stamps, opStamps op = .ok stamps -> (stamps.map Stamp.toPb).Perm (stampsIn op)) ∧
    (∀ op device state, ((applyOp isUppercase op device).exec state).1.isOk = true ->
      ∀ stamp ∈ stampsIn op, IsValidStamp stamp ∧ stamp.deviceId = device) ∧
    (∀ op guard later, (guardOp op).exec guard = (.ok (), later) ->
      ∃ stamps, opStamps op = .ok stamps ∧ StepsWithin guard.maxSeen stamps ∧
        later.maxSeen = max guard.maxSeen (greatestLamport stamps)) ∧
    (∀ op stamp, (op.registers.filterMap Register.stamp).Perm (stampsIn op) ∧
      (stampOp op stamp).registers = op.registers.map (.write stamp.toPb) ∧
      ((∀ register ∈ op.registers, register.isBuried = true -> register.stamp = none) ->
        ∀ found ∈ stampsIn (stampOp op stamp), found = stamp.toPb)) ∧
    (∀ snapshot stamps, snapshotStamps snapshot = .ok stamps ->
      (stamps.map Stamp.toPb).Perm (stampsIn snapshot)) ∧
    (∀ snapshot uptoSeq guard later,
      (guardSnapshot snapshot uptoSeq).exec guard = (.ok (), later) ->
        ∀ stamp ∈ stampsIn snapshot, stamp.lamport ≤ lamportLimit guard uptoSeq) := by
  refine ⟨fun op => ⟨isOk_opStamps_iff op, fun stamps => opStamps_perm⟩, ?_, ?_, ?_, ?_, ?_⟩
  · intro op device state accepted stamp member
    exact deviceId_of_applyOp accepted member
  · intro op guard later passes
    exact guardOp_bounds passes
  · intro op stamp
    refine ⟨stamps_op_perm op, registers_stampOp op stamp, fun bare found member => ?_⟩
    exact eq_of_mem_stampsIn_stampOp bare member
  · intro snapshot stamps stamped
    exact snapshotStamps_perm stamped
  · intro snapshot uptoSeq guard later passes stamp member
    exact guardSnapshot_bounds passes member

end Parvane.Planner
