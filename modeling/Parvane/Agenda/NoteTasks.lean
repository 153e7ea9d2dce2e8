import Parvane.Agenda.Past

/-!
# Tasks of a note

The lines of a note with a day are tasks.  A line has a marker: the task of the line has an id
made of the marker, and remembers the note and the marker in its source.  Tasks are written by
their ids, and taken away by their sources.
-/

namespace Parvane.Agenda

open Wire (Bytes utf8)

structure NoteTaskPlan where
  marker : String
  name : String
  isDone : Bool
  day : Option String
  start : Option String
  minutes : Option Int
  due : Option String
  deriving DecidableEq

/-- Two digits of sixteen for each byte. -/
def hexDigits (bytes : Bytes) : List Char :=
  bytes.flatMap fun byte => [Nat.digitChar (byte.toNat / 16), Nat.digitChar (byte.toNat % 16)]

def markerToOpId (marker : String) : String :=
  String.ofList (hexDigits (utf8 marker))

def hexValue (c : UInt8) : Option Nat :=
  let code := c.toNat
  if 48 ≤ code ∧ code ≤ 57 then some (code - 48)
  else if 97 ≤ code ∧ code ≤ 102 then some (code - 97 + 10)
  else if 65 ≤ code ∧ code ≤ 70 then some (code - 65 + 10)
  else none

/-- The character that two digits stand for; a wrong first digit is the character zero, and a
wrong second one is left out. -/
def charOfDigits (high low : UInt8) : Char :=
  match hexValue high with
  | none => Char.ofNat 0
  | some high =>
      match hexValue low with
      | none => Char.ofNat high
      | some low => Char.ofNat (high * 16 + low)

/-- The characters of pairs of digits; a single digit at the end is dropped. -/
def charsOfDigits : Bytes -> List Char
  | high :: low :: rest => charOfDigits high low :: charsOfDigits rest
  | _ => []

def isDone (task : Task) : Bool :=
  task.status == "done"

def sameFields (task : Task) (plan : NoteTaskPlan) : Bool :=
  task.name == plan.name && task.day == plan.day && task.start == plan.start &&
    task.minutes == plan.minutes && task.due == plan.due

def putFields (task : Task) (plan : NoteTaskPlan) : Task :=
  { task with
    name := plan.name
    day := plan.day
    start := plan.start
    minutes := plan.minutes
    due := plan.due }

def sourceChat (task : Task) : Option String :=
  task.source.map Source.chat

def kNoteSourcePrefix : String :=
  "note:"

def noteSourceOf (noteId : String) : String :=
  kNoteSourcePrefix ++ noteId

def markerOfTask (task : Task) : String :=
  let opId := (task.source.map Source.opId).getD ""
  String.ofList (charsOfDigits (utf8 opId))

def noteTaskId (marker : String) : String :=
  "note-" ++ marker

/-- The note that a task is of. -/
def noteOfTask (task : Task) : Option String :=
  (sourceChat task).bind fun chat =>
    if kNoteSourcePrefix.toList.isPrefixOf chat.toList then
      some (String.ofList (chat.toList.drop kNoteSourcePrefix.toList.length))
    else none

def getNoteTasks (state : State) (noteId : String) : List Task :=
  state.tasks.filter fun task => noteOfTask task == some noteId

/-- The task is not as the plan says. -/
def needsPlan (tasks : List Task) (plan : NoteTaskPlan) : Bool :=
  match findIn tasks (noteTaskId plan.marker) with
  | none => true
  | some task => !sameFields task plan || isDone task != plan.isDone

def hasNoteTaskChanges (state : State) (noteId : String) (tasks : List NoteTaskPlan) : Bool :=
  let markers := tasks.map NoteTaskPlan.marker
  ((getNoteTasks state noteId).any fun task => !markers.contains (markerOfTask task)) ||
    tasks.any (needsPlan state.tasks)

/-! ## Writing -/

/-- The tasks while they are written, with the least rank and whether anything was changed. -/
structure Written where
  tasks : List Task
  minRank : Float
  hasChanges : Bool

def statusOf (plan : NoteTaskPlan) : String :=
  if plan.isDone then "done" else "queue"

def putStatus (task : Task) (plan : NoteTaskPlan) : Task :=
  if isDone task != plan.isDone then { task with status := statusOf plan } else task

/-- A task as the plan says. -/
def putPlan (task : Task) (plan : NoteTaskPlan) : Task :=
  putStatus (if sameFields task plan then task else putFields task plan) plan

def createdTask (source : String) (plan : NoteTaskPlan) (rank : Float) : Task where
  id := noteTaskId plan.marker
  name := plan.name
  description := ""
  steps := []
  status := statusOf plan
  project := ""
  rank := rank
  day := plan.day
  start := plan.start
  due := plan.due
  minutes := plan.minutes
  repeatRule := none
  occurrences := none
  origin := none
  source := some ⟨source, markerToOpId plan.marker⟩
  remind := none
  instanceDay := none

def applyPlan (source : String) (written : Written) (plan : NoteTaskPlan) : Written :=
  let id := noteTaskId plan.marker
  match findIn written.tasks id with
  | some existing =>
      { written with
        tasks := putFirst written.tasks id (putPlan existing plan)
        hasChanges :=
          written.hasChanges || !sameFields existing plan || isDone existing != plan.isDone }
  | none =>
      let minRank := written.minRank - 1
      ⟨written.tasks ++ [createdTask source plan minRank], minRank, true⟩

/-- A task of the note whose line is gone. -/
def isStale (source : String) (markers : List String) (task : Task) : Bool :=
  sourceChat task == some source && !markers.contains (markerOfTask task)

/-- The tasks without the stale ones of the note. -/
def keptTasks (noteId : String) (plans : List NoteTaskPlan) (tasks : List Task) : List Task :=
  tasks.filter fun task =>
    !isStale (noteSourceOf noteId) (plans.map NoteTaskPlan.marker) task

def leastRank (tasks : List Task) : Float :=
  tasks.foldl (fun minRank task => if task.rank < minRank then task.rank else minRank) 0

/-- The tasks before any plan is written. -/
def unwritten (state : State) (noteId : String) (tasks : List NoteTaskPlan) : Written :=
  let kept := keptTasks noteId tasks state.tasks
  ⟨kept, leastRank kept, kept.length != state.tasks.length⟩

def applyNoteTasks (state : State) (noteId : String) (tasks : List NoteTaskPlan) : State × Bool :=
  let written := tasks.foldl (applyPlan (noteSourceOf noteId)) (unwritten state noteId tasks)
  ({ state with tasks := written.tasks }, written.hasChanges)

/-! ## Markers -/

/-- Every character of a text is one of the first 128. -/
def IsAscii (text : String) : Prop :=
  ∀ c ∈ text.toList, c.toNat < 128

instance (text : String) : Decidable (IsAscii text) :=
  inferInstanceAs (Decidable (∀ c ∈ text.toList, c.toNat < 128))

theorem utf8_ofList {letters : List Char} (ascii : ∀ c ∈ letters, c.toNat < 128) :
    utf8 (String.ofList letters) = letters.map fun c => c.toNat.toUInt8 := by
  rw [utf8, String.toByteArray_ofList]
  induction letters with
  | nil => rfl
  | cons letter letters inductionHypothesis =>
      have small := ascii letter List.mem_cons_self
      have oneByte : letter.utf8Size = 1 :=
        Char.utf8Size_eq_one_iff.2 (UInt32.le_iff_toNat_le.2 (Nat.le_of_lt_succ small))
      have rest := inductionHypothesis fun c member => ascii c (List.mem_cons_of_mem _ member)
      rw [List.utf8Encode_cons, List.utf8Encode_singleton,
        String.utf8EncodeChar_eq_singleton oneByte]
      simp only [ByteArray.data_append, List.data_toByteArray, Array.toList_append, rest,
        List.singleton_append, List.map_cons]
      rfl

theorem hexValue_digitChar :
    ∀ digit < 16, hexValue (Nat.digitChar digit).toNat.toUInt8 = some digit := by
  decide

theorem digitChar_small : ∀ digit < 16, (Nat.digitChar digit).toNat < 128 := by
  decide

/-- Digits that were written are read as the characters. -/
theorem charsOfDigits_hexDigits {letters : List Char} (ascii : ∀ c ∈ letters, c.toNat < 128) :
    charsOfDigits ((hexDigits (letters.map fun c => c.toNat.toUInt8)).map fun c =>
      c.toNat.toUInt8) = letters := by
  induction letters with
  | nil => rfl
  | cons letter letters inductionHypothesis =>
      have small := ascii letter List.mem_cons_self
      have rest := inductionHypothesis fun c member => ascii c (List.mem_cons_of_mem _ member)
      have code : letter.toNat.toUInt8.toNat = letter.toNat :=
        Nat.mod_eq_of_lt (show letter.toNat < 2 ^ 8 by omega)
      unfold hexDigits at rest ⊢
      rw [List.map_cons, List.flatMap_cons, List.map_append, List.map_cons, List.map_cons,
        List.map_nil, List.cons_append, List.cons_append, List.nil_append, charsOfDigits, rest,
        charOfDigits, code, hexValue_digitChar _ (by omega), hexValue_digitChar _ (by omega)]
      dsimp only
      rw [Nat.div_add_mod', Char.ofNat_toNat]

/-- The marker of a task is read from the source that it was written to. -/
theorem markerOfTask_createdTask {plan : NoteTaskPlan}
    (ascii : IsAscii plan.marker) (source : String)
    (rank : Float) : markerOfTask (createdTask source plan rank) = plan.marker := by
  have digits : ∀ c ∈ hexDigits (plan.marker.toList.map fun c => c.toNat.toUInt8),
      c.toNat < 128 := by
    intro c member
    obtain ⟨byte, -, isDigit⟩ := List.mem_flatMap.1 member
    have small := byte.toNat_lt
    rcases List.mem_cons.1 isDigit with rfl | isDigit
    · exact digitChar_small _ (by omega)
    · rw [List.mem_singleton.1 isDigit]
      exact digitChar_small _ (by omega)
  have bytes := utf8_ofList ascii
  rw [String.ofList_toList] at bytes
  unfold markerOfTask createdTask markerToOpId
  dsimp only [Option.map_some, Option.getD_some]
  rw [bytes, utf8_ofList digits, charsOfDigits_hexDigits ascii, String.ofList_toList]

/-! ## One task -/

section

variable {task : Task} {plan : NoteTaskPlan}

/-- The task has the fields and the done flag of the plan. -/
def Follows (task : Task) (plan : NoteTaskPlan) : Prop :=
  sameFields task plan = true ∧ isDone task = plan.isDone

theorem sameFields_iff :
    sameFields task plan = true ↔
      task.name = plan.name ∧ task.day = plan.day ∧ task.start = plan.start ∧
        task.minutes = plan.minutes ∧ task.due = plan.due := by
  unfold sameFields
  simp only [Bool.and_eq_true, beq_iff_eq, and_assoc]

theorem follows_iff :
    Follows task plan ↔ (!sameFields task plan || isDone task != plan.isDone) = false := by
  unfold Follows
  rw [Bool.or_eq_false_iff, Bool.not_eq_false', bne_eq_false_iff_eq]

theorem isDone_statusOf : (statusOf plan == "done") = plan.isDone := by
  unfold statusOf
  cases plan.isDone
  · rfl
  · rfl

theorem sameFields_putStatus : sameFields (putStatus task plan) plan = sameFields task plan := by
  unfold putStatus
  split
  case isTrue => rfl
  case isFalse => rfl

theorem isDone_putStatus : isDone (putStatus task plan) = plan.isDone := by
  unfold putStatus
  split
  case isTrue => exact isDone_statusOf
  case isFalse same => simpa using same

theorem follows_putPlan (task : Task) (plan : NoteTaskPlan) : Follows (putPlan task plan) plan := by
  refine ⟨?_, isDone_putStatus⟩
  rw [putPlan, sameFields_putStatus]
  split
  case isTrue same => exact same
  case isFalse => exact sameFields_iff.2 ⟨rfl, rfl, rfl, rfl, rfl⟩

theorem putPlan_eq_self_iff : putPlan task plan = task ↔ Follows task plan := by
  constructor
  · intro same
    have follows := follows_putPlan task plan
    rwa [same] at follows
  · rintro ⟨fields, done⟩
    rw [putPlan, if_pos fields, putStatus, done, bne_self_eq_false, if_neg Bool.false_ne_true]

theorem id_putPlan : (putPlan task plan).id = task.id := by
  unfold putPlan putStatus
  split <;> split <;> rfl

theorem source_putPlan : (putPlan task plan).source = task.source := by
  unfold putPlan putStatus
  split <;> split <;> rfl

theorem follows_createdTask (source : String) (plan : NoteTaskPlan) (rank : Float) :
    Follows (createdTask source plan rank) plan :=
  ⟨sameFields_iff.2 ⟨rfl, rfl, rfl, rfl, rfl⟩, isDone_statusOf⟩

theorem noteTaskId_inj {marker other : String} : noteTaskId marker = noteTaskId other ↔
    marker = other := by
  unfold noteTaskId
  exact String.append_right_inj _

end

/-! ## Lookups -/

section

variable {tasks : List Task} {source id other : String} {written : Written}
  {plan : NoteTaskPlan} {plans : List NoteTaskPlan}

theorem putFirst_self {task : Task}
    (found : findIn tasks id = some task) : putFirst tasks id task = tasks := by
  induction tasks with
  | nil => rfl
  | cons head rest inductionHypothesis =>
      unfold findIn at found inductionHypothesis
      unfold putFirst
      rw [List.find?_cons] at found
      split
      case isTrue isHead =>
        rw [isHead] at found
        cases found
        rfl
      case isFalse isLater =>
        rw [Bool.not_eq_true] at isLater
        rw [isLater] at found
        rw [inductionHypothesis found]

theorem findIn_putFirst_ne {next : Task}
    (isOther : other ≠ id)
    (sameId : next.id = id) : findIn (putFirst tasks id next) other = findIn tasks other := by
  induction tasks with
  | nil => rfl
  | cons head rest inductionHypothesis =>
      unfold findIn at inductionHypothesis ⊢
      unfold putFirst
      split
      case isTrue isHead =>
        have headId : head.id = id := beq_iff_eq.1 isHead
        have notHead {task : Task} (isId : task.id = id) : (Item.id task == other) = false :=
          beq_false_of_ne fun same => isOther (same.symm.trans isId)
        rw [List.find?_cons, List.find?_cons, notHead sameId, notHead headId]
      case isFalse =>
        rw [List.find?_cons, List.find?_cons, inductionHypothesis]

/-- What writing leaves of a task. -/
def stampOf (task : Task) : String × Option Source :=
  (task.id, task.source)

theorem stamps_putFirst {existing next : Task}
    (found : findIn tasks id = some existing) (sameStamp : stampOf next = stampOf existing) :
    (putFirst tasks id next).map stampOf = tasks.map stampOf := by
  induction tasks with
  | nil => rfl
  | cons head rest inductionHypothesis =>
      unfold findIn at found inductionHypothesis
      unfold putFirst
      rw [List.find?_cons] at found
      split
      case isTrue isHead =>
        rw [isHead] at found
        cases found
        rw [List.map_cons, List.map_cons, sameStamp]
      case isFalse isLater =>
        rw [Bool.not_eq_true] at isLater
        rw [isLater] at found
        rw [List.map_cons, List.map_cons, inductionHypothesis found]

theorem needsPlan_eq_false_iff :
    needsPlan tasks plan = false ↔
      ∃ task, findIn tasks (noteTaskId plan.marker) = some task ∧ Follows task plan := by
  unfold needsPlan
  cases findIn tasks (noteTaskId plan.marker) with
  | none => simp
  | some task => simp only [Option.some.injEq, exists_eq_left', follows_iff]

/-! ## One plan -/

theorem findIn_applyPlan (source : String) (written : Written) (plan : NoteTaskPlan) :
    ∃ task, findIn (applyPlan source written plan).tasks (noteTaskId plan.marker) = some task ∧
      Follows task plan := by
  unfold applyPlan
  dsimp only
  split
  case h_1 existing found =>
    have sameId : (putPlan existing plan).id = noteTaskId plan.marker :=
      id_putPlan.trans (id_of_findIn found)
    have isFirst := @findIn_putFirst _ _ _ written.tasks [] _ _ found sameId
    rw [List.append_nil] at isFirst
    exact ⟨_, isFirst, follows_putPlan existing plan⟩
  case h_2 notFound =>
    refine ⟨_, ?_, follows_createdTask source plan (written.minRank - 1)⟩
    unfold findIn at notFound ⊢
    rw [List.find?_append, notFound, Option.none_or, List.find?_singleton]
    exact if_pos (beq_self_eq_true _)

theorem findIn_applyPlan_ne (isOther : other ≠ noteTaskId plan.marker) :
    findIn (applyPlan source written plan).tasks other = findIn written.tasks other := by
  unfold applyPlan
  dsimp only
  split
  case h_1 existing found =>
    exact findIn_putFirst_ne isOther (id_putPlan.trans (id_of_findIn found))
  case h_2 =>
    unfold findIn
    rw [List.find?_append, List.find?_singleton]
    have notCreated : ¬(Item.id (createdTask source plan (written.minRank - 1)) == other) = true :=
      fun same => isOther (beq_iff_eq.1 same).symm
    rw [if_neg notCreated, Option.or_none]

theorem needsPlan_applyPlan (source : String) (written : Written) (plan : NoteTaskPlan) :
    needsPlan (applyPlan source written plan).tasks plan = false :=
  needsPlan_eq_false_iff.2 (findIn_applyPlan source written plan)

theorem needsPlan_applyPlan_ne {second : NoteTaskPlan} (isOther : second.marker ≠ plan.marker) :
    needsPlan (applyPlan source written plan).tasks second = needsPlan written.tasks second := by
  unfold needsPlan
  rw [findIn_applyPlan_ne fun same => isOther (noteTaskId_inj.1 same)]

theorem hasChanges_applyPlan :
    (applyPlan source written plan).hasChanges =
      (written.hasChanges || needsPlan written.tasks plan) := by
  unfold applyPlan needsPlan
  dsimp only
  cases findIn written.tasks (noteTaskId plan.marker) with
  | none => exact (Bool.or_true _).symm
  | some existing => exact Bool.or_assoc _ _ _

/-- A plan that is not needed is not written. -/
theorem applyPlan_eq_self (settled : needsPlan written.tasks plan = false) :
    applyPlan source written plan = written := by
  obtain ⟨task, found, follows⟩ := needsPlan_eq_false_iff.1 settled
  unfold applyPlan
  dsimp only
  rw [found]
  dsimp only
  rw [putPlan_eq_self_iff.2 follows, putFirst_self found, Bool.or_assoc, follows_iff.1 follows,
    Bool.or_false]

/-- The stamp of a task that is made for a plan. -/
def stampFor (source : String) (plan : NoteTaskPlan) : String × Option Source :=
  (noteTaskId plan.marker, some ⟨source, markerToOpId plan.marker⟩)

theorem mem_stamps_applyPlan {stamp : String × Option Source} :
    stamp ∈ (applyPlan source written plan).tasks.map stampOf ↔
      stamp ∈ written.tasks.map stampOf ∨
        findIn written.tasks (noteTaskId plan.marker) = none ∧ stamp = stampFor source plan := by
  unfold applyPlan
  dsimp only
  split
  case h_1 existing found =>
    have sameStamp : stampOf (putPlan existing plan) = stampOf existing :=
      Prod.ext id_putPlan source_putPlan
    rw [stamps_putFirst found sameStamp, found]
    simp
  case h_2 notFound =>
    rw [List.map_append, List.mem_append, notFound, List.map_singleton, List.mem_singleton]
    simp [createdTask, stampOf, stampFor]

/-! ## A list of plans -/

/-- Plans with one marker are one plan. -/
def Alike (plans : List NoteTaskPlan) : Prop :=
  ∀ first ∈ plans, ∀ second ∈ plans, first.marker = second.marker -> first = second

theorem Alike.tail (alike : Alike (plan :: plans)) : Alike plans :=
  fun first isFirst second isSecond =>
    alike first (List.mem_cons_of_mem _ isFirst) second (List.mem_cons_of_mem _ isSecond)

theorem alike_of_nodup (distinct : (plans.map NoteTaskPlan.marker).Nodup) : Alike plans :=
  fun _ isFirst _ isSecond same => List.inj_on_of_nodup_map distinct isFirst isSecond same

/-- What is as a plan says stays so when others with its marker say the same. -/
theorem needsPlan_foldl_of_settled
    (agree : ∀ second ∈ plans, second.marker = plan.marker -> second = plan)
    (settled : needsPlan written.tasks plan = false) :
    needsPlan (plans.foldl (applyPlan source) written).tasks plan = false := by
  induction plans generalizing written with
  | nil => exact settled
  | cons second rest inductionHypothesis =>
      refine inductionHypothesis
        (fun third member => agree third (List.mem_cons_of_mem _ member)) ?_
      by_cases same : second.marker = plan.marker
      · rw [agree second List.mem_cons_self same]
        exact needsPlan_applyPlan source written plan
      · rw [needsPlan_applyPlan_ne (Ne.symm same), settled]

theorem needsPlan_foldl
    (alike : Alike plans) (member : plan ∈ plans) :
    needsPlan (plans.foldl (applyPlan source) written).tasks plan = false := by
  induction plans generalizing written with
  | nil => exact absurd member List.not_mem_nil
  | cons second rest inductionHypothesis =>
      rw [List.foldl_cons]
      rcases List.mem_cons.1 member with rfl | isLater
      · refine needsPlan_foldl_of_settled ?_ (needsPlan_applyPlan source written plan)
        intro third isThird same
        exact alike third (List.mem_cons_of_mem _ isThird) plan List.mem_cons_self same
      · exact inductionHypothesis alike.tail isLater

theorem findIn_foldl_ne (isOther : ∀ plan ∈ plans, other ≠ noteTaskId plan.marker) :
    findIn (plans.foldl (applyPlan source) written).tasks other = findIn written.tasks other := by
  induction plans generalizing written with
  | nil => rfl
  | cons plan rest inductionHypothesis =>
      rw [List.foldl_cons,
        inductionHypothesis fun second member => isOther second (List.mem_cons_of_mem _ member),
        findIn_applyPlan_ne (isOther plan List.mem_cons_self)]

/-- Something is changed exactly when some plan is needed beforehand. -/
theorem hasChanges_foldl (alike : Alike plans) :
    (plans.foldl (applyPlan source) written).hasChanges =
      (written.hasChanges || plans.any (needsPlan written.tasks)) := by
  induction plans generalizing written with
  | nil => exact (Bool.or_false _).symm
  | cons plan rest inductionHypothesis =>
      rw [List.foldl_cons, inductionHypothesis alike.tail, hasChanges_applyPlan, List.any_cons,
        Bool.or_assoc]
      cases needed : needsPlan written.tasks plan with
      | false => rw [applyPlan_eq_self needed]
      | true => rw [Bool.true_or, Bool.true_or]

theorem foldl_eq_self (settled : ∀ plan ∈ plans, needsPlan written.tasks plan = false) :
    plans.foldl (applyPlan source) written = written := by
  induction plans with
  | nil => rfl
  | cons plan rest inductionHypothesis =>
      rw [List.foldl_cons, applyPlan_eq_self (settled plan List.mem_cons_self)]
      exact inductionHypothesis fun second member => settled second (List.mem_cons_of_mem _ member)

/-- A stamp of the written tasks is an old one, or one of a plan without a task. -/
theorem mem_stamps_foldl {stamp : String × Option Source} :
    stamp ∈ (plans.foldl (applyPlan source) written).tasks.map stampOf ↔
      stamp ∈ written.tasks.map stampOf ∨
        ∃ plan ∈ plans, findIn written.tasks (noteTaskId plan.marker) = none ∧
          stamp = stampFor source plan := by
  induction plans generalizing written with
  | nil => simp
  | cons plan rest inductionHypothesis =>
      rw [List.foldl_cons, inductionHypothesis, mem_stamps_applyPlan, List.exists_mem_cons_iff,
        or_assoc]
      refine or_congr_right ?_
      by_cases isNew : findIn written.tasks (noteTaskId plan.marker) = none ∧
          stamp = stampFor source plan
      · exact iff_of_true (.inl isNew) (.inl isNew)
      · refine or_congr_right (exists_congr fun second => and_congr_right fun _ =>
          and_congr_left fun isStamp => ?_)
        by_cases same : second.marker = plan.marker
        · -- the first plan of a marker has left a task for the others
          obtain ⟨task, found, -⟩ := findIn_applyPlan source written plan
          have sameStamp : stampFor source second = stampFor source plan := by
            rw [stampFor, same, stampFor]
          rw [same, found]
          exact iff_of_false (fun isNone => by cases isNone)
            fun notFound => isNew ⟨notFound, isStamp.trans sameStamp⟩
        · rw [findIn_applyPlan_ne fun sameId => same (noteTaskId_inj.1 sameId)]

end

/-! ## A note -/

section

variable {state : State} {task other : Task} {tasks : List Task} {noteId : String}
  {plan : NoteTaskPlan} {plans : List NoteTaskPlan}

/-- The note that is read from a source is the one that the source was made of. -/
theorem noteOfTask_eq_some_iff :
    noteOfTask task = some noteId ↔ sourceChat task = some (noteSourceOf noteId) := by
  unfold noteOfTask noteSourceOf
  cases sourceChat task with
  | none => simp
  | some chat =>
      rw [Option.bind_some, Option.ite_none_right_eq_some, Option.some.injEq, Option.some.injEq,
        List.isPrefixOf_iff_prefix]
      constructor
      · rintro ⟨⟨rest, isChat⟩, rfl⟩
        rw [← isChat, List.drop_left]
        apply String.toList_inj.1
        rw [String.toList_append, String.toList_ofList, isChat]
      · rintro rfl
        rw [String.toList_append, List.drop_left, String.ofList_toList]
        exact ⟨List.prefix_append _ _, rfl⟩

theorem isStale_eq_false_iff {source : String} {markers : List String} :
    isStale source markers task = false ↔
      (sourceChat task = some source -> markerOfTask task ∈ markers) := by
  unfold isStale
  rw [Bool.and_eq_false_imp, beq_iff_eq, Bool.not_eq_false', List.contains_iff_mem]

theorem isStale_congr
    (same : task.source = other.source) (source : String)
    (markers : List String) : isStale source markers task = isStale source markers other := by
  unfold isStale sourceChat markerOfTask
  rw [same]

/-- Nothing of the note is to be changed: its tasks have lines, and its plans are written. -/
structure Quiet (noteId : String) (plans : List NoteTaskPlan) (tasks : List Task) : Prop where
  live : ∀ task ∈ tasks, isStale (noteSourceOf noteId) (plans.map NoteTaskPlan.marker) task = false
  settled : ∀ plan ∈ plans, needsPlan tasks plan = false

theorem hasNoteTaskChanges_eq_false_iff :
    hasNoteTaskChanges state noteId plans = false ↔ Quiet noteId plans state.tasks := by
  unfold hasNoteTaskChanges getNoteTasks
  dsimp only
  rw [Bool.or_eq_false_iff, List.any_eq_false, List.any_eq_false]
  constructor
  · rintro ⟨live, settled⟩
    refine ⟨fun task member => isStale_eq_false_iff.2 fun isOf => ?_,
      fun plan member => Bool.not_eq_true _ ▸ settled plan member⟩
    have isNote := beq_iff_eq.2 (noteOfTask_eq_some_iff.2 isOf)
    simpa using live task (List.mem_filter.2 ⟨member, isNote⟩)
  · rintro ⟨live, settled⟩
    refine ⟨fun task member => ?_, fun plan member => Bool.not_eq_true _ ▸ settled plan member⟩
    obtain ⟨isTask, isNote⟩ := List.mem_filter.1 member
    have isOf := noteOfTask_eq_some_iff.1 (beq_iff_eq.1 isNote)
    simpa using isStale_eq_false_iff.1 (live task isTask) isOf

theorem keptTasks_eq_self_iff :
    keptTasks noteId plans tasks = tasks ↔
      ∀ task ∈ tasks,
        isStale (noteSourceOf noteId) (plans.map NoteTaskPlan.marker) task = false := by
  unfold keptTasks
  rw [List.filter_eq_self]
  simp only [Bool.not_eq_true']

theorem mem_keptTasks :
    task ∈ keptTasks noteId plans tasks ↔
      task ∈ tasks ∧
        isStale (noteSourceOf noteId) (plans.map NoteTaskPlan.marker) task = false := by
  unfold keptTasks
  rw [List.mem_filter, Bool.not_eq_true']

/-- A quiet note is not written. -/
theorem Quiet.applyNoteTasks_eq (quiet : Quiet noteId plans state.tasks) :
    applyNoteTasks state noteId plans = (state, false) := by
  have kept := keptTasks_eq_self_iff.2 quiet.live
  have start : unwritten state noteId plans = ⟨state.tasks, leastRank state.tasks, false⟩ := by
    unfold unwritten
    dsimp only
    rw [kept, bne_self_eq_false]
  unfold applyNoteTasks
  dsimp only
  rw [start, foldl_eq_self quiet.settled]

/-- Applying says whether anything was to be changed. -/
theorem snd_applyNoteTasks (alike : Alike plans) :
    (applyNoteTasks state noteId plans).2 = hasNoteTaskChanges state noteId plans := by
  cases changes : hasNoteTaskChanges state noteId plans with
  | false => rw [(hasNoteTaskChanges_eq_false_iff.1 changes).applyNoteTasks_eq]
  | true =>
      refine (hasChanges_foldl alike).trans ?_
      by_cases live : ∀ task ∈ state.tasks,
          isStale (noteSourceOf noteId) (plans.map NoteTaskPlan.marker) task = false
      · have kept : (unwritten state noteId plans).tasks = state.tasks :=
          keptTasks_eq_self_iff.2 live
        rw [Bool.or_eq_true]
        refine .inr ?_
        rw [kept]
        by_contra notNeeded
        rw [Bool.not_eq_true, List.any_eq_false] at notNeeded
        have quiet : Quiet noteId plans state.tasks :=
          ⟨live, fun plan member => Bool.not_eq_true _ ▸ notNeeded plan member⟩
        rw [hasNoteTaskChanges_eq_false_iff.2 quiet] at changes
        cases changes
      · have shorter : (keptTasks noteId plans state.tasks).length ≠ state.tasks.length :=
          fun same => live (keptTasks_eq_self_iff.1
            (List.filter_sublist.eq_of_length same))
        rw [Bool.or_eq_true]
        exact .inl (bne_iff_ne.2 shorter)

theorem Follows.unique {second : NoteTaskPlan}
    (follows : Follows task plan) (followsSecond : Follows task second)
    (same : plan.marker = second.marker) : plan = second := by
  obtain ⟨fields, done⟩ := follows
  obtain ⟨secondFields, secondDone⟩ := followsSecond
  obtain ⟨name, day, start, minutes, due⟩ := sameFields_iff.1 fields
  obtain ⟨secondName, secondDay, secondStart, secondMinutes, secondDue⟩ :=
    sameFields_iff.1 secondFields
  cases plan
  cases second
  simp_all

/-- Plans of one marker that are both written are one plan. -/
theorem eq_of_settled {second : NoteTaskPlan}
    (settled : needsPlan tasks plan = false) (settledSecond : needsPlan tasks second = false)
    (same : plan.marker = second.marker) : plan = second := by
  obtain ⟨task, found, follows⟩ := needsPlan_eq_false_iff.1 settled
  obtain ⟨other, foundOther, followsOther⟩ := needsPlan_eq_false_iff.1 settledSecond
  rw [same, foundOther] at found
  cases found
  exact follows.unique followsOther same

theorem alike_of_settled (settled : ∀ plan ∈ plans, needsPlan tasks plan = false) : Alike plans :=
  fun first isFirst second isSecond same =>
    eq_of_settled (settled first isFirst) (settled second isSecond) same

theorem tasks_applyNoteTasks :
    (applyNoteTasks state noteId plans).1.tasks =
      (plans.foldl (applyPlan (noteSourceOf noteId)) (unwritten state noteId plans)).tasks :=
  rfl

/-- A stamp after applying is one of a kept task, or one of a plan without a kept task. -/
theorem mem_stamps_applyNoteTasks {stamp : String × Option Source} :
    stamp ∈ (applyNoteTasks state noteId plans).1.tasks.map stampOf ↔
      stamp ∈ (keptTasks noteId plans state.tasks).map stampOf ∨
        ∃ plan ∈ plans,
          findIn (keptTasks noteId plans state.tasks) (noteTaskId plan.marker) = none ∧
            stamp = stampFor (noteSourceOf noteId) plan :=
  mem_stamps_foldl

/-- The marker of a new task is read as the marker of a plan. -/
def ReadsBack (plans : List NoteTaskPlan) (plan : NoteTaskPlan) : Prop :=
  markerOfTask (createdTask "" plan 0) ∈ plans.map NoteTaskPlan.marker

theorem readsBack_of_ascii
    (ascii : IsAscii plan.marker)
    (member : plan ∈ plans) : ReadsBack plans plan := by
  rw [ReadsBack, markerOfTask_createdTask ascii]
  exact List.mem_map_of_mem member

theorem isStale_createdTask {source : String} {rank : Float} :
    isStale source (plans.map NoteTaskPlan.marker) (createdTask source plan rank) = false ↔
      ReadsBack plans plan :=
  isStale_eq_false_iff.trans ⟨fun live => live rfl, fun live _ => live⟩

/-- Once plans are written, every task of the note has a line exactly when the new tasks have
markers that are read as markers of plans. -/
theorem live_applyNoteTasks_iff :
    (∀ task ∈ (applyNoteTasks state noteId plans).1.tasks,
        isStale (noteSourceOf noteId) (plans.map NoteTaskPlan.marker) task = false) ↔
      ∀ plan ∈ plans,
        findIn (keptTasks noteId plans state.tasks) (noteTaskId plan.marker) = none ->
          ReadsBack plans plan := by
  constructor
  · intro live plan member notFound
    obtain ⟨task, isTask, isStamp⟩ :=
      List.mem_map.1 (mem_stamps_applyNoteTasks.2 (.inr ⟨plan, member, notFound, rfl⟩))
    have isLive := live task isTask
    rw [@isStale_congr _ (createdTask (noteSourceOf noteId) plan 0)
      (congrArg Prod.snd isStamp)] at isLive
    exact isStale_createdTask.1 isLive
  · intro returns task isTask
    rcases mem_stamps_applyNoteTasks.1 (List.mem_map_of_mem isTask) with
      isOld | ⟨plan, member, notFound, isNew⟩
    · obtain ⟨old, isKept, same⟩ := List.mem_map.1 isOld
      rw [← isStale_congr (congrArg Prod.snd same)]
      exact (mem_keptTasks.1 isKept).2
    · rw [@isStale_congr _ (createdTask (noteSourceOf noteId) plan 0) (congrArg Prod.snd isNew)]
      exact isStale_createdTask.2 (returns plan member notFound)

/-- Once plans are written, nothing is to be changed exactly when plans of one marker are alike
and new tasks are read as tasks of the plans. -/
theorem quiet_applyNoteTasks_iff :
    Quiet noteId plans (applyNoteTasks state noteId plans).1.tasks ↔
      Alike plans ∧ ∀ plan ∈ plans,
        findIn (keptTasks noteId plans state.tasks) (noteTaskId plan.marker) = none ->
          ReadsBack plans plan := by
  constructor
  · rintro ⟨live, settled⟩
    exact ⟨alike_of_settled settled, live_applyNoteTasks_iff.1 live⟩
  · rintro ⟨alike, returns⟩
    exact ⟨live_applyNoteTasks_iff.2 returns, fun plan member => needsPlan_foldl alike member⟩

theorem quiet_applyNoteTasks
    (distinct : (plans.map NoteTaskPlan.marker).Nodup)
    (ascii : ∀ plan ∈ plans, IsAscii plan.marker) :
    Quiet noteId plans (applyNoteTasks state noteId plans).1.tasks := by
  refine quiet_applyNoteTasks_iff.2 ⟨alike_of_nodup distinct, fun plan member _ => ?_⟩
  exact readsBack_of_ascii (ascii plan member) member

/-- The plans of a note are written in one go. -/
theorem applyNoteTasks_settles
    (distinct : (plans.map NoteTaskPlan.marker).Nodup)
    (ascii : ∀ plan ∈ plans, IsAscii plan.marker)
    (state : State)
    (noteId : String) :
    let applied := (applyNoteTasks state noteId plans).1
    (applyNoteTasks state noteId plans).2 = hasNoteTaskChanges state noteId plans ∧
      hasNoteTaskChanges applied noteId plans = false ∧
      applyNoteTasks applied noteId plans = (applied, false) ∧
      ∀ plan ∈ plans, ∃ task ∈ applied.tasks, task.id = noteTaskId plan.marker ∧
        task.name = plan.name ∧ task.day = plan.day ∧ task.start = plan.start ∧
          task.minutes = plan.minutes ∧ task.due = plan.due ∧ isDone task = plan.isDone := by
  intro applied
  have quiet : Quiet noteId plans applied.tasks := quiet_applyNoteTasks distinct ascii
  refine ⟨snd_applyNoteTasks (alike_of_nodup distinct), hasNoteTaskChanges_eq_false_iff.2 quiet,
    quiet.applyNoteTasks_eq, fun plan member => ?_⟩
  obtain ⟨task, found, fields, done⟩ := needsPlan_eq_false_iff.1 (quiet.settled plan member)
  obtain ⟨name, day, start, minutes, due⟩ := sameFields_iff.1 fields
  exact ⟨task, List.mem_of_find?_eq_some found, id_of_findIn found, name, day, start, minutes, due,
    done⟩

end

/-- A line with a day. -/
def lineWith (marker name : String) (isDone : Bool) : NoteTaskPlan :=
  ⟨marker, name, isDone, some "2026-10-12", none, none, none⟩

/-- The task of a line, in a note. -/
def stateWithLine (noteId : String) (plan : NoteTaskPlan) : State where
  tasks := [createdTask (noteSourceOf noteId) plan (-1)]
  events := []
  budget := 600
  settings := ⟨540, 1260⟩

theorem applyNoteTasks_settles_twoLines :
    let plans := [lineWith "t7f3a" "call" false, lineWith "t0b2c" "write" true]
    let state := stateWithLine "n" (lineWith "t7f3a" "call back" true)
    let applied := (applyNoteTasks state "n" plans).1
    (applyNoteTasks state "n" plans).2 = hasNoteTaskChanges state "n" plans ∧
      hasNoteTaskChanges applied "n" plans = false ∧
      applyNoteTasks applied "n" plans = (applied, false) ∧
      ∀ plan ∈ plans, ∃ task ∈ applied.tasks, task.id = noteTaskId plan.marker ∧
        task.name = plan.name ∧ task.day = plan.day ∧ task.start = plan.start ∧
          task.minutes = plan.minutes ∧ task.due = plan.due ∧ isDone task = plan.isDone :=
  applyNoteTasks_settles (by decide) (by simp [lineWith, IsAscii])
    (stateWithLine "n" (lineWith "t7f3a" "call back" true)) "n"

end Parvane.Agenda
