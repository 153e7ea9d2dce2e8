import Mathlib.Data.List.Nodup
import Parvane.Foundation.Run
import Parvane.State.Entries
import Parvane.State.Snapshot

/-!
# Scheduled messages

A scheduled message is sent by the first device that notices that it is due.  A device
remembers the identifiers of what it has sent, also when it is restarted, and does not
send a message twice.
-/

namespace Parvane.State

open Wire Convergence

/-- The scheduled messages that this device has sent.  It is kept on the device. -/
structure SendGuard where
  sent : Std.ExtTreeSet OpId

namespace SendGuard

def new : SendGuard := ⟨∅⟩

/-- Identifiers that are not well formed are left out. -/
def fromList (ids : List Bytes) : SendGuard :=
  ⟨.ofList (ids.filterMap fun id => (opId16 id "op_id").toOption)⟩

variable (guard : SendGuard)

def toList : List Bytes :=
  guard.sent.toList.map FixedBytes.bytes

/-- Whether a message is sent for the first time, which is remembered. -/
def claim (opId : Bytes) : Bool × SendGuard :=
  match opId16 opId "op_id" with
  | .ok id => (!guard.sent.contains id, ⟨guard.sent.insert id⟩)
  | .error _ => (false, guard)

def contains (opId : Bytes) : Bool :=
  match opId16 opId "op_id" with
  | .ok id => guard.sent.contains id
  | .error _ => false

/-- The messages that are sent for the first time, in their order. -/
def claimEach (guard : SendGuard) :
    List ScheduledMessage -> List ScheduledMessage × SendGuard
  | [] => ([], guard)
  | scheduled :: others =>
      let (isFirst, next) := guard.claim scheduled.opId
      let (claimed, final) := claimEach next others
      (if isFirst then scheduled :: claimed else claimed, final)

end SendGuard

/-- Scheduled messages are sent in this order. -/
def ScheduledMessage.sendKey (scheduled : ScheduledMessage) : Int64 ×ₗ Bytes :=
  toLex (scheduled.sendAtMs, scheduled.opId)

namespace PersonalState

variable (state : PersonalState)

/-- What this device has to send now. -/
def claimDue (nowMs : Int64) (guard : SendGuard) : List ScheduledMessage × SendGuard :=
  let due := state.pendingScheduled.filter fun scheduled => scheduled.sendAtMs ≤ nowMs
  guard.claimEach (due.mergeSort fun first second => first.sendKey ≤ second.sendKey)

end PersonalState

/-! ## The guard -/

namespace SendGuard

variable {guard : SendGuard}

theorem ofBytes?_bytes {length : Nat} (fixed : FixedBytes length) :
    FixedBytes.ofBytes? length fixed.bytes = some fixed :=
  ofBytes?_eq_some.2 rfl

/-- A restart forgets nothing. -/
theorem fromList_toList (guard : SendGuard) : fromList guard.toList = guard := by
  obtain ⟨sent⟩ := guard
  have ids : (sent.toList.map FixedBytes.bytes).filterMap
      (fun id => (opId16 id "op_id").toOption) = sent.toList := by
    rw [List.filterMap_map]
    have each : ∀ id : OpId, ((fun bytes => (opId16 bytes "op_id").toOption) ∘
        FixedBytes.bytes) id = some id := by
      intro id
      simp [opId16, ofBytes?_bytes, present, Except.toOption]
    rw [funext each, List.filterMap_some]
  simp only [fromList, toList, ids]
  congr 1
  ext id
  rw [Std.ExtTreeSet.mem_ofList, List.contains_iff_mem, Std.ExtTreeSet.mem_toList]

/-- Whether the guard remembers an identifier. -/
def Remembers (guard : SendGuard) (opId : Bytes) : Prop :=
  ∃ id ∈ guard.sent, id.bytes = opId

/-- What one claim does. -/
theorem claim_cases (guard : SendGuard) (opId : Bytes) :
    (∀ other, (guard.claim opId).2.Remembers other ↔
        guard.Remembers other ∨ (other = opId ∧ opId.length = opIdLen)) ∧
      ((guard.claim opId).1 = true ↔ opId.length = opIdLen ∧ ¬ guard.Remembers opId) := by
  unfold claim opId16
  by_cases fits : opId.length = opIdLen
  · have checked : FixedBytes.ofBytes? opIdLen opId = some ⟨opId, fits⟩ := dif_pos fits
    simp only [checked, present, Remembers, Std.ExtTreeSet.mem_insert]
    constructor
    · intro other
      constructor
      · rintro ⟨id, isNew | old, rfl⟩
        · rw [← Std.LawfulEqCmp.compare_eq_iff_eq.1 isNew]
          exact .inr ⟨rfl, fits⟩
        · exact .inl ⟨id, old, rfl⟩
      · rintro (⟨id, old, rfl⟩ | ⟨rfl, -⟩)
        · exact ⟨id, .inr old, rfl⟩
        · exact ⟨⟨other, fits⟩, .inl (Std.LawfulEqCmp.compare_eq_iff_eq.2 rfl), rfl⟩
    · have held : (∃ id ∈ guard.sent, id.bytes = opId) ↔ (⟨opId, fits⟩ : OpId) ∈ guard.sent := by
        constructor
        · rintro ⟨id, member, rfl⟩
          exact member
        · intro member
          exact ⟨_, member, rfl⟩
      rw [held, Bool.not_eq_true', Bool.eq_false_iff, ne_eq, Std.ExtTreeSet.contains_iff_mem]
      exact (and_iff_right fits).symm
  · have refused : FixedBytes.ofBytes? opIdLen opId = none := dif_neg fits
    simp [refused, present, fits]

theorem claimEach_cons (guard : SendGuard) (one : ScheduledMessage)
    (others : List ScheduledMessage) :
    guard.claimEach (one :: others) =
      (if (guard.claim one.opId).1 then one :: ((guard.claim one.opId).2.claimEach others).1
        else ((guard.claim one.opId).2.claimEach others).1,
        ((guard.claim one.opId).2.claimEach others).2) := rfl

/-- The claimed messages are new ones, each once, and are remembered. -/
theorem claimEach_spec (guard : SendGuard) (scheduled : List ScheduledMessage) :
    (guard.claimEach scheduled).1.Sublist scheduled ∧
      ((guard.claimEach scheduled).1.map ScheduledMessage.opId).Nodup ∧
      (∀ one ∈ (guard.claimEach scheduled).1, ¬ guard.Remembers one.opId ∧
        (guard.claimEach scheduled).2.Remembers one.opId) ∧
      ∀ opId, guard.Remembers opId -> (guard.claimEach scheduled).2.Remembers opId := by
  induction scheduled generalizing guard with
  | nil => simp [claimEach]
  | cons one others inductionHypothesis =>
      obtain ⟨remembers, isFirst⟩ := claim_cases guard one.opId
      obtain ⟨sublist, nodup, fresh, grows⟩ := inductionHypothesis (guard.claim one.opId).2
      have grown (opId : Bytes) (known : guard.Remembers opId) :=
        grows opId ((remembers opId).2 (.inl known))
      have later : ∀ other ∈ ((guard.claim one.opId).2.claimEach others).1,
          ¬ guard.Remembers other.opId ∧
            ((guard.claim one.opId).2.claimEach others).2.Remembers other.opId := by
        intro other member
        obtain ⟨unknown, known⟩ := fresh other member
        refine ⟨fun before => unknown ((remembers _).2 (.inl before)), known⟩
      rw [claimEach_cons]
      by_cases claimed : (guard.claim one.opId).1 = true
      · obtain ⟨fits, unknown⟩ := isFirst.1 claimed
        have known : (guard.claim one.opId).2.Remembers one.opId :=
          (remembers one.opId).2 (.inr ⟨rfl, fits⟩)
        rw [if_pos claimed]
        refine ⟨sublist.cons_cons one, List.nodup_cons.2 ⟨?_, nodup⟩, ?_, grown⟩
        · rw [List.mem_map]
          rintro ⟨other, member, same⟩
          apply (fresh other member).1
          rwa [same]
        · intro other member
          rcases List.mem_cons.1 member with rfl | member
          · exact ⟨unknown, grows _ known⟩
          · exact later other member
      · rw [if_neg claimed]
        exact ⟨sublist.cons one, nodup, later, grown⟩

end SendGuard

/-! ## What is due -/

namespace PersonalState

variable {state : PersonalState} {guard : SendGuard} {nowMs : Int64}

/-- What is claimed is pending and due, and in order. -/
theorem claimDue_spec (state : PersonalState) (nowMs : Int64) (guard : SendGuard) :
    (∀ scheduled ∈ (state.claimDue nowMs guard).1,
        scheduled ∈ state.pendingScheduled ∧ scheduled.sendAtMs ≤ nowMs) ∧
      (state.claimDue nowMs guard).1.Pairwise
        fun first second => first.sendKey ≤ second.sendKey := by
  have sublist := (guard.claimEach_spec
    ((state.pendingScheduled.filter fun scheduled => scheduled.sendAtMs ≤ nowMs).mergeSort
      fun first second => first.sendKey ≤ second.sendKey)).1
  constructor
  · intro scheduled member
    have due := List.mem_filter.1 (List.mem_mergeSort.1 (sublist.subset member))
    exact ⟨due.1, of_decide_eq_true due.2⟩
  · have sorted : ((state.pendingScheduled.filter fun scheduled =>
          scheduled.sendAtMs ≤ nowMs).mergeSort fun first second =>
            first.sendKey ≤ second.sendKey).Pairwise
        fun first second => decide (first.sendKey ≤ second.sendKey) = true := by
      apply List.pairwise_mergeSort
      · intro first second third one two
        exact decide_eq_true ((of_decide_eq_true one).trans (of_decide_eq_true two))
      · intro first second
        simp [le_total]
    exact (sorted.sublist sublist).imp fun less => of_decide_eq_true less

end PersonalState

/-! ## Runs -/

/-- What happens to a device that sends scheduled messages. -/
inductive Label
  | applied (op : StateOp)
  | claimed (nowMs : Int64) (returned : List ScheduledMessage)
  | reloaded

/-- The operations that were applied. -/
def applied (labels : List Label) : List StateOp :=
  labels.filterMap fun label =>
    match label with
    | .applied op => some op
    | _ => none

/-- What the claims returned. -/
def claims (labels : List Label) : List ScheduledMessage :=
  labels.flatMap fun label =>
    match label with
    | .claimed _ returned => returned
    | _ => []

section

variable (sha256 : Bytes -> Digest)

/-- One step of the device.  A restart keeps the state and reloads the guard. -/
inductive Step : PersonalState × SendGuard -> Label -> PersonalState × SendGuard -> Prop
  | apply (state : PersonalState) (guard : SendGuard) (op : StateOp) :
      Step (state, guard) (.applied op) (((apply sha256 op).exec state).2, guard)
  | claim (state : PersonalState) (guard : SendGuard) (nowMs : Int64) :
      Step (state, guard) (.claimed nowMs (state.claimDue nowMs guard).1)
        (state, (state.claimDue nowMs guard).2)
  | reload (state : PersonalState) (guard : SendGuard) :
      Step (state, guard) .reloaded (state, .fromList guard.toList)

/-- A message is claimed when it is due, not marked as sent and not removed. -/
structure Claimable (past : List StateOp) (nowMs : Int64) (scheduled : ScheduledMessage) :
    Prop where
  due : scheduled.sendAtMs ≤ nowMs
  unsent : ∀ op ∈ past, accepted sha256 op = true -> ∀ ref,
    op.op = some (.scheduledSent ref) -> ref.opId ≠ scheduled.opId
  latest : ∃ op ∈ past, accepted sha256 op = true ∧ op.op = some (.scheduledSet scheduled) ∧
    ∃ stamp, stampOf sha256 op = some stamp ∧
      ∀ other ∈ past, accepted sha256 other = true -> ∀ ref,
        other.op = some (.scheduledRemove ref) -> ref.opId = scheduled.opId ->
          ∀ later, stampOf sha256 other = some later -> later ≤ stamp
  pending : scheduled ∈ (applyAll sha256 past .new).2.pendingScheduled

/-- Every message is claimed at most once, when it may be, and in order. -/
structure SentOnce (labels : List Label) : Prop where
  once : ((claims labels).map ScheduledMessage.opId).Nodup
  claimable : ∀ before nowMs returned after, labels = before ++ .claimed nowMs returned :: after ->
    ∀ scheduled ∈ returned, Claimable sha256 (applied before) nowMs scheduled
  sorted : ∀ before nowMs returned after, labels = before ++ .claimed nowMs returned :: after ->
    returned.Pairwise fun first second => first.sendKey ≤ second.sendKey

variable {sha256}

theorem applyAll_concat (ops : List StateOp) (op : StateOp) (state : PersonalState) :
    (applyAll sha256 (ops ++ [op]) state).2 =
      ((apply sha256 op).exec (applyAll sha256 ops state).2).2 := by
  rw [applyAll, applyAll, applyAllFrom_state, applyAllFrom_state, List.filter_append,
    List.foldl_append]
  rcases exec_apply sha256 op with ⟨refused, error, exec_eq⟩ | ⟨isAccepted, exec_eq⟩
  · rw [exec_eq, List.filter_singleton, refused]
    rfl
  · rw [exec_eq, List.filter_singleton, isAccepted]
    rfl

theorem entryOf_scheduled {op : StateOp} {id : OpId} {entry : Lww ScheduledMessage} :
    entryOf sha256 scheduledWrite op = some (id, entry) ↔
      stampOf sha256 op = some entry.stamp ∧
        ∃ kind, op.op = some kind ∧ scheduledWrite kind = some (id, entry.value) := by
  obtain ⟨stamp, value⟩ := entry
  simp only [entryOf, Option.bind_eq_bind, Option.bind_eq_some_iff, Prod.exists,
    Option.pure_def, Option.some.injEq, Prod.mk.injEq, Lww.mk.injEq]
  constructor
  · rintro ⟨_, stamped, kind, carried, _, _, written, rfl, rfl, rfl⟩
    exact ⟨stamped, kind, carried, written⟩
  · rintro ⟨stamped, kind, carried, written⟩
    exact ⟨stamp, stamped, kind, carried, id, value, written, rfl, rfl, rfl⟩

/-- An accepted operation has a stamp. -/
theorem exists_stampOf {op : StateOp} (isAccepted : accepted sha256 op = true) :
    ∃ stamp, stampOf sha256 op = some stamp := by
  unfold accepted at isAccepted
  cases identified : FixedBytes.ofBytes? opIdLen op.opId with
  | none =>
      rw [apply, checkHeader, opId16, identified] at isAccepted
      cases isAccepted
  | some id => exact ⟨_, by rw [stampOf, identified]; rfl⟩

theorem claimable_of_pending {past : List StateOp} {nowMs : Int64} {scheduled : ScheduledMessage}
    (pending : scheduled ∈ (applyAll sha256 past .new).2.pendingScheduled)
    (due : scheduled.sendAtMs ≤ nowMs) : Claimable sha256 past nowMs scheduled := by
  obtain ⟨id, stamp, unsent, found⟩ := mem_pendingScheduled.1 pending
  have isMap := @isMap_scheduled sha256
  obtain ⟨op, member, isAccepted, offered⟩ := isMap.offered found
  obtain ⟨stamped, kind, carried, written⟩ := entryOf_scheduled.1 offered
  have same : id.bytes = scheduled.opId := opId_of_scheduledWrite written
  refine ⟨due, ?_, ⟨op, member, isAccepted, ?_, stamp, stamped, ?_⟩, pending⟩
  · intro other otherMember otherAccepted ref marks equal
    apply unsent
    refine mem_scheduledSent_applyAll.2 (.inr ⟨other, otherMember, otherAccepted, ?_⟩)
    obtain ⟨otherStamp, otherStamped⟩ := exists_stampOf otherAccepted
    have identified : FixedBytes.ofBytes? opIdLen ref.opId = some id :=
      ofBytes?_eq_some.2 (same.trans equal.symm)
    simp [sentOf, otherStamped, marks, scheduledSentWrite, identified]
  · cases kind <;> simp [scheduledWrite] at written
    rw [carried, written.2]
  · intro other otherMember otherAccepted ref removes equal later otherStamped
    have identified : FixedBytes.ofBytes? opIdLen ref.opId = some id :=
      ofBytes?_eq_some.2 (same.trans equal.symm)
    have removed : entryOf sha256 scheduledWrite other = some (id, ⟨later, none⟩) := by
      refine entryOf_scheduled.2 ⟨otherStamped, _, removes, ?_⟩
      rw [scheduledWrite, identified]
      rfl
    exact isMap.offered_le found otherMember otherAccepted removed

/-- The device after these steps, each message having been claimed as it may be. -/
structure Holds (sha256 : Bytes -> Digest) (past : List Label) (device : PersonalState × SendGuard) :
    Prop where
  state_eq : device.1 = (applyAll sha256 (applied past) .new).2
  remembered : ∀ scheduled ∈ claims past, device.2.Remembers scheduled.opId
  once : ((claims past).map ScheduledMessage.opId).Nodup
  proper : History.Each (fun past label => ∀ nowMs returned, label = .claimed nowMs returned ->
    (∀ scheduled ∈ returned, Claimable sha256 (applied past) nowMs scheduled) ∧
      returned.Pairwise fun first second => first.sendKey ≤ second.sendKey) past

theorem Holds.start (guard : SendGuard) : Holds sha256 [] (.new, guard) where
  state_eq := rfl
  remembered scheduled member := by cases member
  once := List.nodup_nil
  proper := History.Each.nil

/-- A step that claims nothing. -/
theorem Holds.quiet {past : List Label} {device next : PersonalState × SendGuard} {label : Label}
    (holds : Holds sha256 past device)
    (claimless : ∀ nowMs returned, label ≠ .claimed nowMs returned)
    (state_eq : next.1 = (applyAll sha256 (applied (past ++ [label])) .new).2)
    (same : next.2 = device.2) : Holds sha256 (past ++ [label]) next := by
  have claims_eq : claims (past ++ [label]) = claims past := by
    cases label with
    | claimed nowMs returned => exact absurd rfl (claimless nowMs returned)
    | applied op => simp [claims]
    | reloaded => simp [claims]
  refine ⟨state_eq, ?_, ?_, History.each_concat.2 ⟨holds.proper, ?_⟩⟩
  · rw [claims_eq, same]
    exact holds.remembered
  · rw [claims_eq]
    exact holds.once
  · intro nowMs returned isClaim
    exact absurd isClaim (claimless nowMs returned)

theorem Holds.step {past : List Label} {device next : PersonalState × SendGuard} {label : Label}
    (holds : Holds sha256 past device)
    (step : Step sha256 device label next) : Holds sha256 (past ++ [label]) next := by
  cases step with
  | apply state guard op =>
      apply holds.quiet
      · intro nowMs returned same
        cases same
      · have now : applied (past ++ [.applied op]) = applied past ++ [op] := by simp [applied]
        have state_eq : state = _ := holds.state_eq
        rw [now, applyAll_concat, ← state_eq]
      · rfl
  | reload state guard =>
      apply holds.quiet
      · intro nowMs returned same
        cases same
      · have now : applied (past ++ [.reloaded]) = applied past := by simp [applied]
        rw [now]
        exact holds.state_eq
      · exact guard.fromList_toList
  | claim state guard nowMs =>
      have state_eq : state = _ := holds.state_eq
      have now (returned : List ScheduledMessage) :
          applied (past ++ [.claimed nowMs returned]) = applied past ∧
            claims (past ++ [.claimed nowMs returned]) = claims past ++ returned := by
        simp [applied, claims]
      obtain ⟨claimed, sorted⟩ := state.claimDue_spec nowMs guard
      obtain ⟨-, nodup, fresh, grows⟩ := guard.claimEach_spec
        ((state.pendingScheduled.filter fun scheduled => scheduled.sendAtMs ≤ nowMs).mergeSort
          fun first second => first.sendKey ≤ second.sendKey)
      refine ⟨?_, ?_, ?_, History.each_concat.2 ⟨holds.proper, ?_⟩⟩
      · rw [(now _).1]
        exact holds.state_eq
      · intro scheduled member
        rw [(now _).2] at member
        rcases List.mem_append.1 member with before | isNew
        · exact grows _ (holds.remembered scheduled before)
        · exact (fresh scheduled isNew).2
      · rw [(now _).2, List.map_append]
        refine holds.once.append nodup ?_
        intro opId before isNew
        obtain ⟨old, oldMember, rfl⟩ := List.mem_map.1 before
        obtain ⟨fresher, member, same⟩ := List.mem_map.1 isNew
        apply (fresh fresher member).1
        rw [same]
        exact holds.remembered old oldMember
      · intro other returned same
        cases same
        refine ⟨fun scheduled member => ?_, sorted⟩
        obtain ⟨pending, due⟩ := claimed scheduled member
        rw [state_eq] at pending
        exact claimable_of_pending pending due

theorem Holds.run {past labels : List Label} {device final : PersonalState × SendGuard}
    (holds : Holds sha256 past device)
    (run : Run (Step sha256) device labels final) : Holds sha256 (past ++ labels) final := by
  induction run generalizing past with
  | nil device =>
      rw [List.append_nil]
      exact holds
  | @cons device next final label labels first rest inductionHypothesis =>
      rw [← List.singleton_append, ← List.append_assoc]
      exact inductionHypothesis (holds.step first)

/-- A device claims each scheduled message at most once, whatever is applied in between and
however often it restarts. -/
theorem scheduled_sentOnce
    (sha256 : Bytes -> Digest)
    (guard : SendGuard)
    (labels : List Label)
    (final : PersonalState × SendGuard)
    (run : Run (Step sha256) (.new, guard) labels final) : SentOnce sha256 labels := by
  have holds := (Holds.start guard).run run
  refine ⟨holds.once, ?_, ?_⟩
  · intro before nowMs returned after split
    exact (holds.proper before _ after split nowMs returned rfl).1
  · intro before nowMs returned after split
    exact (holds.proper before _ after split nowMs returned rfl).2

end

/-- A message for `bob@x.org` that is due at time 5. -/
def dueMessage : ScheduledMessage where
  opId := List.replicate 16 7
  peer := some ⟨some (.user ⟨"bob@x.org"⟩)⟩
  sendAtMs := 5
  content := [1]

def scheduleOp : StateOp where
  opId := List.replicate 16 3
  lamport := 1
  deviceId := "d"
  tsMs := 0
  op := some (.scheduledSet dueMessage)

/-- SHA-256 on the encoding of the operation above. -/
def scheduleDigest (_ : Bytes) : Digest :=
  ⟨[192, 72, 17, 243, 206, 4, 52, 190, 255, 186, 50, 52, 133, 111, 235, 145, 92, 243, 242, 157,
    246, 115, 111, 24, 180, 77, 97, 94, 139, 13, 80, 117], rfl⟩

/-- The message is claimed when it is due, and not again after a restart. -/
theorem scheduled_sentOnce_sample :
    SentOnce scheduleDigest
      [.applied scheduleOp, .claimed 5 [dueMessage], .reloaded, .claimed 6 []] := by
  let state := ((apply scheduleDigest scheduleOp).exec .new).2
  let guard := (state.claimDue 5 .new).2
  have first : (state.claimDue 5 .new).1 = [dueMessage] := by decide +kernel
  have second : (state.claimDue 6 (.fromList guard.toList)).1 = [] := by decide +kernel
  apply scheduled_sentOnce scheduleDigest .new _ (state, (state.claimDue 6 _).2)
  refine .cons (.apply .new .new scheduleOp)
    (.cons ?_ (.cons (.reload state guard) (.cons ?_ (.nil _))))
  · rw [← first]
    exact .claim state .new 5
  · rw [← second]
    exact .claim state (.fromList guard.toList) 6

end Parvane.State
