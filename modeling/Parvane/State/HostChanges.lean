import Parvane.Foundation.Action
import Parvane.State.Host

/-!
# Changes on the device and in the journal

A call of the host applies operations and returns their sealed records.  A call that fails
half way has applied operations whose records are lost.
-/

namespace Parvane.State

open Wire Codec

namespace HostState

/-- What a host can ask for.  A message that cannot be read is none. -/
inductive Call
  | diff (desired : Option StateSnapshot) (kinds : Option (List String))
  | migrate (own : Option StateSnapshot)
  | markSent (ref : Option ScheduledRef)
  | callSet (record : Option CallRecord)
  | groupInviteSet (invite : Option GroupInvite)
  | groupInviteRemove (ref : Option GroupInviteRef)
  | plannerContainerSet (domain : String) (id : Option Bytes)
  | cloudContainerSet (container : Option CloudContainer)
  | chatCleared (cleared : Option ChatCleared)

section

variable (aead : Aead StateKey) (sha256 : Bytes -> Digest) (now : Int64) (draws : Nat -> Draw)

def Call.run : Call -> Update HostState (List AppendRequest)
  | .diff desired kinds => HostState.diff aead sha256 now draws desired kinds
  | .migrate own => HostState.migrate aead sha256 now draws own
  | .markSent ref => HostState.markSent aead sha256 now draws ref
  | .callSet record => HostState.callSet aead sha256 now draws record
  | .groupInviteSet invite => HostState.groupInviteSet aead sha256 now draws invite
  | .groupInviteRemove ref => HostState.groupInviteRemove aead sha256 now draws ref
  | .plannerContainerSet domain id => HostState.plannerContainerSet aead sha256 now draws domain id
  | .cloudContainerSet container => HostState.cloudContainerSet aead sha256 now draws container
  | .chatCleared cleared => HostState.chatCleared aead sha256 now draws cleared

/-- The operations that can be stamped, up to the greatest accepted time. -/
def stamped (deviceId : String) : Nat -> LamportClock -> List Op -> List StateOp
  | _, _, [] => []
  | position, clock, kind :: kinds =>
      match makeOpWithId clock deviceId now (draws position).opId kind with
      | .error _ => []
      | .ok (op, clock) => op :: stamped deviceId (position + 1) clock kinds

/-- The changes that a call writes, other than a migration. -/
def Call.changes (host : HostState) : Call -> Option (List Op)
  | .diff desired kinds => do
      return diffOps host.state.snapshot (← desired) (Managed.fromNames (← kinds))
  | .migrate _ => none
  | .markSent ref => ref.map fun ref => [.scheduledSent ref]
  | .callSet record => record.map fun record => [.callSet record]
  | .groupInviteSet invite => invite.map fun invite => [.groupInviteSet invite]
  | .groupInviteRemove ref => ref.map fun ref => [.groupInviteRemove ref]
  | .plannerContainerSet domain id => id.map fun id => [.plannerContainerSet ⟨some ⟨domain, id⟩⟩]
  | .cloudContainerSet container => container.map fun container => [.cloudContainerSet container]
  | .chatCleared cleared => cleared.map fun cleared => [.chatCleared cleared]

/-- The stamped operations of a call, and whether all of its changes could be stamped. -/
def Call.made (host : HostState) (call : Call) : List StateOp × Bool :=
  match call with
  | .migrate own =>
      match own.map fun own => ((migrateSnapshotWith sha256 host.deviceId now
          (withoutPresent own host.state.snapshot) fun position =>
            (draws position).opId).exec host.clock).1 with
      | some (.ok ops) => (ops, true)
      | _ => ([], false)
  | call =>
      match call.changes host with
      | some kinds =>
          let ops := stamped now draws host.deviceId 0 host.clock kinds
          (ops, ops.length == kinds.length)
      | none => ([], false)

end

/-! ## What a call leaves -/

/-- The record of an operation can be made. -/
def sealable (user : String) (op : StateOp) : Bool :=
  isValidAddress user && fitsRecord op

variable {aead : Aead StateKey} {sha256 : Bytes -> Digest}

/-- The requests are the sealed records of the operations. -/
def SealsOf (aead : Aead StateKey) (key : StateKey) (user : String) :
    List StateOp -> List AppendRequest -> Prop :=
  List.Forall₂ fun op request => ∃ nonce, sealOp aead nonce key user op = .ok request

/-- What comes of a call that makes some operations, in terms of the state before it. -/
structure Outcome (aead : Aead StateKey) (sha256 : Bytes -> Digest) (key : StateKey)
    (user : String) (ops : List StateOp) (complete : Bool) (state : PersonalState)
    (result : Result (List AppendRequest)) (later : PersonalState) : Prop where
  grows : state.maxLamport ≤ later.maxLamport
  ok : ∀ requests, result = .ok requests ->
    later = (ops.filter (accepted sha256)).foldl (effect sha256) state ∧
      SealsOf aead key user (ops.filter (accepted sha256)) requests
  isOk : result.isOk = true ↔
    complete = true ∧ ∀ op ∈ ops, accepted sha256 op = true -> sealable user op = true
  same : ∀ error, result = .error error ->
    (later = state ↔ ∀ op ∈ ops, accepted sha256 op = false)

section

variable {key : StateKey} {user : String} {op : StateOp} {ops : List StateOp} {complete : Bool}
  {state later : PersonalState} {result : Result (List AppendRequest)}

theorem Outcome.nil : Outcome aead sha256 key user [] true state (.ok []) state where
  grows := le_rfl
  ok := by
    rintro _ ⟨⟩
    exact ⟨rfl, .nil⟩
  isOk := by simp [Except.isOk, Except.toBool]
  same := nofun

theorem Outcome.stopped (error : ProtoError) :
    Outcome aead sha256 key user [] false state (.error error) state where
  grows := le_rfl
  ok := nofun
  isOk := by simp [Except.isOk, Except.toBool]
  same := by simp

/-- A refused operation is passed over. -/
theorem Outcome.refused
    (refused : accepted sha256 op = false)
    (rest : Outcome aead sha256 key user ops complete state result later) :
    Outcome aead sha256 key user (op :: ops) complete state result later where
  grows := rest.grows
  ok := by simpa [refused] using rest.ok
  isOk := by simpa [refused] using rest.isOk
  same := by simpa [refused] using rest.same

theorem maxLamport_effect (sha256 : Bytes -> Digest) (state : PersonalState) (op : StateOp) :
    (effect sha256 state op).maxLamport = max state.maxLamport op.lamport :=
  rfl

/-- An operation is applied and sealed before the others. -/
theorem Outcome.taken
    (isAccepted : accepted sha256 op = true) (fits : sealable user op = true)
    (fresh : state.maxLamport < op.lamport)
    {request : AppendRequest} {nonce : FixedBytes nonceLen}
    (made : sealOp aead nonce key user op = .ok request)
    (rest : Outcome aead sha256 key user ops complete (effect sha256 state op) result later) :
    Outcome aead sha256 key user (op :: ops) complete state (result.map (request :: ·)) later where
  grows := (le_max_left _ _).trans rest.grows
  ok := by
    intro requests isResult
    cases result with
    | error error => cases isResult
    | ok found =>
        cases isResult
        obtain ⟨isLater, seals⟩ := rest.ok found rfl
        rw [List.filter_cons_of_pos isAccepted]
        exact ⟨isLater, .cons ⟨nonce, made⟩ seals⟩
  isOk := by
    have same : (result.map (request :: ·)).isOk = result.isOk := by cases result <;> rfl
    rw [same, rest.isOk, List.forall_mem_cons]
    simp [fits]
  same := by
    intro error isResult
    constructor
    · rintro rfl
      have grows := rest.grows
      rw [maxLamport_effect] at grows
      exact absurd ((le_max_right _ _).trans grows) (not_le.2 fresh)
    · intro none
      have := none op List.mem_cons_self
      rw [isAccepted] at this
      cases this

/-- An operation is applied, but cannot be sealed. -/
theorem Outcome.lost
    (isAccepted : accepted sha256 op = true) (large : sealable user op = false)
    (fresh : state.maxLamport < op.lamport) (error : ProtoError) :
    Outcome aead sha256 key user (op :: ops) complete state (.error error)
      (effect sha256 state op) where
  grows := le_max_left _ _
  ok := nofun
  isOk := by
    refine iff_of_false (by simp [Except.isOk, Except.toBool]) ?_
    rintro ⟨-, all⟩
    have := all op List.mem_cons_self isAccepted
    rw [large] at this
    cases this
  same := by
    intro _ _
    constructor
    · intro same
      have grows := congrArg PersonalState.maxLamport same
      rw [maxLamport_effect, max_eq_right fresh.le] at grows
      exact absurd grows fresh.ne'
    · intro none
      have := none op List.mem_cons_self
      rw [isAccepted] at this
      cases this

end

/-! ## The loops -/

/-- The cipher works on every message that fits a record. -/
def Encrypts (aead : Aead StateKey) : Prop :=
  ∀ key nonce aad message, nonceLen + message.length + tagLen ≤ maxRecord ->
    (aead.encrypt key nonce aad message).isSome = true

theorem checkHeader_of_accepted {op : StateOp}
    (isAccepted : accepted sha256 op = true) : checkHeader op = .ok () := by
  cases header : checkHeader op with
  | ok _ => rfl
  | error error =>
      rw [accepted] at isAccepted
      simp [apply, header, Except.isOk, Except.toBool] at isAccepted

/-- An accepted operation is sealed exactly when its user is valid and its record not too
long. -/
theorem isOk_sealOp
    (encrypts : Encrypts aead) {op : StateOp} (isAccepted : accepted sha256 op = true)
    (nonce : FixedBytes nonceLen) (key : StateKey) (user : String) :
    (sealOp aead nonce key user op).isOk = sealable user op := by
  rw [sealOp, checkHeader_of_accepted isAccepted, encryptRecord, sealable, fitsRecord]
  cases valid : isValidAddress user with
  | false => rfl
  | true =>
      by_cases fits : nonceLen + (encode op).length + tagLen ≤ maxRecord
      · obtain ⟨ciphertext, encrypted⟩ := Option.isSome_iff_exists.1
          (encrypts key nonce.bytes (recordAad user op.opId) (encode op) fits)
        simp [require, fits, present, encrypted, Except.isOk, Except.toBool, bind, Except.bind,
          pure, Except.pure]
      · simp [require, fits, Except.isOk, Except.toBool, bind, Except.bind]

theorem exec_applyAndSeal
    (nonce : FixedBytes nonceLen) (op : StateOp) (host : HostState) :
    (applyAndSeal aead sha256 nonce op).exec host =
      if accepted sha256 op = true then
        ((sealOp aead nonce host.key host.user op).map fun request => [request],
          { host with state := effect sha256 host.state op })
      else (.ok [], host) := by
  rcases exec_apply sha256 op with ⟨refused, error, ran⟩ | ⟨isAccepted, ran⟩
  · simp only [applyAndSeal, ran, refused, Bool.false_eq_true, if_false, Update.exec_bind,
      Update.exec_get, Update.exec_modify, Update.exec_pure]
  · simp only [applyAndSeal, ran, isAccepted, if_true, Update.exec_bind, Update.exec_get,
      Update.exec_modify, Update.exec_liftM]
    cases sealOp aead nonce host.key host.user op <;> rfl

/-- What comes of one operation and then of the others. -/
theorem outcome_cons
    (encrypts : Encrypts aead) (nonce : FixedBytes nonceLen)
    {op : StateOp} {ops : List StateOp} {complete : Bool} (host : HostState)
    {next : Update HostState (List AppendRequest)}
    (fresh : host.state.maxLamport < op.lamport)
    (rest : ∀ state, state = host.state ∨ state = effect sha256 host.state op ->
      let ran := next.exec { host with state }
      Outcome aead sha256 host.key host.user ops complete state ran.1 ran.2.state) :
    let ran := (do
      let first ← applyAndSeal aead sha256 nonce op
      let rest ← next
      return first ++ rest : Update HostState (List AppendRequest)).exec host
    Outcome aead sha256 host.key host.user (op :: ops) complete host.state ran.1 ran.2.state := by
  rw [Update.exec_bind, exec_applyAndSeal]
  by_cases isAccepted : accepted sha256 op = true
  · rw [if_pos isAccepted]
    have isSealed := isOk_sealOp encrypts isAccepted nonce host.key host.user
    cases made : sealOp aead nonce host.key host.user op with
    | error error =>
        rw [made] at isSealed
        exact .lost isAccepted isSealed.symm fresh error
    | ok request =>
        rw [made] at isSealed
        have later := rest _ (.inr rfl)
        simp only [Except.map, Update.exec_bind]
        generalize next.exec { host with state := effect sha256 host.state op } = ran at later
        obtain ⟨result, after⟩ := ran
        have taken := later.taken isAccepted isSealed.symm fresh made
        cases result <;> exact taken
  · rw [if_neg isAccepted]
    have later := rest _ (.inl rfl)
    simp only [Update.exec_bind]
    generalize ranEq : next.exec host = ran at later ⊢
    obtain ⟨result, after⟩ := ran
    have refused := later.refused (Bool.not_eq_true _ ▸ isAccepted)
    cases result <;> exact refused

/-- The clock is not behind the state. -/
def Timely (host : HostState) : Prop :=
  host.state.maxLamport ≤ host.clock.last

theorem exec_sealOps_cons
    (now : Int64) (draws : Nat -> Draw) (position : Nat) (kind : Op) (kinds : List Op)
    (host : HostState) :
    (sealOps aead sha256 now draws position (kind :: kinds)).exec host =
      match makeOpWithId host.clock host.deviceId now (draws position).opId kind with
      | .error error => (.error error, host)
      | .ok (op, clock) =>
          (do
            let first ← applyAndSeal aead sha256 (draws position).nonce op
            let rest ← sealOps aead sha256 now draws (position + 1) kinds
            return first ++ rest : Update HostState (List AppendRequest)).exec
              { host with clock } := by
  rw [sealOps, Update.exec_bind, Update.exec_get]
  simp only [Update.exec_bind (liftM _), Update.exec_liftM]
  cases makeOpWithId host.clock host.deviceId now (draws position).opId kind <;> rfl

theorem outcome_sealOps
    (encrypts : Encrypts aead)
    {now : Int64} {draws : Nat -> Draw} (position : Nat) (kinds : List Op) (host : HostState)
    (timely : Timely host) :
    let ops := stamped now draws host.deviceId position host.clock kinds
    let ran := (sealOps aead sha256 now draws position kinds).exec host
    Outcome aead sha256 host.key host.user ops (ops.length == kinds.length) host.state ran.1
      ran.2.state := by
  induction kinds generalizing position host with
  | nil => exact .nil
  | cons kind kinds inductionHypothesis =>
      rw [exec_sealOps_cons, stamped]
      cases made : makeOpWithId host.clock host.deviceId now (draws position).opId kind with
      | error error => exact .stopped error
      | ok stampedOp =>
          obtain ⟨op, clock⟩ := stampedOp
          have times := lamport_of_makeOpWithId made
          have fresh : host.state.maxLamport < op.lamport := lt_of_le_of_lt timely times.1
          simp only [List.length_cons, Nat.reduceBeqDiff]
          refine outcome_cons encrypts _ { host with clock } fresh ?_
          intro state isState
          apply inductionHypothesis _ { host with clock, state }
          rw [Timely, times.2]
          rcases isState with rfl | rfl
          · exact fresh.le
          · exact max_le fresh.le le_rfl

theorem outcome_sealEach
    (encrypts : Encrypts aead) {draws : Nat -> Draw} (position : Nat) {ops : List StateOp}
    (increasing : ops.Pairwise fun op next => op.lamport < next.lamport) (host : HostState)
    (fresh : ∀ op ∈ ops, host.state.maxLamport < op.lamport) :
    let ran := (sealEach aead sha256 draws position ops).exec host
    Outcome aead sha256 host.key host.user ops true host.state ran.1 ran.2.state := by
  induction ops generalizing position host with
  | nil => exact .nil
  | cons op ops inductionHypothesis =>
      rw [List.pairwise_cons] at increasing
      rw [List.forall_mem_cons] at fresh
      rw [sealEach]
      refine outcome_cons encrypts _ host fresh.1 ?_
      intro state isState
      apply inductionHypothesis _ increasing.2 { host with state }
      intro next member
      rcases isState with rfl | rfl
      · exact fresh.2 next member
      · exact max_lt (fresh.2 next member) (increasing.1 next member)

/-! ## Migrated operations -/

/-- The operations of a migration are stamped one after the other, and the clock shows the
last. -/
theorem times_migrateOps
    (sha256 : Bytes -> Digest) (deviceId : String) (tsMs : Int64)
    (kinds : List (OpId × Op))
    (scratch : PersonalState) (clock : LamportClock) :
    let ran := (migrateOps sha256 deviceId tsMs kinds scratch).exec clock
    clock.last ≤ ran.2.last ∧ ∀ ops, ran.1 = .ok ops ->
      (ops.Pairwise fun op next => op.lamport < next.lamport) ∧
        ∀ op ∈ ops, clock.last < op.lamport ∧ op.lamport ≤ ran.2.last := by
  induction kinds generalizing scratch clock with
  | nil =>
      refine ⟨le_rfl, ?_⟩
      rintro _ ⟨⟩
      exact ⟨.nil, List.forall_mem_nil _⟩
  | cons entry kinds inductionHypothesis =>
      rw [exec_migrateOps_cons]
      cases made : makeOpWithId clock deviceId tsMs entry.1 entry.2 with
      | error error => exact ⟨le_rfl, nofun⟩
      | ok stampedOp =>
          obtain ⟨op, probe⟩ := stampedOp
          by_cases kept : (accepted sha256 op && fitsRecord op) = true
          · have times := lamport_of_makeOpWithId made
            have rest := inductionHypothesis (effect sha256 scratch op) probe
            simp only [kept, if_true]
            generalize (migrateOps sha256 deviceId tsMs kinds _).exec probe = ran at rest
            obtain ⟨result, later⟩ := ran
            rw [times.2] at rest
            refine ⟨times.1.le.trans rest.1, fun ops isOps => ?_⟩
            cases result with
            | error error => cases isOps
            | ok following =>
                cases isOps
                obtain ⟨increasing, within⟩ := rest.2 following rfl
                refine ⟨.cons (fun next member => (within next member).1) increasing, ?_⟩
                rw [List.forall_mem_cons]
                exact ⟨⟨times.1, rest.1⟩, fun next member =>
                  ⟨times.1.trans (within next member).1, (within next member).2⟩⟩
          · simp only [kept]
            exact inductionHypothesis scratch clock

/-! ## The clock of a host -/

theorem timely_applyAndSeal {nonce : FixedBytes nonceLen} {op : StateOp} {host later : HostState}
    {result : Result (List AppendRequest)}
    (ran : (applyAndSeal aead sha256 nonce op).exec host = (result, later))
    (within : op.lamport ≤ host.clock.last)
    (timely : Timely host) : Timely later ∧ later.clock = host.clock := by
  rw [exec_applyAndSeal] at ran
  split at ran
  · obtain ⟨-, rfl⟩ := Prod.mk.inj ran
    exact ⟨max_le timely within, rfl⟩
  · obtain ⟨-, rfl⟩ := Prod.mk.inj ran
    exact ⟨timely, rfl⟩

theorem timely_cons {nonce : FixedBytes nonceLen} {op : StateOp}
    {next : Update HostState (List AppendRequest)}
    (host : HostState) (within : op.lamport ≤ host.clock.last) (timely : Timely host)
    (rest : ∀ later, Timely later -> later.clock = host.clock ->
      Fallible.Leaves Timely next later) :
    Fallible.Leaves Timely (do
      let first ← applyAndSeal aead sha256 nonce op
      let rest ← next
      return first ++ rest) host := by
  refine Fallible.leaves_bind (fun error later ran => ?_) fun first later ran => ?_
  · exact (timely_applyAndSeal ran within timely).1
  · obtain ⟨timely, sameClock⟩ := timely_applyAndSeal ran within timely
    have rest := rest later timely sameClock
    refine Fallible.leaves_bind (fun error final ran => ?_) fun found final ran => ?_
    · rwa [Fallible.Leaves, ran] at rest
    · rwa [Fallible.Leaves, ran] at rest

theorem timely_sealEach
    (draws : Nat -> Draw) (position : Nat) {ops : List StateOp} (host : HostState)
    (within : ∀ op ∈ ops, op.lamport ≤ host.clock.last) (timely : Timely host) :
    Fallible.Leaves Timely (sealEach aead sha256 draws position ops) host := by
  induction ops generalizing position host with
  | nil => exact timely
  | cons op ops inductionHypothesis =>
      rw [List.forall_mem_cons] at within
      rw [sealEach]
      refine timely_cons host within.1 timely fun later timely sameClock => ?_
      exact inductionHypothesis (position + 1) later (sameClock ▸ within.2) timely

theorem timely_sealOps
    (now : Int64) (draws : Nat -> Draw) (position : Nat) (kinds : List Op) (host : HostState)
    (timely : Timely host) :
    Fallible.Leaves Timely (sealOps aead sha256 now draws position kinds) host := by
  induction kinds generalizing position host with
  | nil => exact timely
  | cons kind kinds inductionHypothesis =>
      change Timely ((sealOps aead sha256 now draws position (kind :: kinds)).exec host).2
      rw [exec_sealOps_cons]
      cases made : makeOpWithId host.clock host.deviceId now (draws position).opId kind with
      | error error => exact timely
      | ok stampedOp =>
          obtain ⟨op, clock⟩ := stampedOp
          have times := lamport_of_makeOpWithId made
          have within : op.lamport ≤ clock.last := times.2.ge
          have timely : Timely { host with clock } :=
            (le_trans timely times.1.le).trans within
          exact timely_cons { host with clock } within timely
            fun later timely _ => inductionHypothesis (position + 1) later timely

theorem times_migrateSnapshotWith
    (sha256 : Bytes -> Digest) (deviceId : String) (tsMs : Int64) (snapshot : StateSnapshot)
    (opIds : Nat -> OpId) (clock : LamportClock) :
    let ran := (migrateSnapshotWith sha256 deviceId tsMs snapshot opIds).exec clock
    clock.last ≤ ran.2.last ∧ ∀ ops, ran.1 = .ok ops ->
      (ops.Pairwise fun op next => op.lamport < next.lamport) ∧
        ∀ op ∈ ops, clock.last < op.lamport ∧ op.lamport ≤ ran.2.last := by
  rw [migrateSnapshotWith, Update.exec_bind, Update.exec_liftM]
  cases require (isValidDeviceId deviceId) (.invalidField "device_id") with
  | error error =>
      refine ⟨le_rfl, ?_⟩
      rintro _ ⟨⟩
  | ok _ =>
      generalize (snapshotOps snapshot).zipIdx.map _ = kinds
      exact times_migrateOps sha256 deviceId tsMs kinds .new clock

theorem exec_migrate
    (now : Int64) (draws : Nat -> Draw) (own : StateSnapshot) (host : HostState) :
    (migrate aead sha256 now draws (some own)).exec host =
      let made := (migrateSnapshotWith sha256 host.deviceId now
        (withoutPresent own host.state.snapshot) fun position => (draws position).opId).exec
          host.clock
      match made.1 with
      | .error error => (.error error, { host with clock := made.2 })
      | .ok ops => (sealEach aead sha256 draws 0 ops).exec { host with clock := made.2 } := by
  simp only [migrate, parsed, present, Update.exec_bind, Update.exec_liftM, Update.exec_get]
  generalize (migrateSnapshotWith sha256 host.deviceId now _ _).exec host.clock = made
  obtain ⟨result, clock⟩ := made
  cases result <;> rfl

/-! ## Calls -/

section

variable {now : Int64} {draws : Nat -> Draw}

/-- What a call does, if it is no migration. -/
theorem exec_run {call : Call}
    (noMigration : ∀ own, call ≠ .migrate own) (host : HostState) :
    (call.run aead sha256 now draws).exec host =
      match call.changes host with
      | none => (.error .malformed, host)
      | some kinds => (sealOps aead sha256 now draws 0 kinds).exec host := by
  cases call with
  | migrate own => exact absurd rfl (noMigration own)
  | diff desired kinds =>
      change (diff aead sha256 now draws desired kinds).exec host = _
      cases desired with
      | none => rfl
      | some desired =>
          cases kinds with
          | none => rfl
          | some kinds =>
              simp only [diff, parsed, present, Update.exec_bind, Update.exec_liftM,
                Update.exec_get]
              rfl
  | markSent ref => cases ref <;> rfl
  | callSet record => cases record <;> rfl
  | groupInviteSet invite => cases invite <;> rfl
  | groupInviteRemove ref => cases ref <;> rfl
  | plannerContainerSet domain id => cases id <;> rfl
  | cloudContainerSet container => cases container <;> rfl
  | chatCleared cleared => cases cleared <;> rfl

theorem made_of_changes {call : Call}
    (noMigration : ∀ own, call ≠ .migrate own) (host : HostState) :
    call.made sha256 now draws host =
      match call.changes host with
      | some kinds =>
          let ops := stamped now draws host.deviceId 0 host.clock kinds
          (ops, ops.length == kinds.length)
      | none => ([], false) := by
  cases call with
  | migrate own => exact absurd rfl (noMigration own)
  | _ => rfl

theorem outcome_run
    (sha256 : Bytes -> Digest) (now : Int64) (draws : Nat -> Draw) (encrypts : Encrypts aead)
    (call : Call) {host : HostState} (timely : Timely host) :
    let made := call.made sha256 now draws host
    let ran := (call.run aead sha256 now draws).exec host
    Outcome aead sha256 host.key host.user made.1 made.2 host.state ran.1 ran.2.state := by
  by_cases migration : ∃ own, call = .migrate own
  · obtain ⟨own, rfl⟩ := migration
    cases own with
    | none => exact .stopped _
    | some own =>
        have times := times_migrateSnapshotWith sha256 host.deviceId now
          (withoutPresent own host.state.snapshot) (fun position => (draws position).opId) host.clock
        rw [Call.run, exec_migrate]
        simp only [Call.made, Option.map_some]
        generalize (migrateSnapshotWith sha256 host.deviceId now _ _).exec host.clock = made at times
        obtain ⟨result, clock⟩ := made
        cases result with
        | error error => exact .stopped error
        | ok ops =>
            obtain ⟨increasing, within⟩ := times.2 ops rfl
            exact outcome_sealEach encrypts 0 increasing { host with clock }
              fun op member => lt_of_le_of_lt timely (within op member).1
  · have noMigration (own) : call ≠ .migrate own := fun same => migration ⟨own, same⟩
    rw [exec_run noMigration, made_of_changes noMigration]
    cases call.changes host with
    | none => exact .stopped _
    | some kinds => exact outcome_sealOps encrypts 0 kinds host timely

theorem timely_run
    (call : Call) {host : HostState}
    (timely : Timely host) : Timely ((call.run aead sha256 now draws).exec host).2 := by
  by_cases migration : ∃ own, call = .migrate own
  · obtain ⟨own, rfl⟩ := migration
    cases own with
    | none => exact timely
    | some own =>
        have times := times_migrateSnapshotWith sha256 host.deviceId now
          (withoutPresent own host.state.snapshot) (fun position => (draws position).opId) host.clock
        rw [Call.run, exec_migrate]
        generalize (migrateSnapshotWith sha256 host.deviceId now _ _).exec host.clock = made at times
        obtain ⟨result, clock⟩ := made
        have timely : Timely { host with clock } := le_trans timely times.1
        cases result with
        | error error => exact timely
        | ok ops =>
            exact timely_sealEach draws 0 { host with clock }
              (fun op member => ((times.2 ops rfl).2 op member).2) timely
  · have noMigration (own) : call ≠ .migrate own := fun same => migration ⟨own, same⟩
    rw [exec_run noMigration]
    cases call.changes host with
    | none => exact timely
    | some kinds => exact timely_sealOps now draws 0 kinds host timely

end

/-! ## Every host -/

/-- The hosts that come of a session, of records of the journal and of calls. -/
inductive Reached (aead : Aead StateKey) (sha256 : Bytes -> Digest)
    (decode : Bytes -> Option StateOp) : HostState -> Prop
  | session (user : String) (former : List String) (deviceId : String) (key : StateKey) :
      Reached aead sha256 decode (session user former deviceId key)
  | ingest (records : List StateRecord) (before : Reached aead sha256 decode host) :
      Reached aead sha256 decode (ingest aead sha256 decode host records).2
  | call (now : Int64) (draws : Nat -> Draw) (call : Call)
      (before : Reached aead sha256 decode host) :
      Reached aead sha256 decode ((call.run aead sha256 now draws).exec host).2

theorem timely_of_reached {decode : Bytes -> Option StateOp} {host : HostState}
    (reached : Reached aead sha256 decode host) : Timely host := by
  induction reached with
  | session user former deviceId key => exact le_rfl
  | ingest records before inductionHypothesis => exact le_max_right _ _
  | call now draws call before inductionHypothesis => exact timely_run call inductionHypothesis

/-- A call that fails leaves the state as it was.  Of a call that succeeds, the operations
that are applied are those whose records are returned. -/
structure Together (aead : Aead StateKey) (sha256 : Bytes -> Digest) (before : HostState)
    (ops : List StateOp) (result : Result (List AppendRequest)) (later : HostState) : Prop where
  failed : ∀ error, result = .error error -> later.state = before.state
  succeeded : ∀ requests, result = .ok requests ->
    later.state = (applyAll sha256 ops before.state).2 ∧
      SealsOf aead before.key before.user (ops.filter (accepted sha256)) requests

/-- Changes and records stay together exactly when nothing is applied, or when all changes
get a time and the records of all that are applied can be made. -/
theorem together_iff
    (encrypts : Encrypts aead)
    {decode : Bytes -> Option StateOp}
    {host : HostState}
    (reached : Reached aead sha256 decode host)
    (now : Int64)
    (draws : Nat -> Draw)
    (call : Call) :
    let made := call.made sha256 now draws host
    let ran := (call.run aead sha256 now draws).exec host
    Together aead sha256 host made.1 ran.1 ran.2 ↔
      (∀ op ∈ made.1, accepted sha256 op = false) ∨
        made.2 = true ∧ ∀ op ∈ made.1, accepted sha256 op = true ->
          sealable host.user op = true := by
  have outcome := outcome_run sha256 now draws encrypts call (timely_of_reached reached)
  dsimp only at outcome ⊢
  rw [← outcome.isOk]
  generalize (call.run aead sha256 now draws).exec host = ran at outcome ⊢
  obtain ⟨error | requests, later⟩ := ran
  · have same := outcome.same error rfl
    constructor
    · intro together
      exact .inl (same.1 (together.failed error rfl))
    · rintro (none | succeeded)
      · exact ⟨fun _ _ => same.2 none, nofun⟩
      · cases succeeded
  · refine iff_of_true ⟨nofun, fun found isFound => ?_⟩ (.inr rfl)
    rw [applyAll, applyAllFrom_state]
    exact outcome.ok found isFound

theorem encrypts_plainAead : Encrypts plainAead :=
  fun _ _ _ _ _ => rfl

def sampleHost : HostState :=
  session "alice@example.org" [] "device-1" sampleStateKey

def sampleDraw (position : Nat) : Draw where
  opId := ⟨List.replicate 16 (UInt8.ofNat position), by simp⟩
  nonce := sampleNonce

/-- An invite with a title of so many letters. -/
def titledInvite (letters : Nat) : GroupInvite where
  groupId := List.replicate 16 1
  linkId := List.replicate 32 2
  url := "https://example.org/i"
  createdMs := 0
  title := String.ofList (List.replicate letters 'a')
  expiresMs := 0
  usageLimit := 0
  requiresApproval := false

def invitedOp (letters : Nat) : StateOp where
  opId := (sampleDraw 0).opId.bytes
  lamport := 1
  deviceId := "device-1"
  tsMs := 0
  op := some (.groupInviteSet (titledInvite letters))

theorem accepted_invitedOp (letters : Nat) : accepted sampleDigest (invitedOp letters) = true := by
  have header : checkHeader (invitedOp letters) = .ok () := by
    have device : isValidDeviceId "device-1" = true := by decide +kernel
    simp [checkHeader, invitedOp, device, opId16, FixedBytes.ofBytes?, acceptLamportCeiling, present,
      require, sampleDraw]
  have kind : (invitedOp letters).op = some (.groupInviteSet (titledInvite letters)) := rfl
  have opId : opId16 (invitedOp letters).opId "op_id" = .ok (sampleDraw 0).opId := rfl
  have link : linkId32 (titledInvite letters).linkId = .ok (List.replicate 32 2) := rfl
  have filled : (!(List.replicate 16 (1 : UInt8)).isEmpty &&
      !"https://example.org/i".isEmpty) = true := by
    decide +kernel
  change (!(titledInvite letters).groupId.isEmpty && !(titledInvite letters).url.isEmpty) = true
    at filled
  simp [accepted, apply, header, opId, kind, applyKind, link, filled, require, Except.isOk,
    Except.toBool]

theorem length_invitedOp (letters : Nat) : letters ≤ (encode (invitedOp letters)).length := by
  have titled := length_le_utf8 (List.replicate letters 'a')
  rw [List.length_replicate] at titled
  by_cases blank : utf8 (String.ofList (List.replicate letters 'a')) = []
  · rw [blank] at titled
    exact titled.trans (Nat.zero_le _)
  · have title : (⟨5, .delimited (utf8 (titledInvite letters).title)⟩ : Field) ∈
        Message.fields (titledInvite letters) := by
      simp [Message.fields, string, bytes, titledInvite, blank]
    have kind : (⟨29, .delimited (encode (titledInvite letters))⟩ : Field) ∈
        Message.fields (invitedOp letters) := by
      simp [Message.fields, invitedOp, Op.field]
    calc
      letters ≤ (utf8 (titledInvite letters).title).length := titled
      _ ≤ (encode (titledInvite letters)).length := length_le_encode title
      _ ≤ (encode (invitedOp letters)).length := length_le_encode kind

theorem made_titledInvite (letters : Nat) :
    (Call.groupInviteSet (some (titledInvite letters))).made sampleDigest 0 sampleDraw sampleHost =
      ([invitedOp letters], true) := by
  have device : isValidDeviceId "device-1" = true := by decide +kernel
  have made : makeOpWithId ⟨0⟩ "device-1" 0 (sampleDraw 0).opId
      (.groupInviteSet (titledInvite letters)) = .ok (invitedOp letters, ⟨1⟩) :=
    makeOpWithId_eq_ok.2 ⟨device, by decide, rfl, rfl⟩
  have changed : Call.changes sampleHost (.groupInviteSet (some (titledInvite letters))) =
      some [.groupInviteSet (titledInvite letters)] := rfl
  rw [made_of_changes (by rintro _ ⟨⟩), changed]
  simp [stamped, sampleHost, session, made]

theorem together_iff_sample :
    let ran := ((Call.groupInviteSet (some (titledInvite 4))).run plainAead sampleDigest 0
      sampleDraw).exec sampleHost
    Together plainAead sampleDigest sampleHost [invitedOp 4] ran.1 ran.2 := by
  have reached : Reached plainAead sampleDigest (fun _ => none) sampleHost := .session ..
  have together := together_iff encrypts_plainAead reached 0 sampleDraw
    (.groupInviteSet (some (titledInvite 4)))
  rw [made_titledInvite] at together
  have short : (encode (invitedOp 4)).length < 1024 := by decide +kernel
  have small : nonceLen + 1024 + tagLen < maxRecord := by decide
  have valid : isValidAddress sampleHost.user = true := by decide +kernel
  have fits : sealable sampleHost.user (invitedOp 4) = true := by
    generalize invitedOp 4 = op at short
    rw [sealable, valid, fitsRecord, Bool.true_and, decide_eq_true_eq]
    omega
  refine together.2 (.inr ⟨rfl, fun op member _ => ?_⟩)
  cases List.mem_singleton.1 member
  exact fits

/-- The record of an invite with a long title is not made, but the device has the invite. -/
theorem invite_lost :
    Reached plainAead sampleDigest (fun _ => none) sampleHost ∧
      ∃ error later,
        ((Call.groupInviteSet (some (titledInvite 262144))).run plainAead sampleDigest 0
          sampleDraw).exec sampleHost = (.error error, later) ∧
        later.state ≠ sampleHost.state := by
  refine ⟨.session .., ?_⟩
  have outcome := outcome_run sampleDigest 0 sampleDraw encrypts_plainAead
    (.groupInviteSet (some (titledInvite 262144)))
    (le_rfl : Timely sampleHost)
  rw [made_titledInvite] at outcome
  have isAccepted := accepted_invitedOp 262144
  have large : sealable sampleHost.user (invitedOp 262144) = false := by
    have length := length_invitedOp 262144
    generalize invitedOp 262144 = op at length
    have small : maxRecord < nonceLen + 262144 + tagLen := by decide
    rw [sealable, fitsRecord, Bool.and_eq_false_iff, decide_eq_false_iff_not, not_le]
    right
    omega
  generalize invitedOp 262144 = op at outcome isAccepted large
  generalize (Call.run _ _ _ _ _).exec sampleHost = ran at outcome
  obtain ⟨error | requests, later⟩ := ran
  · refine ⟨error, later, rfl, fun same => ?_⟩
    have refused := (outcome.same error rfl).1 same op List.mem_cons_self
    exact Bool.noConfusion (isAccepted.symm.trans refused)
  · have fits := (outcome.isOk.1 rfl).2 op List.mem_cons_self isAccepted
    exact Bool.noConfusion (large.symm.trans fits)

end HostState

end Parvane.State
