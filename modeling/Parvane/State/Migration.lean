import Parvane.Codec.Records
import Parvane.State.Convergence
import Parvane.State.Snapshot

/-!
# Moving local data into the journal

A device that starts for the first time writes its local data as operations.  What the
journal has already is left out, so that the defaults of a new device do not replace what
other devices have chosen.
-/

namespace Parvane.State

open Wire Codec

/-! ## What the journal has -/

/-- The encoding of a key, empty if there is none. -/
def encodedKey [Message ν] (key : Option ν) : Bytes :=
  (key.map encode).getD []

/-- The local items whose key is not there yet. -/
def retainMissing [DecidableEq κ] (key : ν -> κ) (items present : List ν) : List ν :=
  items.filter fun item => !(present.map key).contains (key item)

/-- A register is moved only if there is none. -/
def retainRegister (value present : Option ν) : Option ν :=
  if present.isSome then none else value

/-- The local data that the journal does not have. -/
def withoutPresent (own current : StateSnapshot) : StateSnapshot where
  folders := retainMissing Folder.id own.folders current.folders
  folderOrder := retainRegister own.folderOrder current.folderOrder
  blocked := retainMissing (fun entry => encodedKey entry.peer) own.blocked current.blocked
  notify := retainMissing (fun notify => encodedKey notify.peer) own.notify current.notify
  notifyDefaults := retainRegister own.notifyDefaults current.notifyDefaults
  drafts := retainMissing (fun draft => encodedKey draft.peer) own.drafts current.drafts
  scheduled := retainMissing ScheduledMessage.opId own.scheduled current.scheduled
  scheduledSent := retainMissing id own.scheduledSent current.scheduledSent
  archived := retainMissing (fun peer => encodedKey (some peer)) own.archived current.archived
  pinned := retainMissing PinnedOrder.list own.pinned current.pinned
  calls := retainMissing CallRecord.callId own.calls current.calls
  cleared := retainMissing (fun cleared => encodedKey cleared.peer) own.cleared current.cleared
  invites := retainMissing GroupInvite.linkId own.invites current.invites
  plannerContainer := retainRegister own.plannerContainer current.plannerContainer
  cloudContainers := retainMissing (fun container => encodedKey container.ref)
    own.cloudContainers current.cloudContainers
  unreadMarks := retainMissing (fun peer => encodedKey (some peer)) own.unreadMarks
    current.unreadMarks
  quickReaction := retainRegister own.quickReaction current.quickReaction
  stickerPacks := retainMissing StickerPack.setId own.stickerPacks current.stickerPacks

/-! ## The first operations -/

/-- An operation for everything in a snapshot. -/
def snapshotOps (snapshot : StateSnapshot) : List Op :=
  snapshot.folders.map .folderSet ++
  snapshot.folderOrder.toList.map .folderOrder ++
  snapshot.blocked.map .blockSet ++
  snapshot.notify.map .notifySet ++
  snapshot.notifyDefaults.toList.map .notifyDefaults ++
  snapshot.drafts.map .draftSet ++
  snapshot.scheduled.map .scheduledSet ++
  snapshot.scheduledSent.map (fun id => .scheduledSent ⟨id⟩) ++
  snapshot.archived.map (fun peer => .archiveSet ⟨some peer⟩) ++
  snapshot.pinned.map .pinnedOrder ++
  snapshot.calls.map .callSet ++
  snapshot.cleared.map .chatCleared ++
  snapshot.invites.map .groupInviteSet ++
  snapshot.plannerContainer.toList.map .plannerContainerSet ++
  snapshot.cloudContainers.map .cloudContainerSet ++
  snapshot.unreadMarks.map (fun peer => .unreadMarkSet ⟨some peer⟩) ++
  snapshot.quickReaction.toList.map .quickReaction ++
  snapshot.stickerPacks.map .stickerPackSet

section

variable (sha256 : Bytes -> Digest) (deviceId : String) (tsMs : Int64)

/-- The record of the operation is not too long. -/
def fitsRecord (op : StateOp) : Bool :=
  nonceLen + (encode op).length + tagLen ≤ maxRecord

/-- Make the operations in turn.  Those that are too long or refused are left out, and the
time they were made with is used again. -/
def migrateOps : List (OpId × Op) -> PersonalState -> Update LamportClock (List StateOp)
  | [], _ => return []
  | (opId, kind) :: kinds, scratch => do
      let clock ← get
      let (op, probe) ← makeOpWithId clock deviceId tsMs opId kind
      match (apply sha256 op).exec scratch with
      | (.ok (), later) =>
          if fitsRecord op then
            modify fun _ => probe
            let ops ← migrateOps kinds later
            return op :: ops
          else migrateOps kinds scratch
      | (.error _, _) => migrateOps kinds scratch

/-- The operations that write a snapshot into an empty journal.  The identifiers of the
operations come from the system. -/
def migrateSnapshotWith (snapshot : StateSnapshot) (opIds : Nat -> OpId) :
    Update LamportClock (List StateOp) := do
  require (isValidDeviceId deviceId) (.invalidField "device_id")
  migrateOps sha256 deviceId tsMs
    ((snapshotOps snapshot).zipIdx.map fun entry => (opIds entry.2, entry.1)) .new

end

theorem exec_migrateOps_cons
    (sha256 : Bytes -> Digest) (deviceId : String) (tsMs : Int64) (opId : OpId) (kind : Op)
    (kinds : List (OpId × Op))
    (scratch : PersonalState) (clock : LamportClock) :
    (migrateOps sha256 deviceId tsMs ((opId, kind) :: kinds) scratch).exec clock =
      match makeOpWithId clock deviceId tsMs opId kind with
      | .error error => (.error error, clock)
      | .ok (op, probe) =>
          if accepted sha256 op && fitsRecord op then
            let (result, later) :=
              (migrateOps sha256 deviceId tsMs kinds (effect sha256 scratch op)).exec probe
            (result.map (op :: ·), later)
          else (migrateOps sha256 deviceId tsMs kinds scratch).exec clock := by
  rw [migrateOps, Update.exec_bind, Update.exec_get]
  simp only [Update.exec_bind (liftM _), Update.exec_liftM]
  rcases makeOpWithId clock deviceId tsMs opId kind with error | ⟨op, probe⟩
  · rfl
  · rcases exec_apply sha256 op with ⟨refused, error, ran⟩ | ⟨isAccepted, ran⟩
    · simp only [ran, refused, Bool.false_and, Bool.false_eq_true, if_false]
    · simp only [ran, isAccepted, Bool.true_and]
      split
      · simp only [Update.exec_bind, Update.exec_modify]
        generalize (migrateOps sha256 deviceId tsMs kinds _).exec probe = rest
        obtain ⟨result, later⟩ := rest
        cases result <;> rfl
      · rfl

/-- The operations of a migration carry what the snapshot lists. -/
theorem mem_of_migrateOps {sha256 : Bytes -> Digest} {deviceId : String} {tsMs : Int64}
    {kinds : List (OpId × Op)}
    {scratch : PersonalState} {clock later : LamportClock} {ops : List StateOp}
    (ran : (migrateOps sha256 deviceId tsMs kinds scratch).exec clock = (.ok ops, later)) :
    ∀ op ∈ ops, ∀ kind ∈ op.op, kind ∈ kinds.map Prod.snd := by
  induction kinds generalizing scratch clock ops with
  | nil =>
      cases ran
      exact List.forall_mem_nil _
  | cons entry kinds inductionHypothesis =>
      rw [exec_migrateOps_cons] at ran
      cases made : makeOpWithId clock deviceId tsMs entry.1 entry.2 with
      | error error =>
          rw [made] at ran
          cases ran
      | ok stampedOp =>
          obtain ⟨op, probe⟩ := stampedOp
          have later (ops : List StateOp)
              (rest : ∀ op ∈ ops, ∀ kind ∈ op.op, kind ∈ kinds.map Prod.snd)
              (op) (member : op ∈ ops) (kind) (carried : kind ∈ op.op) :
              kind ∈ (entry :: kinds).map Prod.snd :=
            List.mem_cons_of_mem _ (rest op member kind carried)
          rw [made] at ran
          dsimp only at ran
          split at ran
          · revert ran
            rcases rest : (migrateOps sha256 deviceId tsMs kinds _).exec probe with
              ⟨error | following, final⟩
            · rintro ⟨⟩
            · rintro ⟨⟩
              rw [List.forall_mem_cons]
              refine ⟨fun kind carried => ?_, later following (inductionHypothesis rest)⟩
              obtain ⟨-, -, rfl, -⟩ := makeOpWithId_eq_ok.1 made
              cases carried
              exact List.mem_cons_self
          · exact later ops (inductionHypothesis ran)

theorem mem_of_migrateSnapshotWith
    {sha256 : Bytes -> Digest} {deviceId : String} {tsMs : Int64} {snapshot : StateSnapshot}
    {opIds : Nat -> OpId} {clock later : LamportClock} {ops : List StateOp}
    (ran : (migrateSnapshotWith sha256 deviceId tsMs snapshot opIds).exec clock =
      (.ok ops, later)) : ∀ op ∈ ops, ∀ kind ∈ op.op, kind ∈ snapshotOps snapshot := by
  rw [migrateSnapshotWith, Update.exec_bind, Update.exec_liftM] at ran
  cases valid : require (isValidDeviceId deviceId) (.invalidField "device_id") with
  | error error =>
      rw [valid] at ran
      cases ran
  | ok _ =>
      rw [valid] at ran
      intro op member kind carried
      have found := mem_of_migrateOps ran op member kind carried
      rw [List.map_map] at found
      obtain ⟨entry, isEntry, rfl⟩ := List.mem_map.1 found
      exact List.fst_mem_of_mem_zipIdx isEntry

end Parvane.State
