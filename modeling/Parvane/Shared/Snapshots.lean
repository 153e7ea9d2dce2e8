import Parvane.Cloud.Snapshot
import Parvane.Planner.Snapshot
import Parvane.Shared.Replica

/-!
# Taking in a snapshot of a container

A client that falls behind asks for a snapshot of the container and merges it into its state.
The stamps of the snapshot are held against the guard of the client before.
-/

namespace Parvane.Shared

open Wire Sign Domain

def opSnapshot : String := "snapshot"
def domainSnapshotAad : Bytes := utf8 "parvane/v2/domain-snapshot" ++ [0]

/-- A snapshot as it stands on the server. -/
structure Snapshot where
  container : Option Ref
  uptoSeq : UInt64
  keyEpoch : UInt64
  aeadCiphertext : Bytes
  author : Option SignedOp
  deriving DecidableEq

section

variable (library : Library)

def verifySnapshotSeal (snapshot : Snapshot) : Result ContainerAccess.VerifiedSeal :=
  verifySealInner library snapshot.author opSnapshot snapshot.container snapshot.keyEpoch
    snapshot.aeadCiphertext snapshot.uptoSeq

/-- Decrypt a snapshot. -/
def openSnapshot (snapshot : Snapshot) (container : Domain.Container) (key : Key) :
    Result Bytes := do
  let verified ← verifySnapshotSeal library snapshot
  let ref ← containerRef container
  require (snapshot.container == some ref) .contextMismatch
  aeadOpen library key
    (sealAad domainSnapshotAad ref container.domain snapshot.keyEpoch (some snapshot.uptoSeq)
      verified.opId)
    snapshot.aeadCiphertext

def checkSnapshotAuthor (access : ContainerAccess) (snapshot : Snapshot) (resolve : KeyResolver)
    (groups : Membership) : Result Author := do
  let ref ← containerRef access.container
  require (snapshot.container == some ref) .contextMismatch
  let verified ← verifySnapshotSeal library snapshot
  access.authorAt verified snapshot.keyEpoch snapshot.uptoSeq resolve groups

end

/-- The container as a client has it, with the place of the last snapshot. -/
structure Kept (σ : Type) extends Local σ where
  snapshotSeq : UInt64 := 0

namespace Kept

/-- The guard and the cursors. -/
def clock (kept : Kept σ) : LamportGuard × UInt64 × UInt64 :=
  (kept.core.guard, kept.headSeq, kept.snapshotSeq)

end Kept

/-- Check the author of a snapshot, decrypt and decode it. -/
def readSnapshot (client : Client) (decode : Bytes -> Result τ) (kept : Kept σ)
    (snapshot : Snapshot) : Result τ := do
  let _ ← checkSnapshotAuthor client.library kept.access snapshot client.resolve noGroups
  let key ← present kept.keys[snapshot.keyEpoch]? .crypto
  let plain ← openSnapshot client.library snapshot kept.access.container key
  decode plain

/-- Take in the answer of the server, which may have no snapshot. -/
def ingestSnapshot
    (decodeResponse : Bytes -> Result (Option Snapshot))
    (take : Snapshot -> Kept σ -> Result Unit × Kept σ) (response : Bytes)
    (replica : Option (Kept σ)) : Result UInt64 × Option (Kept σ) :=
  match decodeResponse response with
  | .error error => (.error error, replica)
  | .ok none => (.ok (replica.elim 0 fun kept => kept.headSeq), replica)
  | .ok (some snapshot) =>
      match replica with
      | none => (.error .notFound, none)
      | some kept =>
          let (taken, later) := take snapshot kept
          (taken.map fun _ => later.headSeq, some later)

/-! ## The planner -/

section

variable (client : Client) (isUppercase : Char -> Bool)
variable (decodeSnapshot : Bytes -> Result Planner.PlannerSnapshot)

def takePlannerSnapshot (snapshot : Snapshot) (kept : Kept Planner.PlannerState) :
    Result Unit × Kept Planner.PlannerState :=
  match readSnapshot client decodeSnapshot kept snapshot with
  | .error error => (.error error, kept)
  | .ok decoded =>
      match (Planner.guardSnapshot decoded snapshot.uptoSeq).exec kept.core.guard with
      | (.error error, guard) => (.error error, { kept with core := { kept.core with guard } })
      | (.ok _, guard) =>
          match (Planner.mergeSnapshot isUppercase decoded).exec kept.core.state with
          | (.error error, state) =>
              (.error error, { kept with core := { kept.core with guard, state } })
          | (.ok _, state) =>
              (.ok (),
                { kept with
                  core := { kept.core with guard, state }
                  headSeq :=
                    if kept.headSeq < snapshot.uptoSeq then snapshot.uptoSeq else kept.headSeq
                  snapshotSeq := max kept.snapshotSeq snapshot.uptoSeq })

def plannerIngestSnapshot (decodeResponse : Bytes -> Result (Option Snapshot)) :
    Bytes -> Option (Kept Planner.PlannerState) ->
      Result UInt64 × Option (Kept Planner.PlannerState) :=
  ingestSnapshot decodeResponse (takePlannerSnapshot client isUppercase decodeSnapshot)

end

/-! ## A folder of the cloud -/

section

variable (client : Client)
variable (decodeSnapshot : Bytes -> Result Cloud.CloudSnapshot)

def takeCloudSnapshot (snapshot : Snapshot) (kept : Kept Cloud.CloudState) :
    Result Unit × Kept Cloud.CloudState :=
  match readSnapshot client decodeSnapshot kept snapshot with
  | .error error => (.error error, kept)
  | .ok decoded =>
      match Cloud.guardSnapshot kept.core.guard decoded snapshot.uptoSeq with
      | .error error => (.error error, kept)
      | .ok greatest =>
          match (Cloud.mergeSnapshot decoded).exec kept.core.state with
          | (.error error, state) => (.error error, { kept with core := { kept.core with state } })
          | (.ok _, state) =>
              let raised := max kept.core.guard.maxSeen greatest
              (.ok (),
                { kept with
                  core :=
                    { kept.core with
                      guard := ⟨if raised < state.maxLamport then state.maxLamport else raised⟩
                      state }
                  headSeq := max kept.headSeq snapshot.uptoSeq
                  snapshotSeq := max kept.snapshotSeq snapshot.uptoSeq })

def cloudIngestSnapshot (decodeResponse : Bytes -> Result (Option Snapshot)) :
    Bytes -> Option (Kept Cloud.CloudState) -> Result UInt64 × Option (Kept Cloud.CloudState) :=
  ingestSnapshot decodeResponse (takeCloudSnapshot client decodeSnapshot)

end

/-! ## What a refusal leaves -/

/-- A call that fails leaves a part of the state as it was. -/
def Whole (part : σ -> τ) (before : σ) (after : Except ε α × σ) : Prop :=
  after.1.isOk = false -> part after.2 = part before

/-- A call on an answer leaves the guard and the cursors if the call on the snapshot in it
does. -/
theorem ingestSnapshot_whole_iff
    (decodeResponse : Bytes -> Result (Option Snapshot))
    (take : Snapshot -> Kept σ -> Result Unit × Kept σ) (response : Bytes)
    (replica : Option (Kept σ)) :
    Whole (Option.map Kept.clock) replica
        (ingestSnapshot decodeResponse take response replica) ↔
      ∀ kept ∈ replica, ∀ snapshot, decodeResponse response = .ok (some snapshot) ->
        Whole Kept.clock kept (take snapshot kept) := by
  unfold ingestSnapshot
  cases decodeResponse response with
  | error error => simp [Whole]
  | ok found =>
      cases found with
      | none => simp [Whole]
      | some snapshot =>
          cases replica with
          | none => simp [Whole]
          | some kept =>
              have same : ((take snapshot kept).1.map fun _ =>
                  (take snapshot kept).2.headSeq).isOk = (take snapshot kept).1.isOk := by
                cases (take snapshot kept).1 <;> rfl
              simp [Whole, same]

/-- A snapshot with an object that is not valid has no stamp that is new to the guard, unless
it is refused before it comes to the guard. -/
def NothingNew (isUppercase : Char -> Bool) (guard : LamportGuard) (uptoSeq : UInt64)
    (decoded : Planner.PlannerSnapshot) : Prop :=
  ∀ stamps, Planner.snapshotStamps decoded = .ok stamps ->
    Planner.greatestLamport stamps ≤ Planner.lamportLimit guard uptoSeq ->
    (∃ change ∈ decoded.changes, (Planner.checkChange isUppercase change).isOk = false) ->
      Planner.greatestLamport stamps ≤ guard.maxSeen

theorem takePlannerSnapshot_whole_iff
    (client : Client) (isUppercase : Char -> Bool)
    (decodeSnapshot : Bytes -> Result Planner.PlannerSnapshot) (snapshot : Snapshot)
    (kept : Kept Planner.PlannerState) :
    Whole Kept.clock kept
        (takePlannerSnapshot client isUppercase decodeSnapshot snapshot kept) ↔
      ∀ decoded, readSnapshot client decodeSnapshot kept snapshot = .ok decoded ->
        NothingNew isUppercase kept.core.guard snapshot.uptoSeq decoded := by
  unfold takePlannerSnapshot NothingNew
  cases readSnapshot client decodeSnapshot kept snapshot with
  | error error => simp [Whole]
  | ok decoded =>
      simp only [Except.ok.injEq, forall_eq']
      rw [Planner.exec_guardSnapshot]
      cases stamped : Planner.snapshotStamps decoded with
      | error error => simp [Whole]
      | ok stamps =>
          simp only [Except.ok.injEq, forall_eq']
          by_cases inside :
              Planner.greatestLamport stamps ≤ Planner.lamportLimit kept.core.guard
                snapshot.uptoSeq
          · rw [if_pos inside, Planner.exec_mergeSnapshot, stamped]
            have refused := Update.isOk_forM_map_iff (Planner.checkChange isUppercase)
              decoded.changes
            cases merged : decoded.changes.forM fun change =>
                (Planner.checkChange isUppercase change).map fun _ => () with
            | error error =>
                rw [merged] at refused
                have bad : ∃ change ∈ decoded.changes,
                    (Planner.checkChange isUppercase change).isOk = false := by
                  simpa [Except.isOk, Except.toBool] using refused
                refine ⟨fun whole _ _ => ?_, fun small _ => ?_⟩
                · have same := congrArg (fun clock => clock.1.maxSeen) (whole rfl)
                  exact max_eq_left_iff.1 same
                · simp only [Kept.clock, max_eq_left (small inside bad)]
            | ok passed =>
                rw [merged] at refused
                have good : ¬ ∃ change ∈ decoded.changes,
                    (Planner.checkChange isUppercase change).isOk = false := by
                  simpa [Except.isOk, Except.toBool] using refused
                refine ⟨fun _ _ bad => absurd bad good, fun _ failed => ?_⟩
                cases failed
          · rw [if_neg inside]
            simp [Whole, inside]

/-- The guard of a folder is raised after the merge. -/
theorem takeCloudSnapshot_whole
    (client : Client) (decodeSnapshot : Bytes -> Result Cloud.CloudSnapshot) (snapshot : Snapshot)
    (kept : Kept Cloud.CloudState) :
    Whole Kept.clock kept (takeCloudSnapshot client decodeSnapshot snapshot kept) := by
  unfold takeCloudSnapshot
  cases readSnapshot client decodeSnapshot kept snapshot with
  | error error => exact fun _ => rfl
  | ok decoded =>
      cases guarded : Cloud.guardSnapshot kept.core.guard decoded snapshot.uptoSeq with
      | error error =>
          simp only [guarded]
          exact fun _ => rfl
      | ok greatest =>
          simp only [guarded]
          rcases (Cloud.mergeSnapshot decoded).exec kept.core.state with ⟨_ | _, state⟩
          · exact fun _ => rfl
          · intro accepted
            cases accepted

/-- A planner with a task and with an event that has no identifier. -/
def sampleHalfPlanner : Planner.PlannerSnapshot where
  tasks := [{ id := "t1", name := some ⟨some ⟨1, "d1"⟩, "Milk"⟩ }]
  events := [{ id := "", name := some ⟨some ⟨2, "d1"⟩, "Fair"⟩ }]

/-- A folder with a title and with a node that has no identifier. -/
def sampleHalfCloud : Cloud.CloudSnapshot where
  devices := ["d1"]
  title := some ⟨"Photos", some ⟨1, "d1"⟩⟩
  entries := [{ nodeId := [], kind := 1, createLamport := 2 }]

end Parvane.Shared
