import Parvane.Foundation.Run
import Parvane.Shared.Seal
import Parvane.Cloud.State
import Parvane.Planner.State

/-!
# The replica of a container that a client keeps

A client takes in the grants of a container and its operations page by page.  The folders
of the cloud and the planner do this in the same way; they differ in what an operation is
and in a few details, which form a `Kind`.
-/

namespace Parvane.Shared

open Wire Sign Domain

/-- What differs between the domains: operations `β` act on states `σ`. -/
structure Kind (σ β : Type) where
  decode : Bytes -> Result β
  stamps : β -> Result (List Stamp)
  apply : β -> Author -> Update σ Nat
  /-- A refused entry of the grant log ends its page, unless it is one that is known. -/
  stopsAtRefusal : Bool

/-- A folder of the cloud. -/
def cloud (decodeBatch : Bytes -> Result Cloud.CloudBatch) :
    Kind Cloud.CloudState Cloud.CloudBatch where
  decode := decodeBatch
  stamps := Cloud.batchStamps
  apply := Cloud.applyBatchFrom
  stopsAtRefusal := true

/-- The planner. -/
def planner (isUppercase : Char -> Bool) (decodeOp : Bytes -> Result Planner.PlannerOp) :
    Kind Planner.PlannerState Planner.PlannerOp where
  decode := decodeOp
  stamps := Planner.opStamps
  apply op author := Planner.applyOp isUppercase op author.deviceId
  stopsAtRefusal := false

/-- What operations change.  The list of accepted operations serves statements only. -/
structure Core (σ : Type) where
  guard : LamportGuard := {}
  state : σ
  lastOpEpoch : UInt64 := 0
  accepted : List ContainerOp := []

/-- The container as a client has it, with the keys that wait for grants. -/
structure Local (σ : Type) where
  grants : List SignedOp
  access : ContainerAccess
  keys : KeyRing
  core : Core σ
  headSeq : UInt64 := 0
  pendingOps : List ContainerOp := []
  trustedKeys : List (UInt64 × Key) := []
  pendingKeys : List (List String × ContainerKeyShare) := []
  lastError : Option ProtoError := none

/-- What a client uses besides: the authors of the device keys it knows, and whether it
has the device logs for some entries. -/
structure Client where
  library : Library
  resolve : KeyResolver
  logsKnown : List SignedOp -> Bool

structure Ingest where
  applied : Nat := 0
  headSeq : UInt64 := 0
  more : Bool
  missingEpoch : Option UInt64 := none
  grantsBehind : Bool := false
  authorsBehind : Bool := false

/-- Containers of a client are not shared with groups. -/
def noGroups : Membership := fun _ _ => false

variable {σ β : Type} (kind : Kind σ β) (client : Client)

def Client.checkOpAuthor (access : ContainerAccess) (op : ContainerOp) : Result Author :=
  Shared.checkOpAuthor client.library access op client.resolve noGroups

/-- Decrypt an operation, check its stamps and apply it. -/
def openOne (access : ContainerAccess) (keys : KeyRing) (op : ContainerOp) (author : Author)
    (core : Core σ) : Result Nat × Core σ :=
  let opened : Result β := do
    let key ← present keys[op.keyEpoch]? .crypto
    let plain ← openOp client.library op access.container key
    kind.decode plain
  match opened with
  | .error error => (.error error, core)
  | .ok decoded =>
      match kind.stamps decoded with
      | .error error => (.error error, core)
      | .ok stamps =>
          match (LamportGuard.checkAll stamps).exec core.guard with
          | (.error error, guard) => (.error error, { core with guard })
          | (.ok _, guard) =>
              match (kind.apply decoded author).exec core.state with
              | (.error error, state) => (.error error, { core with guard, state })
              | (.ok count, state) =>
                  (.ok count, { core with guard, state, accepted := core.accepted ++ [op] })

/-! ## Grants and keys -/

/-- Apply the entries of a page.  An entry that is known breaks the chain and is passed
over. -/
def applyEntries : List SignedOp -> Local σ -> Local σ
  | [], replica => replica
  | entry :: entries, replica =>
      match (ContainerAccess.apply client.library.toDomain entry client.resolve noGroups).exec
          replica.access with
      | (.ok _, access) =>
          applyEntries entries { replica with access, grants := replica.grants ++ [entry] }
      | (.error error, access) =>
          if error = .brokenChain || !kind.stopsAtRefusal then
            applyEntries entries { replica with access }
          else { replica with access, lastError := some error }

/-- Take the keys from trusted sources whose epochs are known by now. -/
def absorbTrusted (replica : Local σ) : Local σ :=
  let known := fun (entry : UInt64 × Key) =>
    firstEpoch ≤ entry.1 && entry.1 ≤ replica.access.epoch
  { replica with
    keys := (replica.trustedKeys.filter known).foldl
      (fun keys entry => keys.insert entry.1 entry.2) replica.keys
    trustedKeys := replica.trustedKeys.filter fun entry => !known entry }

/-- Take the keys that others have sent; those that are ahead of the grants wait. -/
def absorbShares : List (List String × ContainerKeyShare) -> Local σ -> Local σ
  | [], replica => replica
  | (senders, share) :: shares, replica =>
      match acceptKeyShareAny replica.access share noGroups senders .forbidden with
      | .ok (epoch, key) =>
          absorbShares shares { replica with keys := replica.keys.insert epoch key }
      | .error .expired | .error .brokenChain =>
          absorbShares shares
            { replica with pendingKeys := replica.pendingKeys ++ [(senders, share)] }
      | .error _ => absorbShares shares replica

/-- Open the operations that have waited for their key. -/
def retryOps : List ContainerOp -> Local σ -> Nat -> Local σ × Nat
  | [], replica, applied => (replica, applied)
  | op :: ops, replica, applied =>
      if replica.keys[op.keyEpoch]?.isNone then
        retryOps ops { replica with pendingOps := replica.pendingOps ++ [op] } applied
      else
        match client.checkOpAuthor replica.access op with
        | .error _ => retryOps ops replica applied
        | .ok author =>
            let (result, core) := openOne kind client replica.access replica.keys op author
              replica.core
            retryOps ops { replica with core } (applied + result.toOption.getD 0)

def retryPending (replica : Local σ) : Local σ × Nat :=
  retryOps kind client replica.pendingOps { replica with pendingOps := [] } 0

def absorbPendingKeys (replica : Local σ) : Local σ :=
  let trusted := absorbTrusted replica
  (retryPending kind client
    (absorbShares trusted.pendingKeys { trusted with pendingKeys := [] })).1

/-- Take in a page of the grant log. -/
def ingestGrants (entries : List SignedOp) (replica : Local σ) : Local σ :=
  if client.logsKnown entries then
    absorbPendingKeys kind client (applyEntries kind client entries replica)
  else replica

/-! ## Operations -/

/-- The key of the author belongs to a known device. -/
def Client.knowsAuthor (op : ContainerOp) : Bool :=
  (op.author.bind fun author => FixedBytes.ofBytes? 32 author.signerKey).any fun key =>
    (client.resolve key).isSome

/-- Take in an operation.  The flag tells whether the page goes on. -/
def ingestOp (strict : Bool) (op : ContainerOp) (replica : Local σ) (out : Ingest) :
    Local σ × Ingest × Bool :=
  if op.seq ≤ replica.headSeq then (replica, out, true)
  else if !client.knowsAuthor op && strict then
    (replica, { out with authorsBehind := true, more := true }, false)
  else
    match client.checkOpAuthor replica.access op with
    | .ok author =>
        if op.keyEpoch < replica.core.lastOpEpoch then
          -- An operation with a key that a rotation has replaced.
          ({ replica with lastError := some .forbidden, headSeq := op.seq }, out, true)
        else
          let replica :=
            { replica with
              headSeq := op.seq
              core := { replica.core with lastOpEpoch := op.keyEpoch } }
          if replica.keys[op.keyEpoch]?.isNone then
            ({ replica with pendingOps := replica.pendingOps ++ [op] },
              { out with missingEpoch := some op.keyEpoch }, true)
          else
            match openOne kind client replica.access replica.keys op author replica.core with
            | (.ok count, core) =>
                ({ replica with core }, { out with applied := out.applied + count }, true)
            | (.error error, core) =>
                ({ replica with core, lastError := some error }, out, true)
    | .error .expired =>
        -- The epoch is newer than the grants: the page is asked for again.
        (replica, { out with grantsBehind := true, more := true }, false)
    | .error error =>
        ({ replica with lastError := some error, headSeq := op.seq }, out, true)

def ingestOps (strict : Bool) : List ContainerOp -> Local σ -> Ingest -> Local σ × Ingest
  | [], replica, out => (replica, out)
  | op :: ops, replica, out =>
      match ingestOp kind client strict op replica out with
      | (replica, out, true) => ingestOps strict ops replica out
      | (replica, out, false) => (replica, out)

/-- Take in a page of operations. -/
def ingestSync (strict more : Bool) (ops : List ContainerOp) (replica : Local σ) :
    Local σ × Ingest :=
  let (replica, out) := ingestOps kind client strict ops replica { more }
  (replica, { out with headSeq := replica.headSeq })

/-! ## The functions of the two domains -/

section

variable (decodeBatch : Bytes -> Result Cloud.CloudBatch)

def cloudIngestGrants (entries : List SignedOp) (replica : Local Cloud.CloudState) :
    Local Cloud.CloudState :=
  ingestGrants (cloud decodeBatch) client entries replica

def cloudIngestSync (strict more : Bool) (ops : List ContainerOp)
    (replica : Local Cloud.CloudState) : Local Cloud.CloudState × Ingest :=
  ingestSync (cloud decodeBatch) client strict more ops replica

end

section

variable (isUppercase : Char -> Bool) (decodeOp : Bytes -> Result Planner.PlannerOp)

/-- The planner has the device logs of its only user. -/
def plannerIngestGrants (entries : List SignedOp) (replica : Local Planner.PlannerState) :
    Local Planner.PlannerState :=
  ingestGrants (planner isUppercase decodeOp) { client with logsKnown := fun _ => true } entries
    replica

/-- The planner passes over operations of unknown devices. -/
def plannerIngestSync (more : Bool) (ops : List ContainerOp)
    (replica : Local Planner.PlannerState) : Local Planner.PlannerState × Ingest :=
  ingestSync (planner isUppercase decodeOp) { client with logsKnown := fun _ => true } false more
    ops replica

end

end Parvane.Shared
