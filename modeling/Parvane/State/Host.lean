import Parvane.State.Journal
import Parvane.State.Migration

/-!
# The personal state on a device

The host of a device reads the journal, asks for changes and hands the sealed records to
the server.  A change is applied on the device first and sealed right after.
-/

namespace Parvane.State

open Wire Codec

/-- A record of the journal with its number. -/
structure StateRecord where
  seq : UInt64
  opId : Bytes
  aeadCiphertext : Bytes
  deriving DecidableEq

/-- The state of a user on one device.  The former addresses open records that were sealed
before a change of the address. -/
structure HostState where
  user : String
  former : List String
  deviceId : String
  key : StateKey
  state : PersonalState
  clock : LamportClock
  cursor : UInt64

/-- What the system draws for an operation. -/
structure Draw where
  opId : OpId
  nonce : FixedBytes nonceLen

namespace HostState

/-- The state before the journal was read. -/
def session (user : String) (former : List String) (deviceId : String) (key : StateKey) :
    HostState where
  user := user
  former := former
  deviceId := deviceId
  key := key
  state := .new
  clock := ⟨0⟩
  cursor := 0

variable (aead : Aead StateKey) (sha256 : Bytes -> Digest)

section

variable (decode : Bytes -> Option StateOp)

/-- Read one record and say whether it was applied. -/
def ingestRecord (host : HostState) (record : StateRecord) : Bool × HostState :=
  let host := { host with cursor := max host.cursor record.seq }
  match (host.user :: host.former).findSome? fun user =>
      (openRecord aead decode host.key user record.opId record.aeadCiphertext).toOption with
  | none => (false, host)
  | some op =>
      let (result, state) := (apply sha256 op).exec host.state
      (result.isOk, { host with state })

/-- Read records of the journal; what cannot be opened or applied is passed over.  Gives
the numbers of applied and of rejected records. -/
def ingest (host : HostState) (records : List StateRecord) : (Nat × Nat) × HostState :=
  let ((applied, rejected), host) := records.foldl
    (fun (found : (Nat × Nat) × HostState) record =>
      let (applied, host) := ingestRecord aead sha256 decode found.2 record
      (if applied then (found.1.1 + 1, found.1.2) else (found.1.1, found.1.2 + 1), host))
    ((0, 0), host)
  ((applied, rejected), { host with clock := host.clock.observe host.state.maxLamport })

end

section

variable (now : Int64) (draws : Nat -> Draw)

/-- Apply an operation and seal it; a refused one is passed over. -/
def applyAndSeal (nonce : FixedBytes nonceLen) (op : StateOp) :
    Update HostState (List AppendRequest) := do
  let host ← get
  let (result, state) := (apply sha256 op).exec host.state
  modify fun host => { host with state }
  match result with
  | .error _ => return []
  | .ok () =>
      let request ← sealOp aead nonce host.key host.user op
      return [request]

/-- Stamp changes, apply and seal them, one after the other. -/
def sealOps : Nat -> List Op -> Update HostState (List AppendRequest)
  | _, [] => return []
  | position, kind :: kinds => do
      let host ← get
      let (op, clock) ← makeOpWithId host.clock host.deviceId now (draws position).opId kind
      modify fun host => { host with clock }
      let first ← applyAndSeal aead sha256 (draws position).nonce op
      let rest ← sealOps (position + 1) kinds
      return first ++ rest

/-- Apply and seal operations that are stamped already. -/
def sealEach : Nat -> List StateOp -> Update HostState (List AppendRequest)
  | _, [] => return []
  | position, op :: ops => do
      let first ← applyAndSeal aead sha256 (draws position).nonce op
      let rest ← sealEach (position + 1) ops
      return first ++ rest

/-- A message of the host, if it can be read. -/
def parsed (message : Option ν) : Result ν :=
  present message .malformed

def diff (desired : Option StateSnapshot) (kinds : Option (List String)) :
    Update HostState (List AppendRequest) := do
  let desired ← parsed desired
  let kinds ← parsed kinds
  let host ← get
  sealOps aead sha256 now draws 0
    (diffOps host.state.snapshot desired (Managed.fromNames kinds))

/-- Write the data of the device into the journal, as far as the journal lacks it. -/
def migrate (own : Option StateSnapshot) : Update HostState (List AppendRequest) := do
  let own ← parsed own
  let host ← get
  let (made, clock) := (migrateSnapshotWith sha256 host.deviceId now
    (withoutPresent own host.state.snapshot) fun position => (draws position).opId).exec host.clock
  modify fun host => { host with clock }
  let ops ← made
  sealEach aead sha256 draws 0 ops

def markSent (ref : Option ScheduledRef) : Update HostState (List AppendRequest) := do
  sealOps aead sha256 now draws 0 [.scheduledSent (← parsed ref)]

def callSet (record : Option CallRecord) : Update HostState (List AppendRequest) := do
  sealOps aead sha256 now draws 0 [.callSet (← parsed record)]

def groupInviteSet (invite : Option GroupInvite) : Update HostState (List AppendRequest) := do
  sealOps aead sha256 now draws 0 [.groupInviteSet (← parsed invite)]

def groupInviteRemove (ref : Option GroupInviteRef) : Update HostState (List AppendRequest) := do
  sealOps aead sha256 now draws 0 [.groupInviteRemove (← parsed ref)]

def plannerContainerSet (domain : String) (id : Option Bytes) :
    Update HostState (List AppendRequest) := do
  sealOps aead sha256 now draws 0 [.plannerContainerSet ⟨some ⟨domain, ← parsed id⟩⟩]

def cloudContainerSet (container : Option CloudContainer) :
    Update HostState (List AppendRequest) := do
  sealOps aead sha256 now draws 0 [.cloudContainerSet (← parsed container)]

def chatCleared (cleared : Option ChatCleared) : Update HostState (List AppendRequest) := do
  sealOps aead sha256 now draws 0 [.chatCleared (← parsed cleared)]

end

end HostState

end Parvane.State
