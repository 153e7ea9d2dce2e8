import Parvane.Foundation.Action
import Parvane.Engine.Keys

/-!
# The client

The state that a device of a user keeps: its own device log, the logs of others, the
sessions with their devices, the groups with their keys, and what was seen.  Receipts, the
channels for typing, the containers and the inbox are other parts and are left out.
-/

namespace Parvane.Engine

open Wire Sign Identity Parvane.Group

/-! ## Trust in the keys of others -/

/-- The head of a device log that was seen. -/
structure LogPin where
  version : Nat := 0
  headHash : Hash := zeroKey
  deriving DecidableEq

/-- The new head must not lie behind the pinned one, nor on another branch. -/
def LogPin.advance (pin : LogPin) (newVersion : Nat) (newHead : Hash)
    (hashAtPinned : Option Hash) : Result LogPin := do
  require (pin.version ≤ newVersion) .brokenChain
  require
    (pin.version == 0 ||
      (if newVersion = pin.version then some newHead else hashAtPinned) == some pin.headHash)
    .brokenChain
  return ⟨newVersion, newHead⟩

inductive TrustVerdict
  | new
  | known
  | changed
  deriving DecidableEq

/-- The root key under which each user was first seen. -/
abbrev RootTrust := Std.ExtTreeMap String Hash

/-- Compare a root key with the one that is known; remember the first. -/
def observe (trust : RootTrust) (user : String) (root : Hash) : TrustVerdict × RootTrust :=
  match trust[user]? with
  | none => (.new, trust.insert user root)
  | some known => (if known = root then .known else .changed, trust)

/-! ## Tokens -/

structure Stocked where
  token : AnonToken
  validUntilMs : Int64
  deriving DecidableEq

/-- An issuing key, with the end of its validity. -/
structure TokenKey where
  keyId : Bytes
  validUntilMs : Int64
  deriving DecidableEq

/-- The tokens of another server. -/
structure ForeignTokens where
  stock : List Stocked
  keys : List TokenKey
  deriving DecidableEq

/-! ## Parts of the state -/

/-- What is known of another user. -/
structure Peer where
  renameLinked : Bool := false
  entries : List SignedOp := []
  log : Option DeviceLog := none
  pin : LogPin := {}
  deliveryKey : Option (Bytes × UInt64) := none
  /-- The log under another root key that waits for the user to confirm it. -/
  pendingRoot : Option (List SignedOp) := none

/-- The keys of an epoch of a group. -/
structure EpochKeys where
  envelopeKey : Hash
  sendSk : Option SigningKey
  deriving DecidableEq

/-- A session in which a member of a group sends. -/
structure Inbound where
  group : Bytes
  epoch : Nat
  sender : String
  session : MegolmSession
  deriving DecidableEq

/-- A group as the client has it. -/
structure GroupLocal where
  entries : List GroupStateEntry
  state : Option GroupState
  /-- The version to which a member referred, if the log is behind it. -/
  behind : Option Nat := none
  /-- The members that the server added without a right. -/
  unconfirmed : Std.ExtTreeSet String := ∅

/-- A group envelope that waits for keys, with its place in the inbox. -/
abbrev PendingEnvelope := UInt64 × GroupEnvelope

/-- The state of a client. -/
structure Client where
  user : String
  deviceId : String
  domain : String
  acc : Account
  hpkeSk : Hash
  hpkePk : Hash
  ssk : Option SigningKey
  ownEntries : List SignedOp
  ownLog : DeviceLog
  myCert : Option SignedDeviceCertificate
  certSerial : UInt64
  peers : Std.ExtTreeMap String Peer
  sessions : Std.ExtTreeMap DeviceRef OlmSession
  oldSessions : Std.ExtTreeMap DeviceRef (List OlmSession)
  groups : Std.ExtTreeMap Bytes GroupLocal
  epochKeys : Std.ExtTreeMap EpochRef EpochKeys
  megolmOut : Std.ExtTreeMap EpochRef MegolmSession
  megolmShared : Std.ExtTreeSet SharedMark
  megolmIn : Std.ExtTreeMap Bytes Inbound
  dk : OwnDeliveryKey
  stock : List Stocked
  tokenKeys : List TokenKey
  stateKeys : StateKeys
  revocationsDone : Std.ExtTreeSet String
  trust : RootTrust
  sticky : Std.ExtTreeSet String
  seen : ReplayGuard seenCap
  /-- The fingerprints with the times at which they came. -/
  seenList : List (SeenHash × Int64)
  pendingGroup : List PendingEnvelope
  logBehind : Std.ExtTreeMap String Nat
  rekey : Std.ExtTreeMap Bytes Nat
  pendingKeys : List (String × GroupKeyShare)
  foreignTokens : Std.ExtTreeMap String ForeignTokens
  l2Direct : Std.ExtTreeMap String DirectL2
  l2GroupPref : Std.ExtTreeMap Bytes L2Pref
  formerOwn : List (List SignedOp × DeviceLog)
  lastError : Option ProtoError
  /-- How often the clock and the random source were read. -/
  readings : Nat

/-- Follow a chain of addresses while the logs are linked.  An address is taken once, so
that the number of logs is fuel enough. -/
def chase (next : String -> Option String) (link : String -> String -> Bool) (start : String) :
    Nat -> String -> List String -> List String
  | 0, _, out => out
  | fuel + 1, current, out =>
      match next current with
      | none => out
      | some other =>
          if other == start || out.contains other || !link current other then out
          else chase next link start fuel other (out ++ [other])

namespace Client

/-- The state of a new device, with the keys that were drawn for it. -/
def fresh (user deviceId domain : String) (acc : Account) (hpkeSk hpkePk dk : Hash) : Client where
  user := user
  deviceId := deviceId
  domain := domain
  acc := acc
  hpkeSk := hpkeSk
  hpkePk := hpkePk
  ssk := none
  ownEntries := []
  ownLog := { user := user }
  myCert := none
  certSerial := 0
  peers := ∅
  sessions := ∅
  oldSessions := ∅
  groups := ∅
  epochKeys := ∅
  megolmOut := ∅
  megolmShared := ∅
  megolmIn := ∅
  dk := .new dk
  stock := []
  tokenKeys := []
  stateKeys := {}
  revocationsDone := ∅
  trust := ∅
  sticky := ∅
  seen := {}
  seenList := []
  pendingGroup := []
  logBehind := ∅
  rekey := ∅
  pendingKeys := []
  foreignTokens := ∅
  l2Direct := ∅
  l2GroupPref := ∅
  formerOwn := []
  lastError := none
  readings := 0

/-- Set up a new device. -/
def new (user deviceId domain : String) (acc : Account) (hpkeSk hpkePk dk : Hash) :
    Result Client := do
  require (isValidAddress user && isValidDeviceId deviceId && isValidDomain domain) .badAddress
  return fresh user deviceId domain acc hpkeSk hpkePk dk

variable (client : Client)

def myDevice : DeviceRef := ⟨client.user, client.deviceId⟩

/-- The device log of a user, if it is known. -/
def peerLog (user : String) : Option DeviceLog :=
  if user = client.user then some client.ownLog
  else (client.peers[user]? : Option Peer).bind Peer.log

def logVersion (user : String) : Nat :=
  if user = client.user then client.ownLog.version
  else (((client.peers[user]? : Option Peer).bind Peer.log).map DeviceLog.version).getD 0

def groupState (id : Bytes) : Option GroupState :=
  (client.groups[id]? : Option GroupLocal).bind GroupLocal.state

/-- The address is that of the user, or was. -/
def isOwnAddress (address : String) : Bool :=
  address == client.user || client.formerOwn.any fun former => former.2.user == address

def formerAddresses : List String :=
  client.formerOwn.map fun former => former.2.user

/-- The log of the new address continues that of the old one. -/
def linked (old new : String) : Bool :=
  match client.peerLog old, client.peerLog new with
  | some former, some later =>
      former.renamedTo == some new && later.renamedFrom == some old &&
        former.rootKey == later.rootKey
  | _, _ => false

/-- The other addresses of a user who changed the address. -/
def aliasesOf (user : String) : List String :=
  if client.isOwnAddress user then
    (client.user :: client.formerAddresses).filter fun address => address != user
  else
    let fuel := client.peers.size + 1
    let later := chase (fun current => (client.peerLog current).bind DeviceLog.renamedTo)
      client.linked user fuel user []
    chase (fun current => (client.peerLog current).bind DeviceLog.renamedFrom)
      (fun current previous => client.linked previous current) user fuel user later

/-- The messages of the chat with another user have to be padded. -/
def directMustPad (chat : String) : Bool :=
  (client.l2Direct[chat]? : Option DirectL2).any fun state =>
    state.mustPad client.user [client.user, chat]

/-- The other devices of the user. -/
def otherDevices : List String :=
  client.ownLog.devices.keys.filter fun device => device != client.deviceId

end Client

/-! ## Actions of the client -/

/-- An action of the client. -/
abbrev Act := Fallible ClientError Client

def liftProto (result : Result α) : Except ClientError α :=
  match result with
  | .ok value => .ok value
  | .error error => .error (.proto error)

instance : MonadLift Result (Except ClientError) := ⟨liftProto⟩

@[simp] theorem liftProto_eq_ok (result : Result α) (value : α) :
    liftProto result = .ok value ↔ result = .ok value := by
  cases result <;> simp [liftProto]

/-- Fail unless a condition holds, because something has to be fetched. -/
def demand (condition : Bool) (need : Need) : Except ClientError Unit :=
  if condition then .ok () else .error (.need need)

@[simp] theorem demand_eq_ok (condition : Bool) (need : Need) (value : Unit) :
    demand condition need = .ok value ↔ condition = true := by
  cases condition <;> simp [demand]

/-- Something that has to be there, or has to be fetched. -/
def fetched (value : Option α) (need : Need) : Except ClientError α :=
  match value with
  | some inner => .ok inner
  | none => .error (.need need)

@[simp] theorem fetched_eq_ok (value : Option α) (need : Need) (inner : α) :
    fetched value need = .ok inner ↔ value = some inner := by
  cases value <;> simp [fetched]

/-- Take the number of the next reading of the clock or of the random source. -/
def nextReading : Act Nat :=
  modifyGet fun client => (client.readings, { client with readings := client.readings + 1 })

end Parvane.Engine
