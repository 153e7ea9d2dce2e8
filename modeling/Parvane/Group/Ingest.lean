import Parvane.Group.Invariants

/-!
# Group logs at a client

A client takes in the entries of a group log one after the other.  Who signed an entry
follows from the device logs that the client knows: its own one, those of its former
addresses, and those of other users.
-/

namespace Parvane.Group

open Wire Sign Identity

/-- The device logs that a client knows. -/
structure Logs where
  user : String
  ownLog : DeviceLog
  formerOwn : List DeviceLog
  peers : Std.ExtTreeMap String DeviceLog

/-- What the client has to fetch before it goes on. -/
inductive Need
  | peerLog (user : String) (after : Nat)
  deriving DecidableEq

inductive ClientError
  | proto (error : ProtoError)
  | need (need : Need)
  deriving DecidableEq

namespace Logs

variable (logs : Logs)

def peerLog (user : String) : Option DeviceLog :=
  if user = logs.user then some logs.ownLog else logs.peers[user]?

def logVersion (user : String) : Nat :=
  if user = logs.user then logs.ownLog.version
  else (logs.peers[user]?.map DeviceLog.version).getD 0

def isOwnAddress (address : String) : Bool :=
  address == logs.user || logs.formerOwn.any fun log => log.user == address

/-- The user of a log, if the key was in force at the version; with version zero, if it
was not revoked.  The new address goes with it, if there is one. -/
def checkLog (key : Hash) (version : UInt64) (user : String) (log : DeviceLog) :
    Option (SignerInfo × Option String) :=
  let valid :=
    if version > 0 then log.keyActiveAt key.bytes version.toNat
    else log.keyKnownUnrevoked key.bytes
  if log.keyEver key.bytes && valid then some (⟨user, log.rootKey⟩, log.renamedTo) else none

def signerCandidates (key : Hash) (version : UInt64) : List (SignerInfo × Option String) :=
  (checkLog key version logs.user logs.ownLog).toList ++
    logs.formerOwn.filterMap (fun log => checkLog key version log.user log) ++
    logs.peers.toList.filterMap fun peer => checkLog key version peer.1 peer.2

/-- A key belongs to one user.  Two logs may share it if one continues the other under a
new address; then the entry counts for the former one. -/
def signerResolver : Resolve := fun key version =>
  match logs.signerCandidates key version with
  | [found] => some found.1
  | [first, second] =>
      if first.1.rootKey == second.1.rootKey &&
          (first.2 == some second.1.user || second.2 == some first.1.user) then
        ([first, second].find? fun found => found.2.isSome).map Prod.fst
      else none
  | _ => none

/-- The signer by the address that the entry names. -/
def signerResolverAs (key : Hash) (version : UInt64) (address : String) : Option SignerInfo :=
  match ((logs.signerCandidates key version).map Prod.fst).filter
      fun found => found.user == address with
  | [found] => some found
  | _ => none

/-- The signer, by the address that the entry names or without it. -/
def findSigner (key : Hash) (version : UInt64) (address : Option String) : Option SignerInfo :=
  match address with
  | some address => logs.signerResolverAs key version address
  | none => logs.signerResolver key version

def rootResolver (user : String) : Option Hash :=
  if user = logs.user then some logs.ownLog.rootKey
  else
    ((logs.formerOwn.find? fun log => log.user == user).map DeviceLog.rootKey).or
      ((logs.peerLog user).map DeviceLog.rootKey)

/-- The user in whose log the key is, or was. -/
def keyOwner (key : Hash) : Option String :=
  if logs.ownLog.keyEver key.bytes then some logs.user
  else (logs.peers.toList.find? fun peer => peer.2.keyEver key.bytes).map Prod.fst

def lookup : Lookup := ⟨logs.signerResolverAs, logs.rootResolver⟩

end Logs

section

variable (library : Library)

/-- What an entry says before its signature is checked. -/
def peekChange (entry : GroupStateEntry) : Option GroupStateChange := do
  let op ← entry.change
  let body ← (library.decodeOpBody op.body).toOption
  (library.decodeStateChange body.payload).toOption

/-- The version of the device log that the entry refers to. -/
def entrySignerVersion (entry : GroupStateEntry) : UInt64 :=
  ((peekChange library entry).map GroupStateChange.signerLogVersion).getD 0

/-- The address that the entry names as that of the signer. -/
def entryHintedAs (entry : GroupStateEntry) : Option String :=
  ((peekChange library entry).map GroupStateChange.signerAddress).filter fun address =>
    address != ""

/-- The former address in a change of address. -/
def entryRenamedOld (entry : GroupStateEntry) : Option String := do
  let stateChange ← peekChange library entry
  match stateChange.change with
  | some (.renameMember (some op)) =>
      let body ← (library.decodeOpBody op.body).toOption
      let inner ← (library.decodeDeviceLogEntry body.payload).toOption
      inner.user.map UserRef.address
  | _ => none

def checkNeed (condition : Bool) (need : Need) : Except ClientError Unit :=
  if condition then .ok () else .error (.need need)

def liftProto (result : Result α) : Except ClientError α :=
  match result with
  | .ok value => .ok value
  | .error error => .error (.proto error)

/-- The log of an address that the entry names has to be known. -/
def requireLog (logs : Logs) (address : Option String) : Except ClientError Unit :=
  match address with
  | none => .ok ()
  | some user =>
      checkNeed (!isValidAddress user || logs.isOwnAddress user || (logs.peerLog user).isSome)
        (.peerLog user 0)

/-- The log of the owner of the key reaches as far as the entry refers to it. -/
def requireVersion (logs : Logs) (owner : Option String) (claimed : UInt64) :
    Except ClientError Unit :=
  match owner with
  | none => .ok ()
  | some user =>
      checkNeed (claimed.toNat ≤ logs.logVersion user) (.peerLog user (logs.logVersion user))

/-- The signer is unknown: a log is missing, or the entry is refused. -/
def refuseUnknown (logs : Logs) (state : Option GroupState) (hint : Option String) : ClientError :=
  let hinted := hint.filter fun user => isValidAddress user && (logs.peerLog user).isNone
  let members := (state.map fun known => known.members.keys).getD []
  match hinted.or (members.find? fun user => (logs.peerLog user).isNone) with
  | some user => .need (.peerLog user 0)
  | none => .proto .forbidden

/-- Take in one entry.  The address of the signer that the server gave is only used to find
the logs that are missing. -/
def ingestEntry
    (logs : Logs) (group : Ref) (hint : Option String) (state : Option GroupState)
    (entry : GroupStateEntry) : Except ClientError GroupState := do
  let key ← liftProto (present
    (entry.change.bind fun op => FixedBytes.ofBytes? 32 op.signerKey) (.invalidField "signer"))
  let claimed := entrySignerVersion library entry
  let hintedAs := entryHintedAs library entry
  requireLog logs hintedAs
  requireLog logs (entryRenamedOld library entry)
  let owner := (hintedAs.or (logs.keyOwner key)).or
    (hint.filter fun user => (logs.peerLog user).isSome)
  requireVersion logs owner claimed
  if (logs.findSigner key claimed hintedAs).isNone then
    throw (refuseUnknown logs state hint)
  else
    let next ← liftProto (applyWith library state entry logs.signerResolver (some logs.lookup))
    liftProto (require (next.group.id == group.id) .contextMismatch)
    return next

/-- Take in the entries of a page.  If one of them is refused, nothing changes. -/
def groupIngestHinted
    (logs : Logs) (group : Ref) (state : Option GroupState)
    (entries : List (GroupStateEntry × Option String)) : Except ClientError (Option GroupState) :=
  entries.foldlM
    (fun state entry => do
      let next ← ingestEntry library logs group entry.2 state entry.1
      return some next)
    state

end

end Parvane.Group
