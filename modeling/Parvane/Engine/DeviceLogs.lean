import Parvane.Engine.Client

/-!
# Reading device logs

The server hands out the device logs of the user and of others.  A device that leaves a
log has to lose the keys of the groups; an address that continues another one takes over
what was kept under it.
-/

namespace Parvane.Engine

open Wire Sign Identity Parvane.Group Fallible

inductive LogVerdict
  | new
  | known
  | rootChanged
  | renamed
  | moved
  deriving DecidableEq

/-- Record what is known of another user. -/
def Client.setPeer (client : Client) (user : String) (peer : Peer) : Client :=
  { client with peers := client.peers.insert user peer }

section

variable (library : Library)

/-! ## The own log -/

/-- The entry inside a signed operation. -/
def peekLogEntry (op : SignedOp) : Option UserDeviceLogEntry := do
  let body ← (library.decodeOpBody op.body).toOption
  (library.decodeDeviceLogEntry body.payload).toOption

/-- The certificate that an operation adds. -/
def addedCertificate (op : SignedOp) : Option SignedDeviceCertificate :=
  match (peekLogEntry library op).bind UserDeviceLogEntry.change with
  | some (.addDevice signed) => some signed
  | _ => none

/-- The certificate is good, and the given one is inside. -/
def certifies (user : String) (cert : DeviceCertificate) (signed : SignedDeviceCertificate) :
    Bool :=
  (verifyCertificate library.toIdentity signed (some user)).toOption.any fun device =>
    device.cert == cert

/-- A self-signing key that was replaced is forgotten. -/
def forgetReplacedSsk (client : Client) : Client :=
  if client.ssk.any fun key => library.publicKey key != client.ownLog.ssk then
    { client with ssk := none }
  else client

/-- The own certificate is taken from the log. -/
def refreshCertificate (client : Client) : Client :=
  match client.ownLog.active client.deviceId with
  | none => client
  | some device =>
      if client.myCert.any (certifies library client.user device.cert) then client
      else
        match (client.ownEntries.reverse.filterMap (addedCertificate library)).find?
            (certifies library client.user device.cert) with
        | none => client
        | some signed =>
            { client with
              certSerial := max client.certSerial device.cert.serial
              myCert := some signed }

def refreshOwnAfterLog (client : Client) : Client :=
  refreshCertificate library (forgetReplacedSsk library client)

end

/-! ## Devices that left -/

/-- The groups of a user that are not deleted, with their epochs. -/
def groupsOf (client : Client) (user : String) : List (Bytes × Nat) :=
  client.groups.toList.filterMap fun (id, group) =>
    group.state.bind fun state =>
      if state.members.contains user && !state.deleted then some (id, state.epoch) else none

/-- The own session in a group is given up, and the group needs a new epoch. -/
def rekeyGroup (client : Client) (group : Bytes × Nat) : Client :=
  { client with
    megolmOut := client.megolmOut.filter fun epoch _ => epoch.group != group.1
    megolmShared := client.megolmShared.filter fun mark => mark.group != group.1
    rekey := client.rekey.insert group.1 group.2 }

/-- A device of a user left: the groups of the user get new keys. -/
def onDevicesRemoved (user : String) (client : Client) : Client :=
  (groupsOf client user).foldl rekeyGroup client

/-! ## Addresses that continue another one -/

/-- A session goes over to the new address, unless there is one already. -/
def moveSession (new : String) (sessions : Std.ExtTreeMap DeviceRef OlmSession)
    (device : DeviceRef) : Std.ExtTreeMap DeviceRef OlmSession :=
  match (sessions[device]? : Option OlmSession) with
  | none => sessions
  | some session => (sessions.erase device).insertIfNew ⟨new, device.deviceId⟩ session

/-- Superseded sessions go over to the new address. -/
def moveOldSessions (new : String) (olds : Std.ExtTreeMap DeviceRef (List OlmSession))
    (device : DeviceRef) : Std.ExtTreeMap DeviceRef (List OlmSession) :=
  match (olds[device]? : Option (List OlmSession)) with
  | none => olds
  | some list =>
      let rest := olds.erase device
      let moved : DeviceRef := ⟨new, device.deviceId⟩
      rest.insert moved ((rest[moved]?.getD [] : List OlmSession) ++ list)

/-- What a peer has as the delivery key goes over to the new address. -/
def moveDeliveryKey (old new : String) (peers : Std.ExtTreeMap String Peer) :
    Std.ExtTreeMap String Peer :=
  let key := (peers[old]? : Option Peer).bind Peer.deliveryKey
  peers.modify new fun peer =>
    if peer.deliveryKey.isNone then { peer with deliveryKey := key } else peer

/-- The preferences of a chat go over to the new address, unless there are some already. -/
def moveL2 (old new : String) (chats : Std.ExtTreeMap String DirectL2) :
    Std.ExtTreeMap String DirectL2 :=
  match (chats[old]? : Option DirectL2) with
  | none => chats
  | some state => (chats.erase old).insertIfNew new state

/-- The sessions, the trust, the preferences and what was shared go over to the new
address. -/
def movePeerKeys (old new : String) (client : Client) : Client :=
  let ofOld := fun device : DeviceRef => device.address == old
  { client with
    sessions := (client.sessions.keys.filter ofOld).foldl (moveSession new) client.sessions
    oldSessions :=
      (client.oldSessions.keys.filter ofOld).foldl (moveOldSessions new) client.oldSessions
    peers := moveDeliveryKey old new client.peers
    trust :=
      match (client.trust[old]? : Option Hash) with
      | none => client.trust
      | some root => client.trust.insert new root
    sticky := if client.sticky.contains old then client.sticky.insert new else client.sticky
    l2Direct := moveL2 old new client.l2Direct
    dk :=
      if client.dk.shared.contains old && !client.dk.needsShare old then client.dk.markShared new
      else client.dk
    megolmShared :=
      (client.megolmShared.toList.filter fun mark => mark.user == old).foldl
        (fun marks mark => marks.insert { mark with user := new }) client.megolmShared }

section

variable (library : Library)

/-- The address that the log of another one continues: the old log was closed in favour of
the new one, and the root key is the same. -/
def renameLink (client : Client) (new : String) : Option String := do
  let peer ← (client.peers[new]? : Option Peer)
  let newLog ← peer.log
  let old ← newLog.renamedFrom
  let first ← peer.entries.head?
  let formerPeer ← (client.peers[old]? : Option Peer)
  let oldLog ← formerPeer.log
  if oldLog.renamedTo = some new ∧
      oldLog.renameGenesis = some (DeviceLog.deviceLogHash library.toIdentity first) ∧
      oldLog.rootKey = newLog.rootKey then
    some old
  else none

/-- Take over what is known of the old address.  The old address is given once. -/
def linkPeerRename (new : String) (client : Client) : Option String × Client :=
  match renameLink library client new with
  | none => (none, client)
  | some old =>
      let client := movePeerKeys old new client
      match (client.peers[new]? : Option Peer) with
      | none => (none, client)
      | some peer =>
          (if peer.renameLinked then none else some old,
            client.setPeer new { peer with renameLinked := true })

/-! ## Taking entries in -/

/-- Apply the next entry to the own log, which is not restored if it fails. -/
def applyOwnEntry (op : SignedOp) : Act Unit := do
  let applied ← modifyGet fun client =>
    let ran := (DeviceLog.apply library.toIdentity op).exec client.ownLog
    (ran.1, { client with ownLog := ran.2 })
  liftProto applied
  modify fun client => { client with ownEntries := client.ownEntries ++ [op] }

/-- Entries of the own log, which other devices of the user made. -/
def ingestOwnLog (entries : List SignedOp) : Act LogVerdict := do
  let before := (← get).ownLog.devices.keys
  entries.forM (applyOwnEntry library)
  if (← get).ownLog.renamedTo.isSome then return .moved
  modify (refreshOwnAfterLog library)
  let client ← get
  if before.any fun device => !client.ownLog.devices.contains device then
    modify (onDevicesRemoved client.user)
  return .known

/-- Entries applied to a log, one after the other. -/
def applyEntries (entries : List SignedOp) : Update DeviceLog Unit :=
  entries.forM (DeviceLog.apply library.toIdentity)

/-- The hash of the entry at which the head was pinned. -/
def hashAtPin (peer : Peer) (entries : List SignedOp) (log : DeviceLog) : Option Hash :=
  if 0 < peer.pin.version ∧ peer.pin.version ≤ log.version then
    ((peer.entries ++ entries)[peer.pin.version - 1]?).map (DeviceLog.deviceLogHash library.toIdentity)
  else none

/-- The log of another user takes the place of the one that was known. -/
def replaceLog (user : String) (peer : Peer) (entries : List SignedOp) (log : DeviceLog)
    (client : Client) : Client :=
  let removed := log.renamedTo.isNone &&
    peer.log.any fun known => known.devices.keys.any fun device => !log.devices.contains device
  let sticky := if 0 < log.version then client.sticky.insert user else client.sticky
  let replaced := { client with sticky := sticky }.setPeer user
    { peer with entries := peer.entries ++ entries, log := some log }
  if removed then onDevicesRemoved user replaced else replaced

/-- Accept the log of another user, which may continue that of another address. -/
def acceptLog (user : String) (peer : Peer) (entries : List SignedOp) (log : DeviceLog)
    (verdict : LogVerdict) : Act LogVerdict := do
  modify (replaceLog user peer entries log)
  if log.renamedTo.isSome then return .moved
  if log.renamedFrom.isSome then
    let linked ← modifyGet (linkPeerRename library user)
    if linked.isSome then return .renamed
  return verdict

/-- The log of another user with further entries.  The log that is known stays until all
are good. -/
def extendLog (client : Client) (user : String) (entries : List SignedOp) : Result DeviceLog := do
  let known ←
    match (client.peers[user]? : Option Peer).bind Peer.log with
    | some log => .ok log
    | none => DeviceLog.new user
  let ran := (applyEntries library entries).exec known
  ran.1
  return ran.2

/-- Pin the new head, which must not lie behind the one that was pinned. -/
def pinHead (user : String) (entries : List SignedOp) (log : DeviceLog) : Act Peer := do
  let peer := ((← get).peers[user]? : Option Peer).getD {}
  modify fun client => client.setPeer user peer
  let pin ← liftProto (peer.pin.advance log.version log.headHash (hashAtPin library peer entries log))
  modify fun client => client.setPeer user { peer with pin := pin }
  return { peer with pin := pin }

/-- Entries of the log of another user. -/
def ingestPeerLog (user : String) (entries : List SignedOp) : Act LogVerdict := do
  let log ← liftProto (extendLog library (← get) user entries)
  if log.version = 0 then return .new
  let peer ← pinHead library user entries log
  let verdict ← modifyGet fun client =>
    let observed := observe client.trust user log.rootKey
    (observed.1, { client with trust := observed.2 })
  match verdict with
  | .new => acceptLog library user peer entries log .new
  | .known => acceptLog library user peer entries log .known
  | .changed =>
      -- The log under the other root key waits for the user.
      modify fun client =>
        client.setPeer user { peer with pendingRoot := some (peer.entries ++ entries) }
      return .rootChanged

/-- Take in entries of the device log of a user. -/
def ingestLog (user : String) (entries : List SignedOp) : Act LogVerdict := do
  if user = (← get).user then ingestOwnLog library entries
  else ingestPeerLog library user entries

end

end Parvane.Engine
