import Parvane.Engine.Opening
import Parvane.Engine.Signing

/-!
# Sending

A message to a user is sealed for each of the devices of the user, and for the other
devices of the sender.  Sending needs the device logs, a session with every device, and the
right to deliver: a key of the recipient, or a token of the server.
-/

namespace Parvane.Engine

open Wire Sign Identity Parvane.Group Fallible

/-! ## What has to be there -/

/-- All that is needed to send to a user is there. -/
def checkPeer (client : Client) (user : String) : Except ClientError Unit := do
  match (client.logBehind[user]? : Option Nat) with
  | some claimed =>
      demand (claimed ≤ client.logVersion user) (.peerLog user (client.logVersion user))
  | none => pure ()
  if user != client.user then
    let peer ← fetched (client.peers[user]? : Option Peer) (.peerLog user 0)
    demand peer.pendingRoot.isNone (.rootChanged user)
    demand peer.log.isSome (.peerLog user 0)
  let log ← fetched (client.peerLog user) (.peerLog user 0)
  demand
    (log.devices.keys.all fun device =>
      (user == client.user && device == client.deviceId) ||
        client.sessions.contains ⟨user, device⟩)
    (.bundle user)

/-- There is a session with each of the own devices, apart from one. -/
def ownSessionsReady (client : Client) (except : String) : Except ClientError Unit :=
  demand
    (client.ownLog.devices.keys.all fun device =>
      device == client.deviceId || device == except ||
        client.sessions.contains ⟨client.user, device⟩)
    (.bundle client.user)

/-- How a device is sent to. -/
inductive SendFormat
  | sealedV2
  | legacyV1
  | refuse
  deriving DecidableEq

/-- Decide how a device is sent to.  A user who once had a log is remembered. -/
def choose (sticky : Std.ExtTreeSet String) (user : String) (log : Option DeviceLog)
    (device : String) (legacyCurve : Option Bytes) : SendFormat × Std.ExtTreeSet String :=
  match log.filter fun log => 0 < log.version with
  | some log =>
      let inSet := log.legacy.any fun devices => devices.any fun legacy =>
        legacy.deviceId == device && legacyCurve == some legacy.olmCurve25519
      (if (log.active device).isSome then .sealedV2
        else if inSet && !log.revoked.contains device then .legacyV1
        else .refuse, sticky.insert user)
  | none => (if sticky.contains user then .refuse else .legacyV1, sticky)

/-! ## The right to deliver -/

def expiryMarginMs : Int := 60000

/-- The tokens that do not expire at once. -/
def prune (now : Int64) (stock : List Stocked) : List Stocked :=
  stock.filter fun stocked =>
    min (now.toInt + expiryMarginMs) Int64.maxValue.toInt < stocked.validUntilMs.toInt

/-- Take an item out; the last one comes to its place. -/
def swapRemove (items : List α) (index : Nat) : List α :=
  match items.getLast? with
  | some last => (items.set index last).dropLast
  | none => []

/-- Spend the token that expires first. -/
def takeToken (now : Int64) (stock : List Stocked) : Option AnonToken × List Stocked :=
  let valid := prune now stock
  let index := valid.findIdx fun stocked =>
    valid.all fun other => stocked.validUntilMs ≤ other.validUntilMs
  match valid[index]? with
  | some stocked => (some stocked.token, swapRemove valid index)
  | none => (none, valid)

/-- The server of a user is the own one. -/
def isHome (client : Client) (domain : String) : Bool :=
  domain == "" || sameDomain domain client.domain

/-- The name of the server of a user. -/
def serverOf (user : String) : String :=
  ((addressDomain user).getD "").map Char.toLower

/-- The tokens for the server of a user, if there is a stock. -/
def stockFor (client : Client) (user : String) : Option (List Stocked) :=
  if isHome client (serverOf user) then some client.stock
  else (client.foreignTokens[serverOf user]? : Option ForeignTokens).map ForeignTokens.stock

def setStock (user : String) (stock : List Stocked) (client : Client) : Client :=
  if isHome client (serverOf user) then { client with stock := stock }
  else
    { client with
      foreignTokens :=
        client.foreignTokens.modify (serverOf user) fun tokens => { tokens with stock := stock } }

/-- The end of the validity of a key, as far as the key is known. -/
def validityOf (keys : List TokenKey) (keyId : Bytes) : Int64 :=
  ((keys.find? fun key => key.keyId == keyId).map TokenKey.validUntilMs).getD Int64.maxValue

/-- A token that was not used comes back to the stock of its server. -/
def returnAccess (access : Access) (client : Client) : Client :=
  match access with
  | .deliveryKey _ => client
  | .anonToken token =>
      match client.foreignTokens.toList.find? fun entry =>
          entry.2.keys.any fun key => key.keyId == token.keyId with
      | some (domain, tokens) =>
          let back : Stocked := ⟨token, validityOf tokens.keys token.keyId⟩
          { client with
            foreignTokens :=
              client.foreignTokens.insert domain { tokens with stock := tokens.stock ++ [back] } }
      | none =>
          let back : Stocked := ⟨token, validityOf client.tokenKeys token.keyId⟩
          { client with stock := client.stock ++ [back] }

/-! ## Padding -/

def l2Buckets : List Nat := [512, 2048, 8192, 32768]

/-- The size to which a length is padded. -/
def l2Target (length : Nat) : Nat :=
  match l2Buckets.find? fun bucket => length ≤ bucket with
  | some bucket => bucket
  | none => (length + 32767) / 32768 * 32768

def varintLen (value : Nat) : Nat :=
  (encodeVarint value).length

/-- The padding that brings a length to a target, with its own tag and length. -/
def paddingTo (room : Nat) : Option Nat :=
  [1, 2, 3, 4, 5].findSome? fun size =>
    if 1 + size < room ∧ varintLen (room - (1 + size)) = size then
      some (room - (1 + size))
    else none

/-- Try a target and, if it cannot be hit, the next ones. -/
def l2PaddingFrom (base : Nat) : Nat -> Nat -> Nat
  | 0, target => max (target - base - 2) 1
  | fuel + 1, target =>
      match paddingTo (target - base) with
      | some padding => padding
      | none => l2PaddingFrom base fuel (l2Target (target + 1))

def l2PaddingLen (base : Nat) : Nat :=
  l2PaddingFrom base 4 (l2Target (base + 3))

section

variable (library : SendingLibrary)

def padL2 (inner : SealedInner) : SealedInner :=
  let length := (library.encodeSealedInner { inner with padding := [] }).length
  { inner with padding := List.replicate (l2PaddingLen length) 0 }

/-! ## Sealing -/

/-- Seal the outer layer for a device. -/
def sealEnvelope (recipient : DeviceRef) (key : Hash) (access : Access) (inner : SealedInner)
    (l2 : Bool) : Act SealedEnvelope := do
  let inner := if l2 then padL2 library inner else inner
  let info ← liftProto (sealedInfo recipient)
  let reading ← nextReading
  let (enc, ciphertext) ←
    liftProto (library.hpkeSeal reading key info (library.encodeSealedInner inner))
  return ⟨some recipient, some access, enc, ciphertext⟩

/-- Encrypt in the session with a device. -/
def sealInner (cert : SignedDeviceCertificate) (device : DeviceRef) (session : OlmSession)
    (op : SignedOp) : Act SealedInner := do
  let encrypted := library.olmEncrypt session (library.encodeSignedOp op)
  modify fun client => { client with sessions := client.sessions.insert device encrypted.2 }
  let (type, message) ← liftProto encrypted.1
  return ⟨some cert, message, type, []⟩

/-- Sign a content for the devices of a user. -/
def signDirectAt (client : Client) (content : Content) (peer : String)
    (audience : List DeviceRef) (tsMs : Int64) (opId : Bytes) : Result SignedOp := do
  require (isValidOpId opId) (.invalidField "op_id")
  signOp library (accountSigner library client.acc)
    { domain := msgDomain, opType := contentOp, opId := opId, target := none
      audience := audience, tsMs := tsMs }
    ⟨some (.directPeer ⟨peer⟩), [], UInt64.ofNat client.ownLog.version⟩
    (library.encodeContent content)

/-- How a message is sealed: its identifier and time, and whether it is padded. -/
structure SealOpts where
  opId : Bytes
  tsMs : Int64
  l2 : Bool

/-- Seal an operation for a device, if it is active and there is a session with it. -/
def sealTo (log : DeviceLog) (cert : SignedDeviceCertificate) (op : SignedOp) (access : Access)
    (l2 : Bool) (device : DeviceRef) : Act (Option SealedEnvelope) := do
  match log.active device.deviceId with
  | none => return none
  | some known =>
      let key ← liftProto (key32 known.cert.hpkeX25519)
      match ((← get).sessions[device]? : Option OlmSession) with
      | none => return none
      | some session =>
          let inner ← sealInner library cert device session op
          return some (← sealEnvelope library device key access inner l2)

/-- Seal a content for devices of a user. -/
def sealForOpts (user : String) (devices : List String) (chat : String) (content : Content)
    (access : Access) (opts : SealOpts) : Act (List SealedEnvelope) := do
  let client ← get
  let log ← liftProto (present (client.peerLog user) .badCertificate)
  let cert ← liftProto (present client.myCert .badCertificate)
  let recipients := devices.map fun device => (⟨user, device⟩ : DeviceRef)
  let op ←
    liftProto (signDirectAt library client content chat recipients opts.tsMs opts.opId)
  let envelopes ← recipients.mapM (sealTo library log cert op access opts.l2)
  return envelopes.reduceOption

def sealFor (user : String) (devices : List String) (chat : String) (content : Content)
    (access : Access) : Act (List SealedEnvelope) := do
  let opId ← newOpId library
  let now ← nowMs library.toOpening
  let l2 := (← get).directMustPad chat
  sealForOpts library user devices chat content access ⟨opId, now, l2⟩

/-- The request that delivers envelopes, unless there are none. -/
def deliver (envelopes : List SealedEnvelope) : List OutRequest :=
  if envelopes.isEmpty then [] else [.deliverSealed envelopes]

/-- A content for the other devices of the user. -/
def sealToOwnDevices (content : Content) : Act (List OutRequest) := do
  let client ← get
  let own := client.otherDevices
  if own.isEmpty then return []
  else
    checkPeer client client.user
    let access := .deliveryKey client.dk.key.bytes
    return deliver (← sealFor library client.user own client.user content access)

/-- The right to deliver to a user. -/
def accessFor (user : String) : Act Access := do
  let client ← get
  if user = client.user then return .deliveryKey client.dk.key.bytes
  else
    match (client.peers[user]? : Option Peer).bind Peer.deliveryKey with
    | some (key, _) => return .deliveryKey key
    | none =>
        let stock ← fetched (stockFor client user) (.token user)
        let now ← nowMs library.toOpening
        let taken := takeToken now stock
        modify (setStock user taken.2)
        return .anonToken (← fetched taken.1 (.token user))

/-! ## Direct messages -/

def Client.deliveryKeyContent (client : Client) : Content :=
  ⟨some (.deliveryKey ⟨client.dk.key.bytes, client.dk.generation⟩)⟩

structure DirectOpts where
  opId : Bytes
  shareDk : Bool
  forceL2 : Bool
  tsMs : Int64

def Content.isChatMode (content : Content) : Bool :=
  match content.kind with
  | some (.chatMode _) => true
  | _ => false

def Content.isDeliveryKey (content : Content) : Bool :=
  match content.kind with
  | some (.deliveryKey _) => true
  | _ => false

/-- All devices have to be sent to in the sealed format. -/
def chooseSealed (peer : String) (log : Option DeviceLog) (device : String) : Act Unit := do
  let format ← modifyGet fun client =>
    let chosen := choose client.sticky peer log device none
    (chosen.1, { client with sticky := chosen.2 })
  demand (format == .sealedV2) .forbidden

/-- Send a content to the devices of another user.  A token that was not used comes back. -/
def sendContent (peer : String) (devices : List String) (opId : Option Bytes) (tsMs : Int64)
    (l2 : Bool) (content : Content) : Act (List OutRequest) := do
  let access ← accessFor library peer
  let id ←
    match opId with
    | some id => pure id
    | none => newOpId library
  match ← (sealForOpts library peer devices peer content access ⟨id, tsMs, l2⟩).attempt with
  | .ok envelopes => do
      if envelopes.isEmpty then modify (returnAccess access)
      return deliver envelopes
  | .error error => do
      modify (returnAccess access)
      throw error

/-- A copy for the other devices of the user. -/
def copyToOwn (peer : String) (content : Content) (opts : SealOpts) : Act (List OutRequest) := do
  let client ← get
  let own := client.otherDevices
  if !own.isEmpty && peer != client.user && !content.isDeliveryKey then
    let access := .deliveryKey client.dk.key.bytes
    return deliver (← sealForOpts library client.user own peer content access opts)
  else return []

/-- A message to a user, with the own delivery key if the user does not have it yet, and a
copy for the own devices. -/
def prepareDirectOpts (peer : String) (content : Content) (opts : DirectOpts) :
    Act (List OutRequest) := do
  let client ← get
  let l2 := opts.forceL2 || content.isChatMode || client.directMustPad peer
  checkPeer client peer
  checkPeer client client.user
  let log := client.peerLog peer
  let devices := (log.map fun log => log.devices.keys).getD []
  demand (peer == client.user || !devices.isEmpty)
    (.peerLog peer ((log.map DeviceLog.version).getD 0))
  devices.forM (chooseSealed peer log)
  let shares := opts.shareDk && peer != client.user && client.dk.needsShare peer
  let keys ←
    if shares then
      sendContent library peer devices none opts.tsMs l2 client.deliveryKeyContent
    else pure []
  let sent ← sendContent library peer devices (some opts.opId) opts.tsMs l2 content
  if shares then modify fun client => { client with dk := client.dk.markShared peer }
  let copies ← copyToOwn library peer content ⟨opts.opId, opts.tsMs, l2⟩
  return keys ++ sent ++ copies

/-- The present address of a user who changed it, after so many changes at most. -/
def currentAddressFrom (client : Client) (user : String) : Nat -> String -> String
  | 0, current => current
  | fuel + 1, current =>
      match (client.peerLog current).bind DeviceLog.renamedTo with
      | none => current
      | some next =>
          if !client.linked current next || next == user then current
          else currentAddressFrom client user fuel next

def Client.currentAddress (client : Client) (user : String) : String :=
  currentAddressFrom client user 16 user

/-- A message at the present time. -/
def prepareDirectInner (peer : String) (content : Content) (opId : Bytes) (shareDk : Bool) :
    Act (List OutRequest) := do
  let now ← nowMs library.toOpening
  prepareDirectOpts library peer content ⟨opId, shareDk, false, now⟩

/-- A message to the present address of a user.  What the user prefers is also noted here. -/
def prepareDirectId (peer : String) (content : Content) (opId : Bytes) :
    Act (List OutRequest) := do
  let peer := (← get).currentAddress peer
  let now ← nowMs library.toOpening
  let out ← prepareDirectOpts library peer content ⟨opId, true, false, now⟩
  match content.kind with
  | some (.chatMode l2) =>
      modify fun client => l2ApplyDirect peer client.user l2 now client
  | _ => pure ⟨⟩
  return out

def prepareDirect (peer : String) (content : Content) : Act (List OutRequest) := do
  prepareDirectId library peer content (← newOpId library)

/-- Give the delivery key to a user who does not have it yet. -/
def shareDeliveryKey (peer : String) : Act (List OutRequest) := do
  let client ← get
  let peer := client.currentAddress peer
  if peer == client.user || !client.dk.needsShare peer then return []
  else
    let opId ← newOpId library
    let now ← nowMs library.toOpening
    let out ← prepareDirectOpts library peer client.deliveryKeyContent ⟨opId, false, false, now⟩
    modify fun client => { client with dk := client.dk.markShared peer }
    return out

/-- An envelope for this very device, which it drops. -/
def coverEnvelope (content : Content) (l2 : Bool) : Act SealedEnvelope := do
  let client ← get
  let cert ← liftProto (present client.myCert .badCertificate)
  let now ← nowMs library.toOpening
  let opId ← newOpId library
  let op ←
    liftProto (signDirectAt library client content client.user [client.myDevice] now opId)
  let noise := library.drawBytes (← nextReading) ((library.encodeSignedOp op).length + 96)
  sealEnvelope library client.myDevice client.hpkePk (.deliveryKey client.dk.key.bytes)
    ⟨some cert, noise, 1, []⟩ l2

/-- Give the keys of a group to a member; for the user, to the other own devices. -/
def shareGroupKey (member : String) (content : Content) (pad : Bool) : Act (List OutRequest) := do
  let client ← get
  if member ≠ client.user then
    let opId ← newOpId library
    let now ← nowMs library.toOpening
    prepareDirectOpts library member content ⟨opId, true, pad, now⟩
  else
    let own := client.otherDevices
    let l2 := pad || client.directMustPad client.user
    let access := .deliveryKey client.dk.key.bytes
    let envelopes ←
      if own.isEmpty then pure []
      else do
        let opId ← newOpId library
        let now ← nowMs library.toOpening
        sealForOpts library client.user own client.user content access ⟨opId, now, l2⟩
    let cover ← coverEnvelope library content l2
    return [.deliverSealed (envelopes ++ [cover])]

end

section

variable (library : SendingLibrary)

/-- Seal a content that was paid for, or put the token back. -/
def sealOrReturn (peer : String) (devices : List String) (content : Content) (access : Access)
    (opts : SealOpts) : Act (List OutRequest) := do
  match ← (sealForOpts library peer devices peer content access opts).attempt with
  | .ok envelopes => do
      if envelopes.isEmpty then modify (returnAccess access)
      return deliver envelopes
  | .error error => do
      modify (returnAccess access)
      throw error

theorem sendContent_some (peer : String) (devices : List String) (id : Bytes) (tsMs : Int64)
    (l2 : Bool) (content : Content) :
    sendContent library peer devices (some id) tsMs l2 content =
      (do sealOrReturn library peer devices content (← accessFor library peer) ⟨id, tsMs, l2⟩) :=
  rfl

theorem sendContent_none (peer : String) (devices : List String) (tsMs : Int64) (l2 : Bool)
    (content : Content) :
    sendContent library peer devices none tsMs l2 content = (do
      let access ← accessFor library peer
      sealOrReturn library peer devices content access ⟨← newOpId library, tsMs, l2⟩) :=
  rfl

end

/-! ## What sending leaves as it was -/

/-- A part of the client that does not depend on what sealing uses up. -/
def SealFree (part : Client -> τ) : Prop :=
  ∀ client sessions readings,
    part { client with sessions := sessions, readings := readings } = part client

namespace SealFree

variable {part : Client -> τ} {library : SendingLibrary}

section

variable (sealFree : SealFree part)

include sealFree

theorem keeps_nextReading : Keeps part nextReading :=
  keeps_modifyGet fun client => sealFree client _ _

theorem keeps_nowMs (library : Library) : Keeps part (nowMs library) :=
  keeps_bind sealFree.keeps_nextReading fun _ => keeps_pure _

theorem keeps_newOpId : Keeps part (newOpId library) :=
  keeps_bind sealFree.keeps_nextReading fun _ => keeps_pure _

theorem keeps_sealEnvelope (recipient : DeviceRef) (key : Hash)
    (access : Access) (inner : SealedInner) (l2 : Bool) :
    Keeps part (sealEnvelope library recipient key access inner l2) :=
  keeps_bind (keeps_liftM _) fun _ => keeps_bind sealFree.keeps_nextReading fun _ =>
    keeps_bind (keeps_liftM _) fun _ => keeps_pure _

theorem keeps_sealTo (log : DeviceLog) (cert : SignedDeviceCertificate)
    (op : SignedOp) (access : Access) (l2 : Bool) (device : DeviceRef) :
    Keeps part (sealTo library log cert op access l2 device) := by
  unfold sealTo
  split
  · exact keeps_pure _
  · refine keeps_bind (keeps_liftM _) fun key => keeps_bind keeps_get fun client => ?_
    split
    · exact keeps_pure _
    · refine keeps_bind ?_ fun inner =>
        keeps_bind (sealFree.keeps_sealEnvelope _ _ _ _ _) fun _ => keeps_pure _
      exact keeps_bind (keeps_modify fun client => sealFree client _ _) fun _ =>
        keeps_bind (keeps_liftM _) fun _ => keeps_pure _

theorem keeps_sealForOpts (user : String) (devices : List String)
    (chat : String) (content : Content) (access : Access) (opts : SealOpts) :
    Keeps part (sealForOpts library user devices chat content access opts) :=
  keeps_bind keeps_get fun _ => keeps_bind (keeps_liftM _) fun _ =>
    keeps_bind (keeps_liftM _) fun _ => keeps_bind (keeps_liftM _) fun _ =>
    keeps_bind (keeps_mapM fun _ _ => sealFree.keeps_sealTo _ _ _ _ _ _) fun _ => keeps_pure _

theorem keeps_sealFor (user : String) (devices : List String)
    (chat : String) (content : Content) (access : Access) :
    Keeps part (sealFor library user devices chat content access) :=
  keeps_bind sealFree.keeps_newOpId fun _ => keeps_bind (sealFree.keeps_nowMs _) fun _ =>
    keeps_bind keeps_get fun _ => sealFree.keeps_sealForOpts _ _ _ _ _ _

theorem keeps_sealToOwnDevices (content : Content) :
    Keeps part (sealToOwnDevices library content) := by
  refine keeps_bind keeps_get fun client => Keeps.ite (keeps_pure _) ?_
  exact keeps_bind (keeps_liftM _) fun _ =>
    keeps_bind (sealFree.keeps_sealFor _ _ _ _ _) fun _ => keeps_pure _

theorem keeps_copyToOwn (peer : String) (content : Content)
    (opts : SealOpts) : Keeps part (copyToOwn library peer content opts) := by
  refine keeps_bind keeps_get fun client => Keeps.ite ?_ (keeps_pure _)
  exact keeps_bind (sealFree.keeps_sealForOpts _ _ _ _ _ _) fun _ => keeps_pure _

end

end SealFree

/-- A part of the client that does not depend on what sending uses up. -/
def Unsent (part : Client -> τ) : Prop :=
  ∀ client sessions stock foreignTokens sticky dk readings,
    part { client with
      sessions := sessions
      stock := stock
      foreignTokens := foreignTokens
      sticky := sticky
      dk := dk
      readings := readings } = part client

namespace Unsent

variable {part : Client -> τ} {library : SendingLibrary}

section

variable (unsent : Unsent part)

include unsent

theorem sealFree : SealFree part :=
  fun client sessions readings =>
    unsent client sessions client.stock client.foreignTokens client.sticky client.dk readings

theorem keeps_setStock (user : String) (stock : List Stocked) :
    Keeps part (modify (setStock user stock) : Act PUnit) := by
  refine keeps_modify fun client => ?_
  unfold setStock
  split
  · exact unsent client _ _ _ _ _ _
  · exact unsent client _ _ _ _ _ _

theorem keeps_returnAccess (access : Access) :
    Keeps part (modify (returnAccess access) : Act PUnit) := by
  refine keeps_modify fun client => ?_
  unfold returnAccess
  cases access with
  | deliveryKey key => rfl
  | anonToken token =>
      dsimp only
      split
      · exact unsent client _ _ _ _ _ _
      · exact unsent client _ _ _ _ _ _

theorem keeps_accessFor (user : String) : Keeps part (accessFor library user) := by
  refine keeps_bind keeps_get fun client => Keeps.ite (keeps_pure _) ?_
  split
  · exact keeps_pure _
  · exact keeps_bind (keeps_liftM _) fun _ => keeps_bind (unsent.sealFree.keeps_nowMs _) fun _ =>
      keeps_bind (unsent.keeps_setStock _ _) fun _ => keeps_bind (keeps_liftM _) fun _ =>
      keeps_pure _

theorem keeps_sealOrReturn (peer : String) (devices : List String)
    (content : Content) (access : Access) (opts : SealOpts) :
    Keeps part (sealOrReturn library peer devices content access opts) := by
  refine keeps_bind (keeps_attempt (unsent.sealFree.keeps_sealForOpts _ _ _ _ _ _)) fun result => ?_
  cases result with
  | ok envelopes =>
      exact Keeps.ite (keeps_bind (unsent.keeps_returnAccess access) fun _ => keeps_pure _)
        (keeps_pure _)
  | error error => exact keeps_bind (unsent.keeps_returnAccess access) fun _ => keeps_throw _

theorem keeps_sendContent (peer : String) (devices : List String)
    (opId : Option Bytes) (tsMs : Int64) (l2 : Bool) (content : Content) :
    Keeps part (sendContent library peer devices opId tsMs l2 content) := by
  cases opId with
  | some id =>
      rw [sendContent_some]
      exact keeps_bind (unsent.keeps_accessFor peer) fun _ => unsent.keeps_sealOrReturn _ _ _ _ _
  | none =>
      rw [sendContent_none]
      exact keeps_bind (unsent.keeps_accessFor peer) fun _ =>
        keeps_bind unsent.sealFree.keeps_newOpId fun _ => unsent.keeps_sealOrReturn _ _ _ _ _

theorem keeps_chooseSealed (peer : String) (log : Option DeviceLog)
    (device : String) : Keeps part (chooseSealed peer log device) :=
  keeps_bind (keeps_modifyGet fun client => unsent client _ _ _ _ _ _) fun _ => keeps_liftM _

end

end Unsent

end Parvane.Engine
