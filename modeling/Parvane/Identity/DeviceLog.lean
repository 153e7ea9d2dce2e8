import Parvane.Sign
import Std.Data.ExtTreeMap.Lemmas
import Std.Data.ExtTreeSet.Lemmas

/-!
# The device log of a user

A chain of entries, signed by the root key of the user, by the self-signing key that the
devices hold, or by a device that leaves.  The log tells which devices are active, which
were revoked, and between which versions each signing key was in force.
-/

namespace Parvane.Identity

open Wire Sign

def deviceLogDomain : String := "identity"
def deviceLogOp : String := "device_log"

/-- A device with this feature does not hold the self-signing key. -/
def featureNoSsk : String := "no-ssk"

structure DeviceCertificate where
  user : Option UserRef
  deviceId : String
  olmCurve25519 : Bytes
  olmEd25519 : Bytes
  hpkeX25519 : Bytes
  features : List String
  serial : UInt64
  possessionSignature : Bytes
  deriving DecidableEq

structure SignedDeviceCertificate where
  certificate : Bytes
  selfSigningSignature : Bytes
  selfSigningKey : Bytes
  rootSignatureOverSelfSigning : Bytes
  rootKey : Bytes
  deriving DecidableEq

structure RotateSelfSigning where
  selfSigningKey : Bytes
  rootSignature : Bytes
  deriving DecidableEq

structure LegacyDevice where
  deviceId : String
  olmCurve25519 : Bytes
  olmEd25519 : Bytes
  deriving DecidableEq

structure Rename where
  newAddress : String
  newGenesisHash : Bytes
  deriving DecidableEq

inductive Change
  | addDevice (signed : SignedDeviceCertificate)
  | revokeDeviceId (deviceId : String)
  | rotateSelfSigningKey (rotate : RotateSelfSigning)
  | legacyDevices (devices : List LegacyDevice)
  | rename (rename : Rename)
  deriving DecidableEq

structure UserDeviceLogEntry where
  user : Option UserRef
  version : UInt64
  prevHash : Bytes
  change : Option Change
  rootKey : Bytes
  signOut : Bool
  renamedFrom : String
  deriving DecidableEq

/-- The decoders of payloads, besides what signatures need. -/
structure Library extends Sign.Library where
  decodeDeviceCertificate : Bytes -> Result DeviceCertificate
  decodeDeviceLogEntry : Bytes -> Result UserDeviceLogEntry

/-- The device held the self-signing key, according to its certificate. -/
def holdsSsk (cert : DeviceCertificate) : Bool :=
  !cert.features.any fun feature => feature == featureNoSsk

def key32 (bytes : Bytes) : Result Hash :=
  present (FixedBytes.ofBytes? 32 bytes) .badCertificate

/-- Report every failure as the given one. -/
def mapError (result : Result α) (error : ProtoError) : Result α :=
  match result with
  | .ok value => .ok value
  | .error _ => .error error

structure VerifiedDevice where
  cert : DeviceCertificate
  rootKey : Hash
  ssk : Hash
  deriving DecidableEq

section

variable (library : Library)

def verifySelfSigning (root : Bytes) (user : String) (sskBytes signed : Bytes) : Result Unit := do
  require (isValidAddress user) .badAddress
  let ssk ← key32 sskBytes
  mapError (verifyCtx library.toLibrary root signed selfSigningContext [utf8 user, [0], ssk.bytes])
    .badCertificate

/-- The bytes by which a device proves that the keys of a certificate are its own. -/
def possessionParts (cert : DeviceCertificate) (root : Hash) : Result Bytes := do
  let user ← present cert.user .badCertificate
  return utf8 user.address ++ [0] ++ utf8 cert.deviceId ++ [0] ++ root.bytes ++
    cert.olmCurve25519 ++ cert.olmEd25519 ++ cert.hpkeX25519

def verifyPossession (cert : DeviceCertificate) (root : Hash) : Result Unit := do
  let parts ← possessionParts cert root
  mapError
    (verifyCtx library.toLibrary cert.olmEd25519 cert.possessionSignature devicePossessionContext
      [parts])
    .badCertificate

/-- Check the chain from the root over the self-signing key to the device. -/
def verifyCertificate (signed : SignedDeviceCertificate) (expectedUser : Option String) :
    Result VerifiedDevice := do
  let root ← key32 signed.rootKey
  let ssk ← key32 signed.selfSigningKey
  mapError
    (verifyCtx library.toLibrary ssk.bytes signed.selfSigningSignature deviceCertContext
      [signed.certificate])
    .badCertificate
  let cert ← library.decodeDeviceCertificate signed.certificate
  let user ← present (cert.user.map UserRef.address) .badCertificate
  verifySelfSigning library root.bytes user ssk.bytes signed.rootSignatureOverSelfSigning
  require (expectedUser.all fun expected => user == expected) .badCertificate
  require
    (isValidDeviceId cert.deviceId && cert.olmCurve25519.length == 32 &&
      cert.olmEd25519.length == 32 && cert.hpkeX25519.length == 32)
    .badCertificate
  verifyPossession library cert root
  return ⟨cert, root, ssk⟩

end

/-- When a signing key was in force: from the entry that added the certificate to the one
that ended it. -/
structure KeyEra where
  deviceId : String
  key : Hash
  «from» : Nat
  «until» : Option Nat
  revoked : Bool
  deriving DecidableEq

def zeroKey : Hash := ⟨List.replicate 32 0, length_zeros⟩

/-- The device log.  The version counts its entries. -/
@[ext] structure DeviceLog where
  user : String
  version : Nat := 0
  headHash : Hash := zeroKey
  rootKey : Hash := zeroKey
  ssk : Hash := zeroKey
  devices : Std.ExtTreeMap String VerifiedDevice := ∅
  maxSerial : Std.ExtTreeMap String UInt64 := ∅
  revoked : Std.ExtTreeSet String := ∅
  legacy : Option (List LegacyDevice) := none
  sskExposed : Bool := false
  eras : List KeyEra := []
  sskHolders : Std.ExtTreeSet String := ∅
  leftHolders : Std.ExtTreeSet String := ∅
  renamedTo : Option String := none
  renameGenesis : Option Hash := none
  renameOp : Option SignedOp := none
  renamedFrom : Option String := none

/-- The eras of a device, or of all devices, that are open, end at the given version. -/
def closeEras (eras : List KeyEra) (deviceId : Option String) (version : Nat) (revoked : Bool) :
    List KeyEra :=
  eras.map fun era =>
    if era.until.isNone && deviceId.all (fun device => device == era.deviceId) then
      { era with «until» := some version, revoked := revoked }
    else era

namespace DeviceLog

/-- The empty log of a user. -/
def new (user : String) : Result DeviceLog := do
  require (isValidAddress user) .badAddress
  return { user := user }

section

variable (library : Library) (op : SignedOp)

def deviceLogHash : Hash :=
  library.sha256 (deviceLogHashContext ++ op.body ++ op.signature)

/-- An entry whose signature and place in the log were checked. -/
structure Entry where
  entry : UserDeviceLogEntry
  change : Change
  signer : Hash

/-- Check the signature of an entry and its place in the log. -/
def readEntry (log : DeviceLog) : Result Entry := do
  let hint ← verifyingKey library.toLibrary op.signerKey
  let verified ← verifyOp library.toLibrary op deviceLogDomain deviceLogOp (some hint)
  let entry ← library.decodeDeviceLogEntry verified.payload
  require (entry.user.map UserRef.address == some log.user) (.invalidField "user")
  require (entry.version.toNat == log.version + 1) .brokenChain
  require log.renamedTo.isNone .forbidden
  require (entry.prevHash == log.headHash.bytes) .brokenChain
  let change ← present entry.change (.invalidField "change")
  return ⟨entry, change, verified.signer⟩

/-- The first entry gives the root key and the first self-signing key. -/
def applyGenesis (entry : Entry) : Update DeviceLog Unit := do
  let log ← get
  let root ← key32 entry.entry.rootKey
  match entry.change with
  | .rotateSelfSigningKey rotate =>
      require (entry.signer == root) .badSignature
      verifySelfSigning library root.bytes log.user rotate.selfSigningKey rotate.rootSignature
      modify fun log => { log with rootKey := root }
      let ssk ← key32 rotate.selfSigningKey
      modify fun log => { log with ssk := ssk }
      if entry.entry.renamedFrom ≠ "" then
        require
          (isValidAddress entry.entry.renamedFrom && entry.entry.renamedFrom != log.user)
          (.invalidField "renamed_from")
        modify fun log => { log with renamedFrom := some entry.entry.renamedFrom }
  | _ => throw .brokenChain

/-- A new self-signing key; the certificates of the old one are void. -/
def applyRotate (entry : Entry) (rotate : RotateSelfSigning) : Update DeviceLog Unit := do
  let log ← get
  require (entry.signer == log.rootKey) .badSignature
  verifySelfSigning library log.rootKey.bytes log.user rotate.selfSigningKey rotate.rootSignature
  let ssk ← key32 rotate.selfSigningKey
  modify fun log =>
    { log with
      ssk := ssk
      devices := ∅
      sskExposed := false
      eras := closeEras log.eras none entry.entry.version.toNat false
      sskHolders := ∅
      leftHolders := ∅ }

/-- A device gets a certificate.  Its keys may not be those of another device, and its
serial number has to grow. -/
def applyAddDevice (entry : Entry) (signed : SignedDeviceCertificate) :
    Update DeviceLog Unit := do
  let log ← get
  require (entry.signer == log.ssk) .badSignature
  require (!log.sskExposed) .forbidden
  let device ← verifyCertificate library signed (some log.user)
  require (device.rootKey == log.rootKey && device.ssk == log.ssk) .badCertificate
  let id := device.cert.deviceId
  require (!log.revoked.contains id) .forbidden
  require
    (!log.devices.toList.any fun other =>
      other.1 != id &&
        (other.2.cert.olmEd25519 == device.cert.olmEd25519 ||
          other.2.cert.olmCurve25519 == device.cert.olmCurve25519))
    .duplicate
  require (log.maxSerial[id]?.all fun serial => serial < device.cert.serial) .brokenChain
  modify fun log => { log with maxSerial := log.maxSerial.insert id device.cert.serial }
  modify fun log =>
    { log with
      sskHolders :=
        if holdsSsk device.cert then log.sskHolders.insert id else log.sskHolders }
  modify fun log =>
    { log with eras := closeEras log.eras (some id) entry.entry.version.toNat false }
  let key ← key32 device.cert.olmEd25519
  modify fun log =>
    { log with
      eras := log.eras ++ [⟨id, key, entry.entry.version.toNat, none, false⟩]
      devices := log.devices.insert id device }

/-- The device left by its own entry. -/
def byItself (log : DeviceLog) (entry : Entry) (id : String) : Bool :=
  log.devices[id]?.any fun device => device.cert.olmEd25519 == entry.signer.bytes

/-- The device left, by itself or because it was signed out. -/
def left (log : DeviceLog) (entry : Entry) (id : String) : Bool :=
  log.byItself entry id ||
    (entry.entry.signOut && entry.signer == log.ssk && log.devices.contains id)

/-- The device held the self-signing key, by any of its certificates. -/
def held (log : DeviceLog) (id : String) : Bool :=
  (log.devices[id]?.any fun device => holdsSsk device.cert) || log.sskHolders.contains id

/-- A device leaves or is revoked.  A holder of the self-signing key that is revoked by
another hand exposes the key. -/
def applyRevoke (entry : Entry) (id : String) : Update DeviceLog Unit := do
  let log ← get
  require
    (log.byItself entry id || entry.signer == log.ssk || entry.signer == log.rootKey)
    .badSignature
  let left := log.left entry id
  let held := log.held id
  modify fun log =>
    { log with
      devices := log.devices.erase id
      leftHolders :=
        if held && left then log.leftHolders.insert id
        else if held then log.leftHolders.erase id
        else log.leftHolders
      sskExposed := log.sskExposed || (held && !left)
      eras := closeEras log.eras (some id) entry.entry.version.toNat (!left)
      revoked := log.revoked.insert id
      legacy := log.legacy.map fun devices => devices.filter fun device => device.deviceId != id }

/-- The user goes on under another address; this log is closed. -/
def applyRename (entry : Entry) (rename : Rename) : Update DeviceLog Unit := do
  let log ← get
  require (entry.signer == log.rootKey) .badSignature
  require
    (isValidAddress rename.newAddress && rename.newAddress != log.user &&
      addressDomain rename.newAddress == addressDomain log.user)
    (.invalidField "new_address")
  modify fun log => { log with renamedTo := some rename.newAddress }
  let genesis ← key32 rename.newGenesisHash
  modify fun log =>
    { log with
      renameGenesis := some genesis
      renameOp := some op
      eras := closeEras log.eras none entry.entry.version.toNat false
      devices := ∅ }

/-- The list of older devices is published once and may only shrink. -/
def applyLegacyDevices (entry : Entry) (devices : List LegacyDevice) : Update DeviceLog Unit := do
  let log ← get
  require (entry.signer == log.ssk) .badSignature
  require (!log.sskExposed) .forbidden
  require
    (log.legacy.all fun current => devices.all fun device => current.contains device)
    .forbidden
  modify fun log => { log with legacy := some devices }

/-- Apply the next entry. -/
def apply : Update DeviceLog Unit := do
  let log ← get
  let entry ← log.readEntry library op
  if log.version = 0 then
    applyGenesis library entry
  else
    require
      (entry.entry.rootKey.isEmpty || entry.entry.rootKey == log.rootKey.bytes)
      .rootMismatch
    match entry.change with
    | .rotateSelfSigningKey rotate => applyRotate library entry rotate
    | .addDevice signed => applyAddDevice library entry signed
    | .revokeDeviceId id => applyRevoke entry id
    | .rename rename => applyRename op entry rename
    | .legacyDevices devices => applyLegacyDevices entry devices
  modify fun log =>
    { log with
      version := entry.entry.version.toNat
      headHash := deviceLogHash library op }

end

/-! ## Questions to a log -/

/-- The signing key was in force at a version. -/
def keyActiveAt (log : DeviceLog) (key : Bytes) (version : Nat) : Bool :=
  log.eras.any fun era =>
    era.key.bytes == key && era.from ≤ version && era.until.all fun last => version < last

/-- The version at which a device was last revoked by another hand. -/
def revocationFloor (log : DeviceLog) : Nat :=
  (((log.eras.filter KeyEra.revoked).map KeyEra.until).reduceOption.max?).getD 0

/-- The key is in force, or ceased to be without being revoked. -/
def keyKnownUnrevoked (log : DeviceLog) (key : Bytes) : Bool :=
  log.eras.any fun era => era.key.bytes == key && !era.revoked

/-- The key once was that of a device. -/
def keyEver (log : DeviceLog) (key : Bytes) : Bool :=
  log.eras.any fun era => era.key.bytes == key

/-- The active device of an identifier. -/
def active (log : DeviceLog) (id : String) : Option VerifiedDevice :=
  if log.revoked.contains id then none else log.devices[id]?

end DeviceLog

/-- The entry by which a user changed the address, with the old address and the key that
signed it. -/
def verifyRenameOp (library : Library) (op : SignedOp) (newAddress : String) :
    Result (String × Hash) := do
  let hint ← verifyingKey library.toLibrary op.signerKey
  let verified ← verifyOp library.toLibrary op deviceLogDomain deviceLogOp (some hint)
  let entry ← library.decodeDeviceLogEntry verified.payload
  match entry.change with
  | some (.rename rename) =>
      let old ← present (entry.user.map UserRef.address) (.invalidField "user")
      require (rename.newAddress == newAddress && isValidAddress old && old != newAddress)
        (.invalidField "rename")
      return (old, verified.signer)
  | _ => .error (.invalidField "rename")

end Parvane.Identity
