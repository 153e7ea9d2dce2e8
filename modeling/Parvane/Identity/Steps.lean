import Parvane.Identity.DeviceLog
import Parvane.Foundation.Run

/-!
# What an entry of the device log does

An accepted entry does one of six things.  A refused one leaves the log as it was, with
two exceptions: a first entry that names a bad former address, and a change of address
whose hash has a wrong length, are refused after something was written.
-/

namespace Parvane.Identity.DeviceLog

open Wire Sign

/-! ## Steps -/

/-- What an accepted entry was. -/
inductive Event
  | genesis
  | rotated
  | added (id : String) (key : Bytes) (serial : UInt64) (holds : Bool)
  | revoked (id : String) (left : Bool)
  | renamed
  | legacy
  deriving DecidableEq

/-- What an accepted entry does. -/
inductive Step (log : DeviceLog) (head : Hash) : Event -> DeviceLog -> Prop
  | genesis
      (isEmpty : log.version = 0)
      (root ssk : Hash)
      (former : Option String) :
      Step log head .genesis
        { log with
          rootKey := root, ssk := ssk, renamedFrom := former
          version := log.version + 1, headHash := head }
  | rotate
      (ssk : Hash) :
      Step log head .rotated
        { log with
          ssk := ssk, devices := ∅, sskExposed := false
          eras := closeEras log.eras none (log.version + 1) false
          sskHolders := ∅, leftHolders := ∅
          version := log.version + 1, headHash := head }
  | add
      (device : VerifiedDevice)
      (key : Hash)
      (keyEq : key.bytes = device.cert.olmEd25519)
      (notExposed : log.sskExposed = false)
      (notRevoked : device.cert.deviceId ∉ log.revoked)
      (distinct : ∀ other known, log.devices[other]? = some known ->
        other ≠ device.cert.deviceId ->
        known.cert.olmEd25519 ≠ device.cert.olmEd25519 ∧
          known.cert.olmCurve25519 ≠ device.cert.olmCurve25519)
      (grows : ∀ serial, log.maxSerial[device.cert.deviceId]? = some serial ->
        serial < device.cert.serial) :
      Step log head
        (.added device.cert.deviceId device.cert.olmEd25519 device.cert.serial
          (holdsSsk device.cert))
        { log with
          maxSerial := log.maxSerial.insert device.cert.deviceId device.cert.serial
          sskHolders :=
            if holdsSsk device.cert then log.sskHolders.insert device.cert.deviceId
            else log.sskHolders
          eras := closeEras log.eras (some device.cert.deviceId) (log.version + 1) false ++
            [⟨device.cert.deviceId, key, log.version + 1, none, false⟩]
          devices := log.devices.insert device.cert.deviceId device
          version := log.version + 1, headHash := head }
  | revoke
      (id : String)
      (entry : Entry) :
      Step log head (.revoked id (log.left entry id))
        { log with
          devices := log.devices.erase id
          leftHolders :=
            if log.held id && log.left entry id then log.leftHolders.insert id
            else if log.held id then log.leftHolders.erase id
            else log.leftHolders
          sskExposed := log.sskExposed || (log.held id && !log.left entry id)
          eras := closeEras log.eras (some id) (log.version + 1) (!log.left entry id)
          revoked := log.revoked.insert id
          legacy := log.legacy.map fun devices =>
            devices.filter fun device => device.deviceId != id
          version := log.version + 1, headHash := head }
  | rename
      (address : String)
      (genesis : Hash)
      (op : SignedOp) :
      Step log head .renamed
        { log with
          renamedTo := some address, renameGenesis := some genesis, renameOp := some op
          eras := closeEras log.eras none (log.version + 1) false
          devices := ∅
          version := log.version + 1, headHash := head }
  | legacy
      (devices : List LegacyDevice)
      (notExposed : log.sskExposed = false)
      (shrinks : ∀ current, log.legacy = some current -> ∀ device ∈ devices, device ∈ current) :
      Step log head .legacy
        { log with legacy := some devices, version := log.version + 1, headHash := head }

/-! ## Entries -/

section

variable (library : Library) (op : SignedOp) (log : DeviceLog)

/-- The event that an entry after the first one is, if it is accepted. -/
def changeEvent (entry : Entry) : Result Event :=
  match entry.change with
  | .rotateSelfSigningKey _ => .ok .rotated
  | .addDevice signed => do
      let device ← verifyCertificate library signed (some log.user)
      return .added device.cert.deviceId device.cert.olmEd25519 device.cert.serial
        (holdsSsk device.cert)
  | .revokeDeviceId id => .ok (.revoked id (log.left entry id))
  | .rename _ => .ok .renamed
  | .legacyDevices _ => .ok .legacy

/-- The event that an entry is, if it is accepted. -/
def eventOf : Result Event := do
  let entry ← log.readEntry library op
  if log.version = 0 then return .genesis else changeEvent library log entry

/-- The first entry is good but for the former address that it names, and brings new
keys. -/
def BadFormerAddress : Prop :=
  log.version = 0 ∧ ∃ entry root rotate ssk, log.readEntry library op = .ok entry ∧
    key32 entry.entry.rootKey = .ok root ∧ entry.change = .rotateSelfSigningKey rotate ∧
    entry.signer = root ∧
    verifySelfSigning library root.bytes log.user rotate.selfSigningKey rotate.rootSignature =
      .ok () ∧
    key32 rotate.selfSigningKey = .ok ssk ∧
    entry.entry.renamedFrom ≠ "" ∧
    (isValidAddress entry.entry.renamedFrom = false ∨ entry.entry.renamedFrom = log.user) ∧
    (root ≠ log.rootKey ∨ ssk ≠ log.ssk)

/-- The change of the address is good but for the length of the hash that it names. -/
def BadGenesisHash : Prop :=
  log.version ≠ 0 ∧ ∃ entry rename, log.readEntry library op = .ok entry ∧
    (entry.entry.rootKey = [] ∨ entry.entry.rootKey = log.rootKey.bytes) ∧
    entry.change = .rename rename ∧ entry.signer = log.rootKey ∧
    isValidAddress rename.newAddress = true ∧ rename.newAddress ≠ log.user ∧
    addressDomain rename.newAddress = addressDomain log.user ∧
    rename.newGenesisHash.length ≠ 32

variable {library op log}

theorem key32_eq_ok {bytes : Bytes} {key : Hash} : key32 bytes = .ok key ↔ key.bytes = bytes := by
  rw [key32, present_eq_ok, FixedBytes.ofBytes?]
  constructor
  · intro found
    split at found
    · cases found
      rfl
    · cases found
  · rintro rfl
    rw [dif_pos key.length_eq]

theorem exists_key32_iff {bytes : Bytes} : (∃ key, key32 bytes = .ok key) ↔ bytes.length = 32 := by
  constructor
  · rintro ⟨key, keyEq⟩
    rw [← key32_eq_ok.1 keyEq]
    exact key.length_eq
  · intro length
    exact ⟨⟨bytes, length⟩, key32_eq_ok.2 rfl⟩

theorem exists_key32_of_verifySelfSigning {root sskBytes signed : Bytes} {user : String}
    (verified : verifySelfSigning library root user sskBytes signed = .ok ()) :
    ∃ ssk, key32 sskBytes = .ok ssk := by
  simp only [verifySelfSigning, bind_eq_ok] at verified
  obtain ⟨_, -, ssk, sskEq, -⟩ := verified
  exact ⟨ssk, sskEq⟩

theorem exists_key32_of_verifyCertificate
    {signed : SignedDeviceCertificate} {expected : Option String} {device : VerifiedDevice}
    (verified : verifyCertificate library signed expected = .ok device) :
    ∃ key, key32 device.cert.olmEd25519 = .ok key := by
  simp only [verifyCertificate, bind_eq_ok, require_eq_ok, Bool.and_eq_true, beq_iff_eq, pure,
    Except.pure, Except.ok.injEq] at verified
  obtain ⟨root, -, ssk, -, _, -, cert, -, user, -, _, -, _, -, _, lengths, _, -, rfl⟩ := verified
  exact exists_key32_iff.2 lengths.1.2

/-- The version of an entry follows that of the log, which was not closed. -/
theorem readEntry_spec {entry : Entry} (read : log.readEntry library op = .ok entry) :
    entry.entry.version.toNat = log.version + 1 ∧ log.renamedTo = none := by
  simp only [readEntry, bind_eq_ok, require_eq_ok, beq_iff_eq, Option.isNone_iff_eq_none, pure,
    Except.pure, Except.ok.injEq] at read
  obtain ⟨hint, -, verified, -, inner, -, _, -, _, version, _, open_, _, -, change, -, rfl⟩ := read
  exact ⟨version, open_⟩

/-- What is left to do is to write down the version and the hash. -/
def Prepares (log : DeviceLog) (event : Event) (later : DeviceLog) : Prop :=
  ∀ head, Step log head event { later with version := log.version + 1, headHash := head }

variable {entry : Entry}

theorem applyGenesis_atomic
    (isEmpty : log.version = 0) (read : log.readEntry library op = .ok entry)
    (good : ¬ log.BadFormerAddress library op) :
    Update.Atomic log (applyGenesis library entry) log
      fun _ later => log.Prepares .genesis later := by
  refine Update.atomic_get (Update.atomic_check fun root rootEq => ?_)
  cases changeEq : entry.change with
  | rotateSelfSigningKey rotate =>
      dsimp only
      refine Update.atomic_check fun _ signer => Update.atomic_check fun _ verified => ?_
      obtain ⟨ssk, sskEq⟩ := exists_key32_of_verifySelfSigning verified
      refine Update.atomic_modify ?_
      by_cases former : entry.entry.renamedFrom = ""
      · simp only [sskEq, former, ne_eq, not_true_eq_false, if_false]
        exact fun head => .genesis isEmpty root ssk _
      · simp only [sskEq, former, ne_eq, not_false_eq_true, if_true, require]
        split
        · exact fun head => .genesis isEmpty root ssk _
        · next bad =>
            -- The keys are already written, so they have to be the old ones.
            show { log with rootKey := root, ssk := ssk } = log
            by_contra changed
            refine good ⟨isEmpty, entry, root, rotate, ssk, read, rootEq, changeEq, ?_, verified,
              sskEq, former, ?_, ?_⟩
            · simpa using signer
            · rw [Bool.and_eq_true, not_and_or, Bool.not_eq_true, bne_iff_ne, not_not] at bad
              exact bad
            · by_contra same
              push Not at same
              rw [same.1, same.2] at changed
              exact changed rfl
  | _ => rfl

section

variable (version : entry.entry.version.toNat = log.version + 1)

include version

theorem applyRotate_atomic
    (rotate : RotateSelfSigning) :
    Update.Atomic log (applyRotate library entry rotate) log
      fun _ later => log.Prepares .rotated later := by
  refine Update.atomic_get (Update.atomic_check fun _ _ => Update.atomic_check fun _ _ => ?_)
  refine Update.atomic_check fun ssk _ => ?_
  refine fun head => ?_
  dsimp only
  rw [version]
  exact .rotate ssk

theorem applyAddDevice_atomic
    (signed : SignedDeviceCertificate) :
    Update.Atomic log (applyAddDevice library entry signed) log fun _ later =>
      ∃ device, verifyCertificate library signed (some log.user) = .ok device ∧
        log.Prepares
          (.added device.cert.deviceId device.cert.olmEd25519 device.cert.serial
            (holdsSsk device.cert)) later := by
  refine Update.atomic_get (Update.atomic_check fun _ _ => Update.atomic_check fun _ exposed => ?_)
  refine Update.atomic_check fun device verified => Update.atomic_check fun _ _ => ?_
  refine Update.atomic_check fun _ notRevoked => Update.atomic_check fun _ distinct => ?_
  refine Update.atomic_check fun _ grows => ?_
  obtain ⟨key, keyEq⟩ := exists_key32_of_verifyCertificate verified
  simp only [keyEq]
  refine ⟨device, verified, fun head => ?_⟩
  dsimp only
  rw [version]
  refine .add device key (key32_eq_ok.1 keyEq) ?_ ?_ ?_ ?_
  · simpa using exposed
  · intro member
    simp [Std.ExtTreeSet.contains_iff_mem.2 member] at notRevoked
  · intro other known found different
    simp only [require_eq_ok, Bool.not_eq_true', List.any_eq_false, Bool.and_eq_true, bne_iff_ne,
      Bool.or_eq_true, beq_iff_eq, not_and, not_or, Prod.forall,
      Std.ExtTreeMap.mem_toList_iff_getElem?_eq_some] at distinct
    exact distinct other known found different
  · intro serial found
    simpa [found] using grows

theorem applyRevoke_atomic
    (id : String) :
    Update.Atomic log (applyRevoke entry id) log
      fun _ later => log.Prepares (.revoked id (log.left entry id)) later := by
  refine Update.atomic_get (Update.atomic_check fun _ _ => ?_)
  refine fun head => ?_
  dsimp only
  rw [version]
  exact .revoke id entry

end

theorem applyRename_atomic
    (started : log.version ≠ 0) (read : log.readEntry library op = .ok entry)
    (root : entry.entry.rootKey = [] ∨ entry.entry.rootKey = log.rootKey.bytes)
    (good : ¬ log.BadGenesisHash library op) {rename : Rename}
    (changeEq : entry.change = .rename rename) :
    Update.Atomic log (applyRename op entry rename) log
      fun _ later => log.Prepares .renamed later := by
  refine Update.atomic_get (Update.atomic_check fun _ signer => ?_)
  refine Update.atomic_check fun _ address => ?_
  simp only [require_eq_ok, Bool.and_eq_true, beq_iff_eq, bne_iff_ne] at signer address
  obtain ⟨genesis, genesisEq⟩ : ∃ genesis, key32 rename.newGenesisHash = .ok genesis := by
    rw [exists_key32_iff]
    by_contra wrong
    exact good ⟨started, entry, rename, read, root, changeEq, signer, address.1.1, address.1.2,
      address.2, wrong⟩
  simp only [genesisEq]
  refine fun head => ?_
  dsimp only
  rw [(readEntry_spec read).1]
  exact .rename rename.newAddress genesis op

theorem applyLegacyDevices_atomic {entry : Entry} (devices : List LegacyDevice) :
    Update.Atomic log (applyLegacyDevices entry devices) log
      fun _ later => log.Prepares .legacy later := by
  refine Update.atomic_get (Update.atomic_check fun _ _ => Update.atomic_check fun _ exposed => ?_)
  refine Update.atomic_check fun _ shrinks => ?_
  refine fun head => .legacy devices ?_ ?_
  · simpa using exposed
  · intro current found device member
    simp only [require_eq_ok, found, Option.all_some, List.all_eq_true,
      List.contains_iff_mem] at shrinks
    exact shrinks device member

/-- Apart from the two exceptions a refused entry changes nothing. -/
theorem apply_atomic
    (goodAddress : ¬ log.BadFormerAddress library op) (goodHash : ¬ log.BadGenesisHash library op) :
    Update.Atomic log (apply library op) log fun _ next =>
      ∃ event, log.eventOf library op = .ok event ∧
        Step log (deviceLogHash library op) event next := by
  refine Update.atomic_get (Update.atomic_check fun entry read => ?_)
  have version := (readEntry_spec read).1
  have finish {update : Update DeviceLog Unit}
      (atomic : Update.Atomic log update log fun _ later =>
        ∃ event, log.eventOf library op = .ok event ∧ log.Prepares event later) :
      Update.Atomic log
        (update >>= fun _ => modify fun log =>
          { log with
            version := entry.entry.version.toNat
            headHash := deviceLogHash library op })
        log
        fun _ next => ∃ event, log.eventOf library op = .ok event ∧
          Step log (deviceLogHash library op) event next := by
    refine Update.atomic_bind atomic ?_
    rintro _ later ⟨event, eventEq, prepares⟩
    have stepped := prepares (deviceLogHash library op)
    rw [← version] at stepped
    exact ⟨event, eventEq, stepped⟩
  by_cases isEmpty : log.version = 0
  · simp only [if_pos isEmpty]
    refine finish (Update.atomic_mono (applyGenesis_atomic isEmpty read goodAddress) ?_)
    intro _ later prepares
    refine ⟨_, ?_, prepares⟩
    simp only [eventOf, read, isEmpty, if_true, bind, Except.bind, pure, Except.pure]
  · simp only [if_neg isEmpty]
    refine Update.atomic_check fun _ root => ?_
    simp only [require_eq_ok, Bool.or_eq_true, List.isEmpty_iff, beq_iff_eq] at root
    have event {found : Event}
        (changed : changeEvent library log entry = .ok found) :
        log.eventOf library op = .ok found := by
      simp only [eventOf, read, isEmpty, if_false, bind, Except.bind, changed]
    cases changeEq : entry.change with
    | rotateSelfSigningKey rotate =>
        refine finish (Update.atomic_mono (applyRotate_atomic version rotate) ?_)
        exact fun _ later prepares => ⟨_, event (by rw [changeEvent, changeEq]), prepares⟩
    | addDevice signed =>
        refine finish (Update.atomic_mono (applyAddDevice_atomic version signed) ?_)
        rintro _ later ⟨device, verified, prepares⟩
        refine ⟨_, event ?_, prepares⟩
        simp only [changeEvent, changeEq, verified, bind, Except.bind, pure, Except.pure]
    | revokeDeviceId id =>
        refine finish (Update.atomic_mono (applyRevoke_atomic version id) ?_)
        exact fun _ later prepares => ⟨_, event (by rw [changeEvent, changeEq]), prepares⟩
    | rename rename =>
        refine finish (Update.atomic_mono
          (applyRename_atomic isEmpty read root goodHash changeEq) ?_)
        exact fun _ later prepares => ⟨_, event (by rw [changeEvent, changeEq]), prepares⟩
    | legacyDevices devices =>
        refine finish (Update.atomic_mono (applyLegacyDevices_atomic devices) ?_)
        exact fun _ later prepares => ⟨_, event (by rw [changeEvent, changeEq]), prepares⟩

/-- An entry that revokes a device changes nothing if it is refused. -/
theorem applyRevocation_atomic {id : String}
    (reads : ∀ entry, log.readEntry library op = .ok entry ->
      entry.change = .revokeDeviceId id) :
    Update.Atomic log (apply library op) log fun _ next =>
      ∃ left, Step log (deviceLogHash library op) (.revoked id left) next := by
  refine Update.atomic_get (Update.atomic_check fun entry read => ?_)
  have changeEq := reads entry read
  have version := (readEntry_spec read).1
  split
  · -- the first entry cannot be one that revokes a device
    have refused : Update.Atomic log (applyGenesis library entry) log fun _ _ => False := by
      refine Update.atomic_get (Update.atomic_check fun root _ => ?_)
      rw [changeEq]
      rfl
    exact Update.atomic_bind refused fun _ _ impossible => impossible.elim
  · refine Update.atomic_check fun _ _ => ?_
    rw [changeEq]
    refine Update.atomic_bind (applyRevoke_atomic version id) fun _ later prepares => ?_
    have stepped := prepares (deviceLogHash library op)
    rw [← version] at stepped
    exact ⟨_, stepped⟩

theorem BadFormerAddress.exec_apply (bad : log.BadFormerAddress library op) :
    ∃ error next, (apply library op).exec log = (.error error, next) ∧ next ≠ log ∧
      next.devices = log.devices ∧ next.revoked = log.revoked := by
  obtain ⟨isEmpty, entry, root, rotate, ssk, read, rootEq, changeEq, signer, verified, sskEq,
    former, wrong, changed⟩ := bad
  have refused : (isValidAddress entry.entry.renamedFrom && entry.entry.renamedFrom != log.user) =
      false := by
    rcases wrong with invalid | same
    · rw [invalid, Bool.false_and]
    · simp [same]
  refine ⟨.invalidField "renamed_from", { log with rootKey := root, ssk := ssk }, ?_, ?_, rfl,
    rfl⟩
  · simp only [apply, applyGenesis, Update.exec_bind, Update.exec_get, Update.exec_liftM,
      Update.exec_modify, read, isEmpty, if_true, rootEq, changeEq, signer, verified, sskEq, former,
      ne_eq, not_false_eq_true, refused, require, beq_self_eq_true, Bool.false_eq_true, if_false]
  · intro same
    rcases changed with rootChanged | sskChanged
    · exact rootChanged (congrArg DeviceLog.rootKey same)
    · exact sskChanged (congrArg DeviceLog.ssk same)

theorem BadGenesisHash.exec_apply (bad : log.BadGenesisHash library op) :
    ∃ error next, (apply library op).exec log = (.error error, next) ∧ next ≠ log ∧
      next.devices = log.devices ∧ next.revoked = log.revoked := by
  obtain ⟨started, entry, rename, read, root, changeEq, signer, valid, other, domain, wrong⟩ := bad
  have rootOk : (entry.entry.rootKey.isEmpty || entry.entry.rootKey == log.rootKey.bytes) =
      true := by
    simpa [List.isEmpty_iff] using root
  have addressOk : (isValidAddress rename.newAddress && rename.newAddress != log.user &&
      addressDomain rename.newAddress == addressDomain log.user) = true := by
    simp [valid, other, domain]
  have hashEq : key32 rename.newGenesisHash = .error .badCertificate := by
    rw [key32, FixedBytes.ofBytes?, dif_neg wrong]
    rfl
  refine ⟨.badCertificate, { log with renamedTo := some rename.newAddress }, ?_, ?_, rfl, rfl⟩
  · simp only [apply, applyRename, Update.exec_bind, Update.exec_get, Update.exec_liftM,
      Update.exec_modify, read, started, if_false, changeEq, signer, rootOk, addressOk, hashEq,
      require, beq_self_eq_true, if_true]
  · intro same
    have closed := congrArg DeviceLog.renamedTo same
    rw [(readEntry_spec read).2] at closed
    cases closed

/-- A refused entry changes no device. -/
theorem devices_of_refused {error : ProtoError} {next : DeviceLog}
    (ran : (apply library op).exec log = (.error error, next)) :
    next.devices = log.devices ∧ next.revoked = log.revoked := by
  by_cases badAddress : log.BadFormerAddress library op
  · obtain ⟨_, later, refused, -, same⟩ := badAddress.exec_apply
    rw [refused] at ran
    cases ran
    exact same
  by_cases badHash : log.BadGenesisHash library op
  · obtain ⟨_, later, refused, -, same⟩ := badHash.exec_apply
    rw [refused] at ran
    cases ran
    exact same
  obtain ⟨_, refused⟩ | ⟨_, later, accepted, -⟩ := (apply_atomic badAddress badHash).cases
  · rw [refused] at ran
    cases ran
    exact ⟨rfl, rfl⟩
  · rw [accepted] at ran
    cases ran

/-- An accepted entry is a step. -/
theorem step_of_applied {next : DeviceLog}
    (ran : (apply library op).exec log = (.ok (), next)) :
    ∃ event head, Step log head event next := by
  by_cases badAddress : log.BadFormerAddress library op
  · obtain ⟨_, later, refused, -⟩ := badAddress.exec_apply
    rw [refused] at ran
    cases ran
  by_cases badHash : log.BadGenesisHash library op
  · obtain ⟨_, later, refused, -⟩ := badHash.exec_apply
    rw [refused] at ran
    cases ran
  obtain ⟨_, refused⟩ | ⟨_, later, accepted, event, -, step⟩ :=
    (apply_atomic badAddress badHash).cases
  · rw [refused] at ran
    cases ran
  · rw [accepted] at ran
    cases ran
    exact ⟨event, _, step⟩

end

/-- A refused entry leaves the log as it was, except in two cases: a first entry that is
good but for the former address it names, and a change of address that is good but for
the length of the hash it names. -/
theorem refused_unchanged_iff
    (library : Library)
    (op : SignedOp)
    (log : DeviceLog) :
    (∀ error next, (apply library op).exec log = (.error error, next) -> next = log) ↔
      ¬ (log.BadFormerAddress library op ∨ log.BadGenesisHash library op) := by
  constructor
  · rintro unchanged (badAddress | badHash)
    · obtain ⟨error, next, ran, changed, -⟩ := badAddress.exec_apply
      exact changed (unchanged error next ran)
    · obtain ⟨error, next, ran, changed, -⟩ := badHash.exec_apply
      exact changed (unchanged error next ran)
  · intro good error next ran
    rw [not_or] at good
    obtain ⟨_, refused⟩ | ⟨_, later, accepted, -⟩ := (apply_atomic good.1 good.2).cases
    · rw [refused] at ran
      cases ran
      rfl
    · rw [accepted] at ran
      cases ran

/-! ## A sample -/

/-- Every signature is good; the payload of an entry is chosen by the version in the first
byte of its body. -/
def sampleLibrary (entries : List UserDeviceLogEntry) (certs : List DeviceCertificate) :
    Library where
  sha256 _ := zeroKey
  isVerifyingKey _ := true
  verifyStrict _ _ _ := true
  decodeOpBody body := .ok
    { header := some
        { domain := deviceLogDomain, opType := deviceLogOp, opId := List.replicate 16 112
          target := none, audience := [], tsMs := 0 }
      payload := body }
  decodeDeviceCertificate bytes := present certs[(bytes.getD 0 0).toNat]? .malformed
  decodeDeviceLogEntry payload := present entries[(payload.getD 0 0).toNat - 1]? .malformed

/-- The entry of a version, signed by the key that consists of the given byte. -/
def sampleOp (version signer : UInt8) : SignedOp :=
  ⟨[version], List.replicate 64 0, List.replicate 32 signer⟩

def sampleKey (byte : UInt8) : Bytes := List.replicate 32 byte

/-- An entry of the sample user. -/
def sampleEntry (version : UInt64) (change : Change) : UserDeviceLogEntry where
  user := some ⟨"u@a.org"⟩
  version := version
  prevHash := zeroKey.bytes
  change := some change
  rootKey := if version == 1 then sampleKey 1 else []
  signOut := false
  renamedFrom := ""

def sampleGenesis : UserDeviceLogEntry :=
  sampleEntry 1 (.rotateSelfSigningKey ⟨sampleKey 2, List.replicate 64 0⟩)

/-- The log after some entries. -/
def replay (library : Library) (ops : List SignedOp) (log : DeviceLog) : DeviceLog :=
  ops.foldl (fun log op => ((apply library op).exec log).2) log

def sampleStart : DeviceLog := { user := "u@a.org" }

/-- A change of address without the hash that it should name. -/
def renameLibrary : Library :=
  sampleLibrary [sampleGenesis, sampleEntry 2 (.rename ⟨"v@a.org", []⟩)] []

/-- The log before that change. -/
def renameLog : DeviceLog := replay renameLibrary [sampleOp 1 1] sampleStart

/-- Such a change is refused, and closes the log all the same. -/
theorem refused_rename_changes :
    ((apply renameLibrary (sampleOp 2 1)).exec renameLog).1 = .error .badCertificate ∧
      ((apply renameLibrary (sampleOp 2 1)).exec renameLog).2 ≠ renameLog := by
  refine ⟨by decide +kernel, fun same => ?_⟩
  have before : renameLog.renamedTo = none := by decide +kernel
  have after : ((apply renameLibrary (sampleOp 2 1)).exec renameLog).2.renamedTo =
      some "v@a.org" := by
    decide +kernel
  rw [same, before] at after
  cases after

end Parvane.Identity.DeviceLog
