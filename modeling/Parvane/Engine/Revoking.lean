import Parvane.Engine.Epochs
import Parvane.Engine.Renames
import Parvane.Engine.Sealing

/-!
# Revoking a device

The user revokes another one of the own devices: an entry of the own log says so, and is
applied at once.  Then the keys that the device knew are replaced, and the new ones are
given to those who need them.
-/

namespace Parvane.Engine

open Wire Sign Identity Parvane.Group Fallible

/-- What the host has to do after a revocation. -/
structure RevocationOutcome where
  requests : List OutRequest := []
  pendingKeyShares : List String := []
  pendingEpochs : List Bytes := []
  epochsNeedAdmin : List Bytes := []
  sskRotationRequired : Bool := false
  stateKeyVersion : Option UInt32 := none
  deriving DecidableEq

/-- The containers, which get new keys too. -/
structure Containers where
  plannerRotateOnRevoke : Int64 -> Act (List OutRequest)
  cloudRotateOnRevoke : Int64 -> Client -> List OutRequest × Client

/-- Forget the sessions with a device, and the own sessions in groups that it got. -/
def forgetRevokedDevice (device : String) (client : Client) : Client :=
  { client with
    sessions := client.sessions.erase ⟨client.user, device⟩
    oldSessions := client.oldSessions.erase ⟨client.user, device⟩
    megolmOut := ∅
    megolmShared := ∅ }

/-- The groups of the user, each with whether the user is its owner or an administrator. -/
def Client.ownGroups (client : Client) : List (Bytes × Bool) :=
  client.groups.toList.filterMap fun entry =>
    (entry.2.state.filter fun state => state.members.contains client.user && !state.deleted).map
      fun state =>
        (entry.1, state.owner == client.user ||
          (state.members[client.user]? : Option Member).any fun member => member.role == .admin)

section

variable (library : SendingLibrary) (containers : Containers)

/-- The entry that revokes a device. -/
def revocationEntry (client : Client) (device : String) : UserDeviceLogEntry :=
  deviceLogEntry client (.revokeDeviceId device)

/-- Write the entry that revokes another one of the own devices. -/
def revokeDeviceRequest (device : String) : Act OutRequest := do
  let client ← get
  liftProto (require (device != client.deviceId) .forbidden)
  let ssk ← liftProto (present client.ssk .forbidden)
  let op ← signDeviceLogEntry library (keySigner library ssk) (revocationEntry client device)
  applyOwnEntry library.toOpening op
  return .logAppend op

/-! ## New keys -/

/-- A new delivery key, for the server and the own devices.  Those that had the former one
are to get it too. -/
def replaceDeliveryKey : Act (List OutRequest × List String) := do
  let fresh ← drawKey library
  let targets ← modifyGet fun client =>
    let rotated := client.dk.rotate fresh []
    (rotated.2, { client with dk := rotated.1 })
  let client ← get
  let sent ← sealToOwnDevices library client.deliveryKeyContent
  return (.setDeliveryKey client.dk.key.bytes :: sent, targets)

/-- A new state key, if there is one, for the own devices. -/
def replaceStateKey : Act (List OutRequest × Option UInt32) := do
  let client ← get
  match client.stateKeys.current with
  | none => return ([], none)
  | some (_, current) =>
      let version := nextKeyVersion current
      let key ← drawKey library
      let share ← liftProto (StateKeys.toShare key version client.user)
      modify fun client => { client with stateKeys := client.stateKeys.replace key version }
      let sent ← sealToOwnDevices library ⟨some (.stateKey share)⟩
      return (sent, some version)

/-- Replace the keys that all own devices have. -/
def replaceOwnKeys : Act (RevocationOutcome × List String) := do
  let (delivery, targets) ← replaceDeliveryKey library
  let (state, version) ← replaceStateKey library
  return ({ requests := delivery ++ state, stateKeyVersion := version }, targets)

/-! ## What is tried, and put off if it fails -/

def rotateContainers (outcome : RevocationOutcome) : Act RevocationOutcome := do
  let planner ←
    match ← (containers.plannerRotateOnRevoke (← nowMs library.toOpening)).attempt with
    | .ok requests => pure requests
    | .error (.proto error) => do
        modify fun client => { client with lastError := some error }
        pure []
    | .error (.need _) => pure []
  let now ← nowMs library.toOpening
  let cloud ← modifyGet (containers.cloudRotateOnRevoke now)
  return { outcome with requests := outcome.requests ++ planner ++ cloud }

def shareWithPeer (outcome : RevocationOutcome) (peer : String) : Act RevocationOutcome := do
  match ← (shareDeliveryKey library peer).attempt with
  | .ok requests => return { outcome with requests := outcome.requests ++ requests }
  | .error _ => return { outcome with pendingKeyShares := outcome.pendingKeyShares ++ [peer] }

def rotateGroup (outcome : RevocationOutcome) (group : Bytes × Bool) : Act RevocationOutcome := do
  if !group.2 then
    return { outcome with epochsNeedAdmin := outcome.epochsNeedAdmin ++ [group.1] }
  else
    match ← (groupRotateEpoch library group.1).attempt with
    | .ok requests => return { outcome with requests := outcome.requests ++ requests }
    | .error _ => return { outcome with pendingEpochs := outcome.pendingEpochs ++ [group.1] }

/-- The keys that others have. -/
def replaceOtherKeys (outcome : RevocationOutcome) (targets : List String) :
    Act RevocationOutcome := do
  let outcome ← rotateContainers library containers outcome
  let outcome ← targets.foldlM (shareWithPeer library) outcome
  (← get).ownGroups.foldlM (rotateGroup library) outcome

/-! ## The whole -/

/-- What follows from the revocation of an own device. -/
def onOwnDeviceRevoked (device : String) : Act RevocationOutcome := do
  let client ← get
  liftProto (require (client.ownLog.revoked.contains device) .notFound)
  if client.revocationsDone.contains device then return {}
  else
    checkPeer client client.user
    modify (forgetRevokedDevice device)
    let (outcome, targets) ← replaceOwnKeys library
    let outcome ← replaceOtherKeys library containers outcome targets
    let client ← modifyGet fun client =>
      (client, { client with revocationsDone := client.revocationsDone.insert device })
    return { outcome with sskRotationRequired := client.ownLog.sskExposed }

/-- Revoke another one of the own devices. -/
def revokeDevice (device : String) : Act RevocationOutcome := do
  ownSessionsReady (← get) device
  let request ← revokeDeviceRequest library device
  let outcome ← onOwnDeviceRevoked library containers device
  return { outcome with requests := request :: outcome.requests }

/-- A device that left of itself was stolen: revoke it after all. -/
def reportDeviceStolen (device : String) : Act RevocationOutcome := do
  let client ← get
  liftProto (require (client.ownLog.leftHolders.contains device) .notFound)
  ownSessionsReady client device
  let request ← revokeDeviceRequest library device
  modify fun client => { client with revocationsDone := client.revocationsDone.erase device }
  let outcome ← onOwnDeviceRevoked library containers device
  let client ← get
  return { outcome with
    requests := request :: outcome.requests
    sskRotationRequired := client.ownLog.sskExposed }

end

/-! ## When the new keys can be given on -/

/-- The own devices that stay when one of them is revoked. -/
def remaining (client : Client) (device : String) : List String :=
  client.otherDevices.filter fun other => other != device

/-- The entry that revokes a device is signed, and accepted by the own log. -/
def Revokes (library : SendingLibrary) (client : Client) (device : String) : Prop :=
  device ≠ client.deviceId ∧ ∃ ssk ∈ client.ssk, ∃ op log,
    (exec (signDeviceLogEntry library (keySigner library ssk) (revocationEntry client device))
      client).1 = .ok op ∧
    (DeviceLog.apply library.toIdentity op).exec client.ownLog = (.ok (), log)

/-- What this device signs to revoke another one can be read back. -/
def ReadsBack (library : SendingLibrary) (client : Client) (device : String) : Prop :=
  ∀ ssk ∈ client.ssk, ∀ op,
    (exec (signDeviceLogEntry library (keySigner library ssk) (revocationEntry client device))
      client).1 = .ok op ->
    peekLogEntry library.toOpening op = some (revocationEntry client device)

/-- The keys that replace those of a revoked device can be given to the other devices. -/
structure KeysReach (encrypts : OlmSession -> Bool) (usable : Hash -> Bool) (client : Client)
    (device : String) : Prop where
  upToDate : ∀ claimed, (client.logBehind[client.user]? : Option Nat) = some claimed ->
    claimed ≤ client.ownLog.version + 1
  devices : remaining client device = [] ∨ client.myCert.isSome = true ∧
    ∀ other ∈ remaining client device,
      CanSealTo encrypts usable client client.ownLog ⟨client.user, other⟩
  address : client.stateKeys.current.isSome = true -> isValidAddress client.user = true

section

variable {library : SendingLibrary} {encrypts : OlmSession -> Bool} {usable : Hash -> Bool}

section

variable (reliable : Reliable library encrypts usable)

include reliable

theorem settles_replaceDeliveryKey
    (client : Client) :
    Settles (replaceDeliveryKey library) client
      (client.otherDevices = [] ∨ checkPeer client client.user = .ok () ∧
        CanSeal encrypts usable client client.user client.otherDevices)
      fun _ later => Alike encrypts client later ∧ later.stateKeys = client.stateKeys := by
  unfold replaceDeliveryKey drawKey nextReading
  simp only [bind_assoc, pure_bind]
  refine settles_modifyGet_bind (settles_modifyGet_bind (settles_get_bind ?_))
  refine Settles.mono (settles_bind (settles_sealToOwnDevices reliable _ _)
    fun _ _ later seals => settles_pure ?ended) ?passes fun _ _ _ => id
  case ended =>
    obtain ⟨count, seals⟩ := seals
    refine ⟨Alike.trans ?_ seals.alike, ?_⟩
    · exact ⟨rfl, rfl, rfl, rfl, rfl, rfl, rfl, rfl, fun _ => rfl⟩
    · rw [seals.same]
  case passes => exact (and_true _).symm.to_iff

theorem settles_replaceStateKey
    (client : Client) :
    Settles (replaceStateKey library) client
      (client.stateKeys.current.isSome = true -> isValidAddress client.user = true ∧
        (client.otherDevices = [] ∨ checkPeer client client.user = .ok () ∧
          CanSeal encrypts usable client client.user client.otherDevices))
      fun _ _ => True := by
  unfold replaceStateKey
  refine settles_get_bind ?_
  cases client.stateKeys.current with
  | none => exact (settles_pure trivial).mono (by simp) fun _ _ _ => id
  | some current =>
      unfold drawKey nextReading
      simp only [bind_assoc, pure_bind]
      refine settles_modifyGet_bind ?_
      have valid (key : Hash) (version : UInt32) : isValidAddress client.user = true ↔
          ∃ share, liftProto (StateKeys.toShare key version client.user) = .ok share := by
        rw [liftProto_isOk, StateKeys.toShare]
        cases isValidAddress client.user <;> simp [require, bind, Except.bind, pure, Except.pure]
      refine Settles.mono (settles_check (valid _ _) fun share _ => settles_modify_bind
        (settles_bind (settles_sealToOwnDevices reliable _ _) fun _ _ later _ =>
          settles_pure trivial)) ?_ fun _ _ _ => id
      constructor
      · intro given
        exact ⟨(given rfl).1, (given rfl).2, trivial⟩
      · rintro ⟨address, sent, -⟩ -
        exact ⟨address, sent⟩

/-- All keys are replaced if the address is good and the other devices can be reached. -/
theorem settles_replaceOwnKeys
    {client : Client}
    (ready : checkPeer client client.user = .ok ()) :
    Settles (replaceOwnKeys library) client
      ((client.otherDevices = [] ∨
          CanSeal encrypts usable client client.user client.otherDevices) ∧
        (client.stateKeys.current.isSome = true -> isValidAddress client.user = true))
      fun _ _ => True := by
  unfold replaceOwnKeys
  have second (middle : Client)
      (replaced : Alike encrypts client middle ∧ middle.stateKeys = client.stateKeys) :
      Settles (replaceStateKey library) middle
        (client.stateKeys.current.isSome = true -> isValidAddress client.user = true ∧
          (client.otherDevices = [] ∨
            CanSeal encrypts usable client client.user client.otherDevices))
        fun _ _ => True := by
    obtain ⟨alike, stateKeys⟩ := replaced
    refine (settles_replaceStateKey reliable middle).mono ?_ fun _ _ _ => id
    rw [stateKeys, alike.user, alike.otherDevices, alike.checkPeer, alike.canSeal, ready]
    simp
  refine Settles.mono (settles_bind (settles_replaceDeliveryKey reliable client)
    fun _ delivery middle replaced => settles_bind (second middle replaced)
      fun _ state later _ => settles_pure trivial) ?_ fun _ _ _ => id
  rw [ready]
  constructor
  · rintro ⟨sent, address⟩
    exact ⟨sent.imp_right fun seals => ⟨rfl, seals⟩, fun some => ⟨address some, sent⟩, trivial⟩
  · rintro ⟨sent, address, -⟩
    exact ⟨sent.imp_right And.right, fun some => (address some).1⟩

end

theorem total_nowMs (library : Library) : Total (nowMs library) :=
  total_bind (total_modifyGet _) fun _ => total_pure _

/-- What others are given is put off if it fails. -/
theorem total_replaceOtherKeys
    (library : SendingLibrary) (containers : Containers) (outcome : RevocationOutcome)
    (targets : List String) : Total (replaceOtherKeys library containers outcome targets) := by
  have rotated : Total (rotateContainers library containers outcome) := by
    refine total_bind (total_nowMs _) fun now => total_bind (total_attempt _) fun result => ?_
    have rest (planner : List OutRequest) := total_bind (total_nowMs library.toOpening) fun now =>
      total_bind (total_modifyGet (containers.cloudRotateOnRevoke now)) fun cloud =>
        total_pure { outcome with requests := outcome.requests ++ planner ++ cloud }
    match result with
    | .ok requests => exact rest requests
    | .error (.proto error) => exact total_bind (total_modify _) fun _ => rest []
    | .error (.need _) => exact rest []
  have shared (outcome : RevocationOutcome) (peer : String) :
      Total (shareWithPeer library outcome peer) := by
    refine total_bind (total_attempt _) fun result => ?_
    cases result <;> exact total_pure _
  have grouped (outcome : RevocationOutcome) (group : Bytes × Bool) :
      Total (rotateGroup library outcome group) := by
    unfold rotateGroup
    split
    · exact total_pure _
    · refine total_bind (total_attempt _) fun result => ?_
      cases result <;> exact total_pure _
  exact total_bind rotated fun outcome => total_bind (total_foldlM shared targets outcome)
    fun outcome => total_bind total_get fun client => total_foldlM grouped _ outcome

end

/-! ## A failure after the entry -/

section

variable {library : SendingLibrary} {encrypts : OlmSession -> Bool} {usable : Hash -> Bool}
variable {containers : Containers} {client : Client} {device : String}

/-- The own log and its entries. -/
def ownPart (client : Client) : DeviceLog × List SignedOp :=
  (client.ownLog, client.ownEntries)

/-- A forgotten session is that with the device. -/
theorem sessions_forgetRevokedDevice {other : DeviceRef} (different : other ≠ ⟨client.user, device⟩) :
    ((forgetRevokedDevice device client).sessions[other]? : Option OlmSession) =
      client.sessions[other]? := by
  rw [forgetRevokedDevice]
  dsimp only
  rw [Std.ExtTreeMap.getElem?_erase, if_neg]
  exact fun same => different (compare_eq_iff_eq.1 same).symm

/-- The user can send to the own devices if the own log is up to date and there is a session
with each of them. -/
theorem checkPeer_own_iff (client : Client) :
    checkPeer client client.user = .ok () ↔
      (∀ claimed, (client.logBehind[client.user]? : Option Nat) = some claimed ->
        claimed ≤ client.ownLog.version) ∧
      ∀ other ∈ client.ownLog.devices, other ≠ client.deviceId ->
        client.sessions.contains ⟨client.user, other⟩ = true := by
  have known : client.peerLog client.user = some client.ownLog := if_pos rfl
  have version : client.logVersion client.user = client.ownLog.version := if_pos rfl
  have sessions : (client.ownLog.devices.keys.all fun device =>
      (client.user == client.user && device == client.deviceId) ||
        client.sessions.contains ⟨client.user, device⟩) = true ↔
      ∀ other ∈ client.ownLog.devices, other ≠ client.deviceId ->
        client.sessions.contains ⟨client.user, other⟩ = true := by
    simp [List.all_eq_true, or_iff_not_imp_left]
  rw [← sessions, checkPeer, known, version]
  cases (client.logBehind[client.user]? : Option Nat) with
  | none => simp [fetched, bind, Except.bind, or_iff_not_imp_left]
  | some claimed =>
      by_cases upToDate : claimed ≤ client.ownLog.version
      · simp [fetched, demand, upToDate, bind, Except.bind, or_iff_not_imp_left]
      · simp [demand, upToDate, bind, Except.bind]

/-- Nothing that the other devices need is forgotten. -/
theorem checkPeer_forgetRevokedDevice (gone : device ∉ client.ownLog.devices) :
    checkPeer (forgetRevokedDevice device client) client.user = .ok () ↔
      checkPeer client client.user = .ok () := by
  have own := checkPeer_own_iff (forgetRevokedDevice device client)
  refine own.trans (Iff.trans (and_congr_right fun _ => ?_) (checkPeer_own_iff client).symm)
  refine forall₂_congr fun other member => imp_congr_right fun _ => ?_
  have different : (⟨client.user, other⟩ : DeviceRef) ≠ ⟨client.user, device⟩ := by
    rintro ⟨⟩
    exact gone member
  rw [Std.ExtTreeMap.contains_eq_isSome_getElem?, Std.ExtTreeMap.contains_eq_isSome_getElem?]
  exact iff_of_eq (congrArg (fun session => Option.isSome session = true)
    (sessions_forgetRevokedDevice different))

theorem canSeal_forgetRevokedDevice (gone : device ∉ client.ownLog.devices) :
    CanSeal encrypts usable (forgetRevokedDevice device client) client.user
        client.otherDevices ↔
      CanSeal encrypts usable client client.user client.otherDevices := by
  unfold CanSeal
  refine exists_congr fun log => and_congr_right fun _ => and_congr_right fun _ => ?_
  refine forall₂_congr fun other member => ?_
  have different : (⟨client.user, other⟩ : DeviceRef) ≠ ⟨client.user, device⟩ := by
    rintro ⟨⟩
    exact gone (Std.ExtTreeMap.mem_keys.1 (List.mem_of_mem_filter member))
  rw [CanSealTo, CanSealTo, sessions_forgetRevokedDevice different]

theorem settles_onOwnDeviceRevoked
    (reliable : Reliable library encrypts usable)
    (revoked : client.ownLog.revoked.contains device = true)
    (gone : device ∉ client.ownLog.devices) :
    Settles (onOwnDeviceRevoked library containers device) client
      (client.revocationsDone.contains device = true ∨ checkPeer client client.user = .ok () ∧
        (client.otherDevices = [] ∨
          CanSeal encrypts usable client client.user client.otherDevices) ∧
        (client.stateKeys.current.isSome = true -> isValidAddress client.user = true))
      fun _ _ => True := by
  unfold onOwnDeviceRevoked
  refine settles_get_bind
    (settles_check_ok (by rw [revoked]; rfl : liftProto (require _ .notFound) = .ok ()) ?_)
  split
  · next done => exact (settles_pure trivial).mono (by simp [done]) fun _ _ _ => id
  · next notDone =>
      have ready (checked : checkPeer client client.user = .ok ()) :
          checkPeer (forgetRevokedDevice device client) client.user = .ok () :=
        (checkPeer_forgetRevokedDevice gone).2 checked
      have rest (replaced : RevocationOutcome × List String) : Total (do
          let outcome ← replaceOtherKeys library containers replaced.1 replaced.2
          let client ← modifyGet fun client =>
            (client, { client with revocationsDone := client.revocationsDone.insert device })
          return { outcome with sskRotationRequired := client.ownLog.sskExposed } :
            Act RevocationOutcome) :=
        total_bind (total_replaceOtherKeys library containers _ _) fun _ =>
          total_bind (total_modifyGet _) fun _ => total_pure _
      refine Settles.mono (settles_check (checkPeer_cases client client.user).symm
        fun _ checked => settles_modify_bind (settles_bind_total
          (settles_replaceOwnKeys reliable (ready checked)) rest)) ?_ fun _ _ _ => id
      have sent : CanSeal encrypts usable (forgetRevokedDevice device client) client.user
          client.otherDevices ↔ CanSeal encrypts usable client client.user client.otherDevices :=
        canSeal_forgetRevokedDevice gone
      constructor
      · rintro (done | ⟨checked, devices, address⟩)
        · exact absurd done notDone
        · exact ⟨checked, devices.imp_right sent.2, address⟩
      · rintro ⟨checked, devices, address⟩
        exact .inr ⟨checked, devices.imp_right sent.1, address⟩

/-- The entry that is read is the one that was signed. -/
theorem change_of_peek
    {op : SignedOp} {inner : UserDeviceLogEntry} {change : Identity.Change} {log : DeviceLog}
    {entry : DeviceLog.Entry} (peek : peekLogEntry library.toOpening op = some inner)
    (isChange : inner.change = some change)
    (read : log.readEntry library.toIdentity op = .ok entry) : entry.change = change := by
  simp only [DeviceLog.readEntry, bind_eq_ok, present_eq_ok, pure, Except.pure,
    Except.ok.injEq] at read
  obtain ⟨hint, -, verified, verifiedEq, found, decoded, _, -, _, -, _, -, _, -, shown, shownEq,
    rfl⟩ := read
  obtain ⟨body, bodyEq, payload⟩ := verifyOp_payload verifiedEq
  rw [payload] at decoded
  have peeked : peekLogEntry library.toOpening op = some found := by
    unfold peekLogEntry
    rw [bodyEq]
    exact congrArg Except.toOption decoded
  cases peek.symm.trans peeked
  exact Option.some.inj (shownEq.symm.trans isChange)

theorem exec_applyOwnEntry_ok {library : Library}
    (client : Client)
    {op : SignedOp} {log : DeviceLog}
    (accepted : (DeviceLog.apply library.toIdentity op).exec client.ownLog = (.ok (), log)) :
    exec (applyOwnEntry library op) client =
      (.ok (), { client with ownLog := log, ownEntries := client.ownEntries ++ [op] }) := by
  rw [applyOwnEntry, exec_modifyGet_bind, accepted]
  rfl

theorem exec_applyOwnEntry_error {library : Library}
    (client : Client)
    {op : SignedOp} {log : DeviceLog} {error : ProtoError}
    (refused : (DeviceLog.apply library.toIdentity op).exec client.ownLog = (.error error, log)) :
    exec (applyOwnEntry library op) client =
      (.error (.proto error), { client with ownLog := log }) := by
  rw [applyOwnEntry, exec_modifyGet_bind, refused]
  rfl

/-- The state after the entry that revokes a device was applied. -/
structure Revoked (client : Client) (device : String) (op : SignedOp) (later : Client) : Prop where
  same : later = { client with
    ownLog := later.ownLog
    ownEntries := client.ownEntries ++ [op]
    readings := client.readings + 2 }
  version : later.ownLog.version = client.ownLog.version + 1
  devices : later.ownLog.devices = client.ownLog.devices.erase device
  revoked : later.ownLog.revoked = client.ownLog.revoked.insert device

/-- The entry is applied, or nothing happens. -/
theorem revokeDeviceRequest_cases (readsBack : ReadsBack library client device) :
    (Revokes library client device ∧ ∃ op later,
      exec (revokeDeviceRequest library device) client = (.ok (.logAppend op), later) ∧
        Revoked client device op later) ∨
    (¬ Revokes library client device ∧ ∃ error later,
      exec (revokeDeviceRequest library device) client = (.error error, later) ∧
        ownPart later = ownPart client) := by
  unfold revokeDeviceRequest
  rw [exec_get_bind]
  by_cases isOwn : device = client.deviceId
  · right
    refine ⟨fun revokes => revokes.1 isOwn, .proto .forbidden, client, ?_, rfl⟩
    subst isOwn
    simp [require, liftProto]
  · have notOwn : require (device != client.deviceId) .forbidden = .ok () := by
      simp [require, isOwn]
    rw [exec_bind, exec_liftM, notOwn]
    dsimp only [liftProto]
    cases hasSsk : client.ssk with
    | none =>
        right
        refine ⟨?_, .proto .forbidden, client, rfl, rfl⟩
        rintro ⟨-, ssk, held, -⟩
        cases hasSsk.symm.trans held
    | some ssk =>
        obtain ⟨signed, ran⟩ : ∃ signed,
            exec (signDeviceLogEntry library (keySigner library ssk)
              (revocationEntry client device)) client =
            (signed, { client with readings := client.readings + 2 }) := ⟨_, rfl⟩
        rw [exec_bind, exec_liftM]
        dsimp only [present, liftProto]
        rw [exec_bind, ran]
        cases signed with
        | error error =>
            right
            refine ⟨?_, error, _, rfl, rfl⟩
            rintro ⟨-, other, held, op, log, made, -⟩
            cases hasSsk.symm.trans held
            rw [ran] at made
            cases made
        | ok op =>
            have reads := readsBack ssk hasSsk op (congrArg Prod.fst ran)
            have change (entry : DeviceLog.Entry)
                (read : client.ownLog.readEntry library.toIdentity op = .ok entry) :
                entry.change = .revokeDeviceId device :=
              change_of_peek reads rfl read
            have atomic := DeviceLog.applyRevocation_atomic change
            let middle : Client := { client with readings := client.readings + 2 }
            dsimp only
            obtain ⟨error, refused⟩ | ⟨_, log, accepted, left, step⟩ := atomic.cases
            · have failed := exec_applyOwnEntry_error middle refused
              rw [exec_bind, failed]
              refine .inr ⟨?_, _, _, rfl, rfl⟩
              rintro ⟨-, other, held, made, log, madeEq, applied⟩
              cases hasSsk.symm.trans held
              rw [ran] at madeEq
              cases madeEq
              cases refused.symm.trans applied
            · have done := exec_applyOwnEntry_ok middle accepted
              rw [exec_bind, done]
              refine .inl ⟨⟨isOwn, ssk, hasSsk, op, log, congrArg Prod.fst ran, accepted⟩, op, _,
                rfl, ?_⟩
              cases step
              exact ⟨rfl, rfl, rfl, rfl⟩

namespace Revoked

variable {op : SignedOp} {later : Client}

section

variable (revoked : Revoked client device op later)

include revoked

/-- That the revocation was handled is forgotten. -/
theorem undone (done : Std.ExtTreeSet String) :
    Revoked { client with revocationsDone := done } device op
      { later with revocationsDone := done } where
  same := by rw [revoked.same]
  version := revoked.version
  devices := revoked.devices
  revoked := revoked.revoked

theorem gone : device ∉ later.ownLog.devices := by
  rw [revoked.devices]
  simp

theorem contains : later.ownLog.revoked.contains device = true := by
  rw [revoked.revoked, Std.ExtTreeSet.contains_insert_self]

theorem mem_devices (other : String) :
    other ∈ later.ownLog.devices ↔ other ∈ client.ownLog.devices ∧ other ≠ device := by
  rw [revoked.devices, Std.ExtTreeMap.mem_erase, and_comm, Ne, Ne, compare_eq_iff_eq, eq_comm]

theorem mem_otherDevices (other : String) :
    other ∈ later.otherDevices ↔ other ∈ remaining client device := by
  have me : later.deviceId = client.deviceId := by rw [revoked.same]
  simp only [remaining, Client.otherDevices, List.mem_filter, Std.ExtTreeMap.mem_keys,
    revoked.mem_devices other, me, bne_iff_ne]
  tauto

/-- The others are active as before. -/
theorem active {other : String}
    (different : other ≠ device) : later.ownLog.active other = client.ownLog.active other := by
  have apart : ¬ compare device other = .eq := fun same => different (compare_eq_iff_eq.1 same).symm
  rw [DeviceLog.active, DeviceLog.active, revoked.revoked, revoked.devices,
    Std.ExtTreeSet.contains_insert, Std.ExtTreeMap.getElem?_erase, if_neg apart]
  simp [apart]

theorem checkPeer_iff
    (ready : ownSessionsReady client device = .ok ()) :
    checkPeer later later.user = .ok () ↔
      ∀ claimed, (client.logBehind[client.user]? : Option Nat) = some claimed ->
        claimed ≤ client.ownLog.version + 1 := by
  have sessions : later.sessions = client.sessions := by rw [revoked.same]
  have user : later.user = client.user := by rw [revoked.same]
  have me : later.deviceId = client.deviceId := by rw [revoked.same]
  have behind : later.logBehind = client.logBehind := by rw [revoked.same]
  rw [checkPeer_own_iff, revoked.version, sessions, user, me, behind]
  refine and_iff_left ?_
  intro other member notMe
  obtain ⟨listed, different⟩ := (revoked.mem_devices other).1 member
  simp only [ownSessionsReady, demand_eq_ok, List.all_eq_true, Std.ExtTreeMap.mem_keys] at ready
  simpa [notMe, different] using ready other listed

theorem canSeal_iff :
    (later.otherDevices = [] ∨ CanSeal encrypts usable later later.user later.otherDevices) ↔
      remaining client device = [] ∨ client.myCert.isSome = true ∧
        ∀ other ∈ remaining client device,
          CanSealTo encrypts usable client client.ownLog ⟨client.user, other⟩ := by
  have user : later.user = client.user := by rw [revoked.same]
  have cert : later.myCert = client.myCert := by rw [revoked.same]
  have sessions : later.sessions = client.sessions := by rw [revoked.same]
  have known : later.peerLog client.user = some later.ownLog := if_pos user.symm
  have none : later.otherDevices = [] ↔ remaining client device = [] := by
    simp only [List.eq_nil_iff_forall_not_mem, revoked.mem_otherDevices]
  have each (other : String) (member : other ∈ remaining client device) :
      CanSealTo encrypts usable later later.ownLog ⟨client.user, other⟩ ↔
        CanSealTo encrypts usable client client.ownLog ⟨client.user, other⟩ := by
    have different : other ≠ device := by simpa using (List.mem_filter.1 member).2
    rw [CanSealTo, CanSealTo, sessions, revoked.active different]
  rw [none, user, CanSeal, known, cert]
  simp only [Option.some.injEq, exists_eq_left', revoked.mem_otherDevices]
  exact or_congr_right (and_congr_right fun _ => forall₂_congr each)

/-- What follows the entry succeeds if the new keys reach the devices that stay. -/
theorem settles
    (reliable : Reliable library encrypts usable)
    (ready : ownSessionsReady client device = .ok ()) :
    Settles (onOwnDeviceRevoked library containers device) later
      (client.revocationsDone.contains device = true ∨ KeysReach encrypts usable client device)
      fun _ _ => True := by
  have done : later.revocationsDone = client.revocationsDone := by rw [revoked.same]
  have stateKeys : later.stateKeys = client.stateKeys := by rw [revoked.same]
  have user : later.user = client.user := by rw [revoked.same]
  refine (settles_onOwnDeviceRevoked reliable revoked.contains revoked.gone).mono ?_
    fun _ _ _ => id
  rw [revoked.checkPeer_iff ready, revoked.canSeal_iff, done, stateKeys, user]
  refine or_congr_right ⟨fun reach => ⟨reach.upToDate, reach.devices, reach.address⟩, ?_⟩
  rintro ⟨upToDate, devices, address⟩
  exact ⟨upToDate, devices, address⟩

end

end Revoked

/-! ## What a failure leaves of the own log -/

theorem unsent_ownPart : Unsent ownPart :=
  fun _ _ _ _ _ _ _ => rfl

theorem keeps_replaceOwnKeys (library : SendingLibrary) :
    Keeps ownPart (replaceOwnKeys library) := by
  have fresh : Keeps ownPart (drawKey library) :=
    keeps_bind unsent_ownPart.sealFree.keeps_nextReading fun _ => keeps_pure _
  have delivery : Keeps ownPart (replaceDeliveryKey library) :=
    keeps_bind fresh fun _ => keeps_bind (keeps_modifyGet fun _ => rfl) fun _ =>
      keeps_bind keeps_get fun _ => keeps_bind (unsent_ownPart.sealFree.keeps_sealToOwnDevices _) fun _ =>
      keeps_pure _
  have state : Keeps ownPart (replaceStateKey library) := by
    refine keeps_bind keeps_get fun client => ?_
    split
    · exact keeps_pure _
    · exact keeps_bind fresh fun _ => keeps_bind (keeps_liftM _) fun _ =>
        keeps_bind (keeps_modify fun _ => rfl) fun _ =>
        keeps_bind (unsent_ownPart.sealFree.keeps_sealToOwnDevices _) fun _ => keeps_pure _
  exact keeps_bind delivery fun _ => keeps_bind state fun _ => keeps_pure _

/-- What can fail after the entry does not touch the own log. -/
theorem reverts_onOwnDeviceRevoked
    (library : SendingLibrary) (containers : Containers) (device : String) :
    Reverts ownPart (onOwnDeviceRevoked library containers device) := by
  refine keeps_get.reverts_bind fun client => (keeps_liftM _).reverts_bind fun _ => ?_
  split
  · exact (keeps_pure _).reverts
  · refine (keeps_liftM _).reverts_bind fun _ =>
      Keeps.reverts_bind (fun _ => rfl) fun _ => ?_
    refine (keeps_replaceOwnKeys library).reverts.bind_total fun replaced => ?_
    exact total_bind (total_replaceOtherKeys library containers _ _) fun _ =>
      total_bind (total_modifyGet _) fun _ => total_pure _

/-- The own log is as before after every failure if what follows the entry cannot fail. -/
theorem unchanged_revokeDeviceRequest_iff
    {next : OutRequest -> Act RevocationOutcome} {passes : Prop}
    (readsBack : ReadsBack library client device)
    (stays : ∀ request, Reverts ownPart (next request))
    (settles : ∀ op later, Revoked client device op later ->
      Settles (next (.logAppend op)) later passes fun _ _ => True) :
    (∀ error later,
      exec (revokeDeviceRequest library device >>= next) client = (.error error, later) ->
        ownPart later = ownPart client) ↔
      (Revokes library client device -> passes) := by
  obtain ⟨revokes, op, later, ran, revoked⟩ | ⟨refuses, error, later, ran, same⟩ :=
    revokeDeviceRequest_cases readsBack
  · rw [unchanged_iff_of_commit ?refused ?commits stays, ran]
    case refused => rw [ran]; rintro _ _ ⟨⟩
    case commits =>
      rw [ran]
      rintro _ _ ⟨⟩ same
      have entries := congrArg (fun part => part.2.length) same
      rw [ownPart, ownPart, revoked.same] at entries
      simp at entries
    constructor
    · intro succeeds _
      exact (settles op later revoked).succeeds_iff.1 (succeeds _ _ rfl)
    · rintro passes _ _ ⟨⟩
      exact (settles op later revoked).succeeds_iff.2 (passes revokes)
  · refine iff_of_true ?_ fun revokes => absurd revokes refuses
    intro _ _ failed
    rw [exec_bind, ran] at failed
    cases failed
    exact same

/-- A failure changes the own log exactly if the entry is written and the new keys do not
reach the devices that stay. -/
theorem failed_revocation_keeps_log_iff
    (containers : Containers)
    (reliable : Reliable library encrypts usable)
    (readsBack : ReadsBack library client device) :
    ((∀ error later, exec (revokeDevice library containers device) client = (.error error, later) ->
        ownPart later = ownPart client) ↔
      (ownSessionsReady client device = .ok () -> Revokes library client device ->
        client.revocationsDone.contains device = true ∨
          KeysReach encrypts usable client device)) ∧
    ((∀ error later,
        exec (reportDeviceStolen library containers device) client = (.error error, later) ->
          ownPart later = ownPart client) ↔
      (client.ownLog.leftHolders.contains device = true ->
        ownSessionsReady client device = .ok () -> Revokes library client device ->
          KeysReach encrypts usable client device)) := by
  have stays := reverts_onOwnDeviceRevoked library containers device
  constructor
  · unfold revokeDevice
    rw [exec_get_bind, unchanged_check_iff]
    refine imp_congr_right fun ready => ?_
    refine unchanged_revokeDeviceRequest_iff readsBack
      (fun _ => stays.bind_total fun _ => total_pure _) fun op later revoked => ?_
    exact settles_bind_total (revoked.settles reliable ready) fun _ => total_pure _
  · unfold reportDeviceStolen
    rw [exec_get_bind, unchanged_check_iff]
    refine imp_congr (by simp [require]) ?_
    rw [unchanged_check_iff]
    refine imp_congr_right fun ready => ?_
    refine unchanged_revokeDeviceRequest_iff readsBack
      (fun _ => Keeps.reverts_bind (fun _ => rfl) fun _ =>
        stays.bind_total fun _ => total_bind total_get fun _ => total_pure _)
      fun op later revoked => settles_modify_bind ?_
    refine settles_bind_total (Settles.mono
      ((revoked.undone (later.revocationsDone.erase device)).settles reliable ready) ?_
      fun _ _ _ => id) fun _ => total_bind total_get fun _ => total_pure _
    constructor
    · intro reach
      exact .inr ⟨reach.upToDate, reach.devices, reach.address⟩
    · rintro (done | reach)
      · simp at done
      · exact ⟨reach.upToDate, reach.devices, reach.address⟩

end

/-! ## A sample -/

/-- Every entry that is read revokes the device "d" in the third version. -/
def revokingLibrary : SendingLibrary :=
  { plainLibrary with
    decodeOpBody := fun body => .ok
      { header := some
          { domain := deviceLogDomain, opType := deviceLogOp, opId := List.replicate 16 112
            target := none, audience := [], tsMs := 0 }
        payload := body }
    decodeDeviceLogEntry := fun payload => .ok
      { user := some ⟨"a@x.org"⟩, version := 3, prevHash := payload
        change := some (.revokeDeviceId "d"), rootKey := [], signOut := false, renamedFrom := "" } }

/-- There are no containers. -/
def noContainers : Containers := ⟨fun _ => pure [], fun _ client => ([], client)⟩

/-- The first user has two other devices, and a session with the second one.  Messages were
seen that refer to the given version of the own log. -/
def revokingClient (claimed : Nat) : Client :=
  { Client.fresh "a@x.org" "e" "x.org" [] zeroKey zeroKey zeroKey with
    ssk := some (sampleHashOf 1)
    ownLog :=
      { sampleLog 1 with
        devices := (sampleLog 1).devices.insert "f"
          ⟨{ sampleCert 1 with deviceId := "f" }, sampleHashOf 1, sampleHashOf 1⟩
        leftHolders := (∅ : Std.ExtTreeSet String).insert "d" }
    myCert := some (sampleSigned 1)
    sessions := (∅ : Std.ExtTreeMap DeviceRef OlmSession).insert ⟨"a@x.org", "f"⟩ []
    logBehind := (∅ : Std.ExtTreeMap String Nat).insert "a@x.org" claimed }

def revokingOp : SignedOp := ⟨zeroKey.bytes, List.replicate 64 0, sampleKey 1⟩

theorem reliable_revokingLibrary : Reliable revokingLibrary (fun _ => true) fun _ => true where
  opId _ := (by decide : isValidOpId (List.replicate 16 112) = true)
  encrypt session plain := iff_of_true ⟨_, rfl⟩ rfl
  again _ _ _ := rfl
  hpke _ _ _ plain := iff_of_true ⟨_, rfl⟩ rfl

theorem signed_revokingClient (claimed : Nat) :
    (exec (signDeviceLogEntry revokingLibrary (keySigner revokingLibrary (sampleHashOf 1))
      (revocationEntry (revokingClient claimed) "d")) (revokingClient claimed)).1 =
      .ok revokingOp := by
  have domain : isValidName deviceLogDomain = true := by decide +kernel
  have opType : isValidName deviceLogOp = true := by decide +kernel
  have signed (header : OpHeader) (sameDomain : header.domain = deviceLogDomain)
      (sameType : header.opType = deviceLogOp) :
      signOp revokingLibrary (keySigner revokingLibrary (sampleHashOf 1)) header plainHeader
        zeroKey.bytes = .ok revokingOp := by
    simp only [signOp, opSigningBytes, sameDomain, sameType, domain, opType]
    rfl
  exact congrArg liftProto (signed _ rfl rfl)

theorem readsBack_revokingClient (claimed : Nat) :
    ReadsBack revokingLibrary (revokingClient claimed) "d" := by
  rintro _ ⟨⟩ op made
  cases (signed_revokingClient claimed).symm.trans made
  rfl

/-- Both calls succeed if the own log is up to date. -/
theorem failed_revocation_keeps_log_sample :
    (∀ error later,
      exec (revokeDevice revokingLibrary noContainers "d") (revokingClient 2) =
        (.error error, later) -> ownPart later = ownPart (revokingClient 2)) ∧
    ∀ error later,
      exec (reportDeviceStolen revokingLibrary noContainers "d") (revokingClient 2) =
        (.error error, later) -> ownPart later = ownPart (revokingClient 2) := by
  have reach : KeysReach (fun _ => true) (fun _ => true) (revokingClient 2) "d" := by
    refine ⟨fun claimed found => ?_, .inr ⟨rfl, ?_⟩, fun _ => by decide +kernel⟩
    · have claims : ((revokingClient 2).logBehind[(revokingClient 2).user]? : Option Nat) =
          some 2 := by
        decide +kernel
      cases claims.symm.trans found
      decide
    · have others : remaining (revokingClient 2) "d" = ["f"] := by decide +kernel
      rw [others]
      intro other member known active
      cases List.mem_singleton.1 member
      have kept : (revokingClient 2).ownLog.active "f" =
          some ⟨{ sampleCert 1 with deviceId := "f" }, sampleHashOf 1, sampleHashOf 1⟩ := by
        decide +kernel
      cases kept.symm.trans active
      refine ⟨sampleHashOf 1, rfl, fun works found => ?_⟩
      obtain ⟨_, -, rfl⟩ := Option.map_eq_some_iff.1 found
      have address : checkDevice ⟨"a@x.org", "f"⟩ = .ok () := by decide +kernel
      exact ⟨rfl, address, rfl⟩
  have kept := failed_revocation_keeps_log_iff noContainers reliable_revokingLibrary
    (readsBack_revokingClient 2)
  exact ⟨kept.1.2 fun _ _ => .inr reach, kept.2.2 fun _ _ _ => reach⟩

/-- The user revokes a device while the own log is behind: the entry stays in the log, but it
is not sent. -/
theorem failed_revocation_forks_log :
    ¬ (∀ error later,
      exec (revokeDevice revokingLibrary noContainers "d") (revokingClient 4) =
        (.error error, later) -> ownPart later = ownPart (revokingClient 4)) ∧
    ¬ ∀ error later,
      exec (reportDeviceStolen revokingLibrary noContainers "d") (revokingClient 4) =
        (.error error, later) -> ownPart later = ownPart (revokingClient 4) := by
  have forks {action : Act RevocationOutcome}
      (failed : errorOf (exec action (revokingClient 4)).1 = some (.need (.peerLog "a@x.org" 3)))
      (written : (exec action (revokingClient 4)).2.ownEntries = [revokingOp]) :
      ¬ ∀ error later, exec action (revokingClient 4) = (.error error, later) ->
        ownPart later = ownPart (revokingClient 4) := by
    intro unchanged
    have same := unchanged _ _ (Prod.ext (eq_of_errorOf failed) rfl)
    have entries := written.symm.trans (congrArg Prod.snd same)
    cases entries
  exact ⟨forks (by decide +kernel) (by decide +kernel),
    forks (by decide +kernel) (by decide +kernel)⟩

end Parvane.Engine
