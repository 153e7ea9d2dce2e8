import Parvane.Engine.Sending
import Mathlib.Data.List.ReduceOption

/-!
# When sealing succeeds

Sealing for a device needs a certificate of the sender, a session in which the sender can
encrypt, and a key of the recipient that can be used.  It changes the sessions, but not
whether a session can be used.
-/

namespace Parvane.Engine

open Wire Sign Identity Parvane.Group Fallible

/-- What the libraries promise.  Whether a session can encrypt is a matter of the session,
and stays so while it encrypts; whether a key can be sealed to is a matter of the key. -/
structure Reliable
    (library : SendingLibrary) (encrypts : OlmSession -> Bool) (usable : Hash -> Bool) : Prop where
  opId : ∀ reading, isValidOpId (library.drawOpId reading) = true
  encrypt : ∀ session plain,
    (∃ message, (library.olmEncrypt session plain).1 = .ok message) ↔ encrypts session = true
  again : ∀ session plain, encrypts session = true ->
    encrypts (library.olmEncrypt session plain).2 = true
  hpke : ∀ reading key info plain,
    (∃ text, library.hpkeSeal reading key info plain = .ok text) ↔ usable key = true

section

variable {library : SendingLibrary} {encrypts : OlmSession -> Bool} {usable : Hash -> Bool}

/-! ## What sealing changes -/

/-- The sessions are with the same devices, and as good. -/
def SameSessions (encrypts : OlmSession -> Bool) (client later : Client) : Prop :=
  ∀ device : DeviceRef, (later.sessions[device]? : Option OlmSession).map encrypts =
    (client.sessions[device]? : Option OlmSession).map encrypts

/-- Some envelopes were sealed: sessions moved on, and the random source was read. -/
structure Seals (encrypts : OlmSession -> Bool) (client : Client) (count : Nat) (later : Client) :
    Prop where
  same : later = { client with sessions := later.sessions, readings := client.readings + count }
  sessions : SameSessions encrypts client later

namespace Seals

variable {client middle later : Client} {count more : Nat}

theorem refl (client : Client) : Seals encrypts client 0 client :=
  ⟨rfl, fun _ => rfl⟩

theorem trans
    (first : Seals encrypts client count middle)
    (second : Seals encrypts middle more later) : Seals encrypts client (count + more) later := by
  refine ⟨?_, fun device => (second.sessions device).trans (first.sessions device)⟩
  have same := second.same
  rw [first.same] at same
  rw [same, Nat.add_assoc]

theorem reading (client : Client) (count : Nat) :
    Seals encrypts client count { client with readings := client.readings + count } :=
  ⟨rfl, fun _ => rfl⟩

theorem session {device : DeviceRef} {current used : OlmSession}
    (found : (client.sessions[device]? : Option OlmSession) = some current)
    (again : encrypts used = encrypts current) :
    Seals encrypts client 0
      { client with sessions := client.sessions.insert device used } := by
  refine ⟨rfl, fun other => ?_⟩
  dsimp only
  rw [Std.ExtTreeMap.getElem?_insert]
  split
  · next same =>
      rw [← compare_eq_iff_eq.1 same, found, Option.map_some, Option.map_some, again]
  · rfl

end Seals

/-! ## Sealing for one device -/

/-- The key of a device can be sealed to, and the session with it can encrypt. -/
def CanSealTo (encrypts : OlmSession -> Bool) (usable : Hash -> Bool) (client : Client)
    (log : DeviceLog) (device : DeviceRef) : Prop :=
  ∀ known, log.active device.deviceId = some known ->
    ∃ key, key32 known.cert.hpkeX25519 = .ok key ∧
      ∀ works, (client.sessions[device]? : Option OlmSession).map encrypts = some works ->
        works = true ∧ checkDevice device = .ok () ∧ usable key = true

/-- The device is active, and there is a session with it. -/
def isReachable (client : Client) (log : DeviceLog) (device : DeviceRef) : Bool :=
  (log.active device.deviceId).isSome && client.sessions.contains device

/-- The envelope holds a content for a device. -/
def Carries (library : SendingLibrary) (content : Content) (recipient : DeviceRef)
    (envelope : SealedEnvelope) : Prop :=
  envelope.recipient = some recipient ∧
    ∃ signer header msg op session inner used key info reading,
      signOp library signer header msg (library.encodeContent content) = .ok op ∧
      library.olmEncrypt session (library.encodeSignedOp op) =
        (.ok (inner.olmType, inner.olmMessage), used) ∧
      library.hpkeSeal reading key info (library.encodeSealedInner inner) =
        .ok (envelope.hpkeEnc, envelope.ciphertext)

theorem liftProto_isOk {result : Result α} :
    (∃ value, liftProto result = .ok value) ↔ ∃ value, result = .ok value := by
  simp

theorem sealedInfo_isOk {recipient : DeviceRef} :
    (∃ info, sealedInfo recipient = .ok info) ↔ checkDevice recipient = .ok () := by
  unfold sealedInfo
  cases checkDevice recipient <;> simp [bind, Except.bind, pure, Except.pure]

theorem settles_sealEnvelope
    (reliable : Reliable library encrypts usable) (recipient : DeviceRef) (key : Hash)
    (access : Access) (inner : SealedInner) (l2 : Bool) (client : Client) :
    Settles (sealEnvelope library recipient key access inner l2) client
      (checkDevice recipient = .ok () ∧ usable key = true) fun envelope later =>
        later = { client with readings := client.readings + 1 } ∧
        envelope.recipient = some recipient ∧
        ∃ padded : SealedInner, padded.olmMessage = inner.olmMessage ∧
          padded.olmType = inner.olmType ∧ ∃ reading info,
          library.hpkeSeal reading key info (library.encodeSealedInner padded) =
            .ok (envelope.hpkeEnc, envelope.ciphertext) := by
  unfold sealEnvelope
  dsimp only
  refine settles_check (liftProto_isOk.trans sealedInfo_isOk).symm fun info _ => ?_
  rw [nextReading]
  refine settles_modifyGet_bind ?_
  refine settles_check_last (liftProto_isOk.trans (reliable.hpke _ _ _ _)).symm fun text found => ?_
  refine settles_pure ⟨rfl, rfl, if l2 then padL2 library inner else inner, ?_, ?_, _, _,
    (liftProto_eq_ok _ _).1 found⟩
  · split <;> rfl
  · split <;> rfl

theorem settles_sealInner
    (reliable : Reliable library encrypts usable) (cert : SignedDeviceCertificate)
    (device : DeviceRef)
    {session : OlmSession} {client : Client}
    (found : (client.sessions[device]? : Option OlmSession) = some session)
    (op : SignedOp) :
    Settles (sealInner library cert device session op) client (encrypts session = true)
      fun inner later => Seals encrypts client 0 later ∧
        ∃ used, library.olmEncrypt session (library.encodeSignedOp op) =
          (.ok (inner.olmType, inner.olmMessage), used) := by
  unfold sealInner
  dsimp only
  refine settles_modify_bind ?_
  refine settles_check_last (liftProto_isOk.trans (reliable.encrypt _ _)).symm
    fun message encrypted => ?_
  have accepted := (liftProto_eq_ok _ _).1 encrypted
  have works := (reliable.encrypt _ _).1 ⟨message, accepted⟩
  refine settles_pure ⟨?_, _, Prod.ext accepted rfl⟩
  exact .session found ((reliable.again _ _ works).trans works.symm)

/-- Sealing for a device that is not active, or without a session, is skipped. -/
theorem settles_sealTo
    (reliable : Reliable library encrypts usable)
    {signer : Signer} {header : OpHeader} {msg : MsgHeader} {content : Content} {op : SignedOp}
    (signed : signOp library signer header msg (library.encodeContent content) = .ok op)
    (log : DeviceLog) (cert : SignedDeviceCertificate) (access : Access) (l2 : Bool)
    (device : DeviceRef) (client : Client) :
    Settles (sealTo library log cert op access l2 device) client
      (CanSealTo encrypts usable client log device) fun envelope later =>
        Seals encrypts client (isReachable client log device).toNat later ∧
        (isReachable client log device = true ->
          ∃ sent ∈ envelope, Carries library content device sent) := by
  unfold sealTo CanSealTo isReachable
  cases active : log.active device.deviceId with
  | none =>
      refine (settles_pure ?_).mono (by simp) fun _ _ _ => id
      exact ⟨.refl client, by simp⟩
  | some known =>
      dsimp only
      cases keyEq : key32 known.cert.hpkeX25519 with
      | error error =>
          exact (settles_check_error rfl).mono (by simp [keyEq]) fun _ _ _ => id
      | ok key =>
          refine settles_check_ok (rfl : liftProto (.ok key) = .ok key) (settles_get_bind ?_)
          cases found : (client.sessions[device]? : Option OlmSession) with
          | none =>
              have absent : client.sessions.contains device = false := by
                rwa [Std.ExtTreeMap.contains_eq_isSome_getElem?, Option.isSome_eq_false_iff,
                  Option.isNone_iff_eq_none]
              refine (settles_pure ⟨?_, ?_⟩).mono (by simp [keyEq]) fun _ _ _ => id
              · rw [absent]
                exact .refl client
              · simp [absent]
          | some session =>
              have there : client.sessions.contains device = true := by
                rw [Std.ExtTreeMap.contains_eq_isSome_getElem?, found]
                rfl
              rw [there]
              refine Settles.mono (settles_bind (settles_sealInner reliable cert device found op)
                fun _ inner middle sealed => settles_bind
                  (settles_sealEnvelope reliable device key access inner l2 middle)
                  fun _ envelope later last => settles_pure ?ended) ?passes fun _ _ _ => id
              case ended =>
                obtain ⟨rfl, recipient, padded, message, type, reading, info, text⟩ := last
                obtain ⟨sealed, used, encrypted⟩ := sealed
                rw [← message, ← type] at encrypted
                exact ⟨sealed.trans (.reading middle 1), fun _ => ⟨envelope, rfl, recipient, signer,
                  header, msg, op, session, padded, used, key, info, reading, signed, encrypted,
                  text⟩⟩
              case passes => simp [keyEq]

/-! ## Sealing for the devices of a user -/

theorem SameSessions.contains {client later : Client}
    (same : SameSessions encrypts client later) (device : DeviceRef) :
    later.sessions.contains device = client.sessions.contains device := by
  have shown := congrArg Option.isSome (same device)
  rwa [Option.isSome_map, Option.isSome_map, ← Std.ExtTreeMap.contains_eq_isSome_getElem?,
    ← Std.ExtTreeMap.contains_eq_isSome_getElem?] at shown

theorem SameSessions.canSealTo {client later : Client}
    (same : SameSessions encrypts client later) (log : DeviceLog) (device : DeviceRef) :
    CanSealTo encrypts usable later log device ↔ CanSealTo encrypts usable client log device := by
  rw [CanSealTo, CanSealTo, same device]

theorem SameSessions.isReachable {client later : Client}
    (same : SameSessions encrypts client later) (log : DeviceLog) (device : DeviceRef) :
    isReachable later log device = isReachable client log device := by
  rw [Engine.isReachable, Engine.isReachable, same.contains]

/-- This device has a certificate, and each of some devices of a user can be sealed to. -/
def CanSeal (encrypts : OlmSession -> Bool) (usable : Hash -> Bool) (client : Client)
    (user : String) (devices : List String) : Prop :=
  ∃ log, client.peerLog user = some log ∧ client.myCert.isSome = true ∧
    ∀ device ∈ devices, CanSealTo encrypts usable client log ⟨user, device⟩

/-- How many of some devices of a user get an envelope. -/
def reachCount (client : Client) (user : String) (devices : List String) : Nat :=
  ((client.peerLog user).map fun log =>
    (devices.map fun device => (isReachable client log ⟨user, device⟩).toNat).sum).getD 0

theorem exists_signOp
    (signer : Signer) (header : OpHeader) (domain : isValidName header.domain = true)
    (opType : isValidName header.opType = true) (msg : MsgHeader)
    (payload : Bytes) : ∃ op, signOp library signer header msg payload = .ok op := by
  simp only [signOp, opSigningBytes, domain, opType]
  exact ⟨_, rfl⟩

theorem exists_signDirectAt
    (library : SendingLibrary) (client : Client) (content : Content) (peer : String)
    (audience : List DeviceRef) (tsMs : Int64) {opId : Bytes} (valid : isValidOpId opId = true) :
    ∃ header msg op, signDirectAt library client content peer audience tsMs opId = .ok op ∧
      signOp library (accountSigner library client.acc) header msg
        (library.encodeContent content) = .ok op := by
  let header : OpHeader := ⟨msgDomain, contentOp, opId, none, audience, tsMs⟩
  have domain : isValidName msgDomain = true := by decide +kernel
  have opType : isValidName contentOp = true := by decide +kernel
  obtain ⟨op, signed⟩ := exists_signOp (accountSigner library client.acc) header domain
    opType ⟨some (.directPeer ⟨peer⟩), [], UInt64.ofNat client.ownLog.version⟩
    (library.encodeContent content)
  refine ⟨header, _, op, ?_, signed⟩
  rw [signDirectAt, valid]
  exact signed

theorem settles_sealForOpts
    (reliable : Reliable library encrypts usable) (user : String) (devices : List String)
    (chat : String) (content : Content) (access : Access) {opts : SealOpts}
    (valid : isValidOpId opts.opId = true) (client : Client) :
    Settles (sealForOpts library user devices chat content access opts) client
      (CanSeal encrypts usable client user devices) fun envelopes later =>
        Seals encrypts client (reachCount client user devices) later ∧
        ∀ log, client.peerLog user = some log -> ∀ device ∈ devices,
          isReachable client log ⟨user, device⟩ = true ->
            ∃ envelope ∈ envelopes, Carries library content ⟨user, device⟩ envelope := by
  unfold sealForOpts CanSeal reachCount
  refine settles_get_bind ?_
  cases knownLog : client.peerLog user with
  | none => exact (settles_check_error rfl).mono (by simp) fun _ _ _ => id
  | some log =>
      refine settles_check_ok (rfl : liftProto (.ok log) = .ok log) ?_
      cases hasCert : client.myCert with
      | none => exact (settles_check_error rfl).mono (by simp) fun _ _ _ => id
      | some cert =>
          refine settles_check_ok (rfl : liftProto (.ok cert) = .ok cert) ?_
          dsimp only
          obtain ⟨header, msg, op, made, signed⟩ := exists_signDirectAt library client content
            chat (devices.map fun device => (⟨user, device⟩ : DeviceRef)) opts.tsMs valid
          refine settles_check_ok ((liftProto_eq_ok _ _).2 made) ?_
          have each (device : DeviceRef) (count : Nat) (state : Client)
              (seals : Seals encrypts client count state) :
              Settles (sealTo library log cert op access opts.l2 device) state
                (CanSealTo encrypts usable client log device) fun envelope later =>
                  Seals encrypts client (count + (isReachable client log device).toNat) later ∧
                  (isReachable client log device = true ->
                    ∃ sent ∈ envelope, Carries library content device sent) := by
            have settles := settles_sealTo reliable signed log cert access opts.l2 device state
            rw [seals.sessions.isReachable] at settles
            exact settles.mono (seals.sessions.canSealTo log device).symm
              fun _ _ _ ended => ⟨seals.trans ended.1, ended.2⟩
          refine Settles.mono (settles_bind
            (settles_mapM (Seals encrypts client) _ _ _ each _ (.refl client))
            fun _ values later ended => settles_pure ?ended) ?passes fun _ _ _ => id
          case ended =>
            refine ⟨by simpa [Function.comp_def] using ended.1, ?_⟩
            rintro _ ⟨⟩ device member reachable
            obtain ⟨sent, inside, isGood⟩ := ended.2 _ (List.mem_map_of_mem member)
            obtain ⟨envelope, isSent, carries⟩ := isGood reachable
            exact ⟨envelope, List.reduceOption_mem_iff.2 (isSent ▸ inside), carries⟩
          case passes => simp

/-! ## Clients that can send alike -/

/-- All that decides what can be sent is the same, apart from tokens and shared keys. -/
structure Alike (encrypts : OlmSession -> Bool) (client later : Client) : Prop where
  user : later.user = client.user
  deviceId : later.deviceId = client.deviceId
  domain : later.domain = client.domain
  ownLog : later.ownLog = client.ownLog
  peers : later.peers = client.peers
  myCert : later.myCert = client.myCert
  hpkePk : later.hpkePk = client.hpkePk
  logBehind : later.logBehind = client.logBehind
  sessions : SameSessions encrypts client later

namespace Alike

variable {client middle later : Client}

theorem refl (client : Client) : Alike encrypts client client :=
  ⟨rfl, rfl, rfl, rfl, rfl, rfl, rfl, rfl, fun _ => rfl⟩

theorem trans (first : Alike encrypts client middle) (second : Alike encrypts middle later) :
    Alike encrypts client later where
  user := second.user.trans first.user
  deviceId := second.deviceId.trans first.deviceId
  domain := second.domain.trans first.domain
  ownLog := second.ownLog.trans first.ownLog
  peers := second.peers.trans first.peers
  myCert := second.myCert.trans first.myCert
  hpkePk := second.hpkePk.trans first.hpkePk
  logBehind := second.logBehind.trans first.logBehind
  sessions device := (second.sessions device).trans (first.sessions device)

section

variable (alike : Alike encrypts client later)

include alike

theorem peerLog (user : String) : later.peerLog user = client.peerLog user := by
  rw [Client.peerLog, Client.peerLog, alike.user, alike.ownLog, alike.peers]

theorem otherDevices : later.otherDevices = client.otherDevices := by
  rw [Client.otherDevices, Client.otherDevices, alike.ownLog, alike.deviceId]

theorem checkPeer (user : String) : checkPeer later user = checkPeer client user := by
  have version : later.logVersion user = client.logVersion user := by
    rw [Client.logVersion, Client.logVersion, alike.user, alike.ownLog, alike.peers]
  simp only [Engine.checkPeer, alike.logBehind, version, alike.user, alike.peers,
    alike.peerLog user, alike.deviceId, alike.sessions.contains]

theorem canSeal (user : String) (devices : List String) :
    CanSeal encrypts usable later user devices ↔ CanSeal encrypts usable client user devices := by
  simp only [CanSeal, alike.peerLog user, alike.myCert, alike.sessions.canSealTo]

theorem isReachable (log : DeviceLog) (device : DeviceRef) :
    isReachable later log device = isReachable client log device :=
  alike.sessions.isReachable log device

theorem reachCount (user : String)
    (devices : List String) : reachCount later user devices = reachCount client user devices := by
  simp only [Engine.reachCount, alike.peerLog user, alike.isReachable]

end

end Alike

theorem Seals.alike {client later : Client} {count : Nat}
    (seals : Seals encrypts client count later) : Alike encrypts client later := by
  have same := seals.same
  constructor
  all_goals first | exact seals.sessions | rw [same]

/-- A time and an identifier are drawn before the sealing. -/
theorem settles_sealFor
    (reliable : Reliable library encrypts usable) (user : String) (devices : List String)
    (chat : String) (content : Content) (access : Access) (client : Client) :
    Settles (sealFor library user devices chat content access) client
      (CanSeal encrypts usable client user devices) fun _ later =>
        ∃ count, Seals encrypts client count later := by
  unfold sealFor newOpId nowMs nextReading
  simp only [bind_assoc, pure_bind]
  refine settles_modifyGet_bind (settles_modifyGet_bind (settles_get_bind ?_))
  refine (settles_sealForOpts reliable user devices chat content access (reliable.opId _) _).mono
    Iff.rfl fun _ envelopes later ended => ?_
  exact ⟨_, (Seals.reading client 2).trans ended.1⟩

theorem checkPeer_cases (client : Client) (user : String) :
    (∃ value, checkPeer client user = .ok value) ↔ checkPeer client user = .ok () :=
  ⟨fun ⟨_, found⟩ => found, fun found => ⟨_, found⟩⟩

theorem settles_sealToOwnDevices
    (reliable : Reliable library encrypts usable) (content : Content) (client : Client) :
    Settles (sealToOwnDevices library content) client
      (client.otherDevices = [] ∨ checkPeer client client.user = .ok () ∧
        CanSeal encrypts usable client client.user client.otherDevices)
      fun _ later => ∃ count, Seals encrypts client count later := by
  unfold sealToOwnDevices
  refine settles_get_bind ?_
  dsimp only
  split
  · next none =>
      refine (settles_pure ⟨0, .refl client⟩).mono ?_ fun _ _ _ => id
      simp [List.isEmpty_iff.1 none]
  · next some =>
      refine Settles.mono (settles_check (checkPeer_cases client client.user).symm fun _ _ =>
        settles_bind (settles_sealFor reliable _ _ _ _ _ client) fun _ _ later seals =>
          settles_pure seals) ?_ fun _ _ _ => id
      simp [List.isEmpty_iff.not.1 some]

end

end Parvane.Engine
