import Parvane.Engine.DeviceLogs
import Parvane.Engine.Refusals

/-!
# A device that left loses the keys of the groups

Once a device of a user left the log, no group of the user may go on with a session that
was given to that device.  The reaction comes after the last entry.  Entries of another
user are applied to a copy of the log; those of the own log are not, so that a refused one
keeps the reaction from the devices that left before it.
-/

namespace Parvane.Engine

open Wire Sign Identity Parvane.Group Fallible

/-! ## Devices along a log -/

/-- A device that was revoked is not among the devices. -/
def Gone (device : String) (log : DeviceLog) : Prop :=
  device ∈ log.revoked -> log.devices[device]? = none

section

variable {library : Library} {device : String} {log : DeviceLog}

theorem Gone.step {next : DeviceLog} {event : DeviceLog.Event} {head : Hash}
    (step : DeviceLog.Step log head event next)
    (gone : Gone device log) : Gone device next := by
  intro isRevoked
  cases step with
  | genesis isEmpty root ssk former => exact gone isRevoked
  | rotate ssk => exact Std.ExtTreeMap.getElem?_empty
  | add added key keyEq notExposed notRevoked distinct grows =>
      have other : added.cert.deviceId ≠ device := by
        rintro rfl
        exact notRevoked isRevoked
      rw [Std.ExtTreeMap.getElem?_insert, if_neg (by simpa using other)]
      exact gone isRevoked
  | revoke other entry =>
      rw [Std.ExtTreeMap.getElem?_erase]
      split
      · rfl
      · rename_i different
        rcases Std.ExtTreeSet.mem_insert.1 isRevoked with same | known
        · exact absurd same different
        · exact gone known
  | rename address genesis op => exact Std.ExtTreeMap.getElem?_empty
  | legacy devices notExposed shrinks => exact gone isRevoked

theorem Gone.apply (library : Library) (op : SignedOp) (gone : Gone device log) :
    Gone device ((DeviceLog.apply library.toIdentity op).exec log).2 := by
  rcases ran : (DeviceLog.apply library.toIdentity op).exec log with ⟨error | _, next⟩
  · obtain ⟨devices, revoked⟩ := DeviceLog.devices_of_refused ran
    intro isRevoked
    rw [devices]
    exact gone (revoked ▸ isRevoked)
  · obtain ⟨event, head, step⟩ := DeviceLog.step_of_applied ran
    exact gone.step step

theorem exec_applyEntries_cons (op : SignedOp) (entries : List SignedOp) :
    (applyEntries library (op :: entries)).exec log =
      match (DeviceLog.apply library.toIdentity op).exec log with
      | (.ok _, next) => (applyEntries library entries).exec next
      | (.error error, next) => (.error error, next) := by
  change (DeviceLog.apply library.toIdentity op >>= fun _ => applyEntries library entries).exec
    log = _
  rw [Update.exec_bind]
  rcases (DeviceLog.apply library.toIdentity op).exec log with ⟨error | _, next⟩ <;> rfl

theorem Gone.applyEntries
    (library : Library) (entries : List SignedOp)
    (gone : Gone device log) : Gone device ((applyEntries library entries).exec log).2 := by
  induction entries generalizing log with
  | nil => exact gone
  | cons op entries inductionHypothesis =>
      have next := gone.apply library op
      rw [exec_applyEntries_cons]
      revert next
      rcases (DeviceLog.apply library.toIdentity op).exec log with ⟨error | _, later⟩
      · exact id
      · exact inductionHypothesis

theorem exec_applyEntries_ok {entries : List SignedOp} {later : DeviceLog}
    (ran : (applyEntries library entries).exec log = (.ok (), later)) :
    Gone device log -> Gone device later := by
  intro gone
  have kept := gone.applyEntries library entries
  rwa [ran] at kept

/-- A device that was active and is not any more is not among the devices. -/
theorem not_mem_devices_of_lost {later : DeviceLog}
    (kept : Gone device log -> Gone device later)
    (wasActive : (log.active device).isSome = true)
    (isInactive : (later.active device).isSome = false) :
    log.devices.contains device = true ∧ later.devices.contains device = false := by
  have notRevoked : device ∉ log.revoked := by
    intro isRevoked
    rw [DeviceLog.active, if_pos (Std.ExtTreeSet.contains_iff_mem.2 isRevoked)] at wasActive
    cases wasActive
  rw [DeviceLog.active, if_neg (by simpa using notRevoked)] at wasActive
  refine ⟨by simpa using wasActive, ?_⟩
  rw [DeviceLog.active] at isInactive
  split at isInactive
  · rename_i isRevoked
    have erased := kept (fun known => absurd known notRevoked)
      (Std.ExtTreeSet.contains_iff_mem.1 isRevoked)
    rw [Std.ExtTreeMap.contains_eq_isSome_getElem?, erased]
    rfl
  · simpa using isInactive

end

/-! ## The reaction -/

/-- No group of the user goes on with the keys that it had, and each one is recorded. -/
def Rekeyed (client : Client) (user : String) : Prop :=
  ∀ (id : Bytes) (group : GroupLocal) (state : GroupState),
    client.groups[id]? = some group -> group.state = some state ->
    user ∈ state.members -> state.deleted = false ->
    (∀ epoch ∈ client.megolmOut, epoch.group ≠ id) ∧
      (∀ mark ∈ client.megolmShared, mark.group ≠ id) ∧
      client.rekey[id]? = some state.epoch

section

variable {client : Client} {user : String}

theorem mem_groupsOf {id : Bytes} {epoch : Nat} :
    (id, epoch) ∈ groupsOf client user ↔
      ∃ group state, client.groups[id]? = some group ∧ group.state = some state ∧
        user ∈ state.members ∧ state.deleted = false ∧ epoch = state.epoch := by
  rw [groupsOf, List.mem_filterMap]
  constructor
  · rintro ⟨⟨other, group⟩, member, found⟩
    obtain ⟨state, hasState, found⟩ := Option.bind_eq_some_iff.1 found
    split at found
    · rename_i isMember
      cases found
      rw [Bool.and_eq_true, Bool.not_eq_true'] at isMember
      exact ⟨group, state, Std.ExtTreeMap.mem_toList_iff_getElem?_eq_some.1 member, hasState,
        Std.ExtTreeMap.contains_iff_mem.1 isMember.1, isMember.2, rfl⟩
    · cases found
  · rintro ⟨group, state, found, hasState, isMember, notDeleted, rfl⟩
    refine ⟨(id, group), Std.ExtTreeMap.mem_toList_iff_getElem?_eq_some.2 found, ?_⟩
    simp only [hasState, Option.bind_some, Std.ExtTreeMap.contains_iff_mem.2 isMember, notDeleted]
    rfl

/-- What the reaction of several groups leaves. -/
theorem foldl_rekeyGroup (groups : List (Bytes × Nat)) (client : Client) :
    (∀ epoch ∈ (groups.foldl rekeyGroup client).megolmOut,
      epoch ∈ client.megolmOut ∧ ∀ group ∈ groups, epoch.group ≠ group.1) ∧
    (∀ mark ∈ (groups.foldl rekeyGroup client).megolmShared,
      mark ∈ client.megolmShared ∧ ∀ group ∈ groups, mark.group ≠ group.1) ∧
    ∀ id epoch, (∀ other, (id, other) ∈ groups -> other = epoch) ->
      (id, epoch) ∈ groups ∨ client.rekey[id]? = some epoch ->
        (groups.foldl rekeyGroup client).rekey[id]? = some epoch := by
  induction groups generalizing client with
  | nil => simp
  | cons group groups inductionHypothesis =>
      obtain ⟨out, shared, rekey⟩ := inductionHypothesis (rekeyGroup client group)
      refine ⟨fun epoch member => ?_, fun mark member => ?_, fun id epoch unique known => ?_⟩
      · obtain ⟨kept, others⟩ := out epoch member
        rw [rekeyGroup, Std.ExtTreeMap.mem_filter] at kept
        obtain ⟨known, different⟩ := kept
        exact ⟨known, List.forall_mem_cons.2 ⟨by simpa using different, others⟩⟩
      · obtain ⟨kept, others⟩ := shared mark member
        rw [rekeyGroup, Std.ExtTreeSet.mem_filter] at kept
        obtain ⟨known, different⟩ := kept
        exact ⟨known, List.forall_mem_cons.2 ⟨by simpa using different, others⟩⟩
      · refine rekey id epoch (fun other member => unique other (List.mem_cons_of_mem _ member)) ?_
        rw [rekeyGroup, Std.ExtTreeMap.getElem?_insert]
        by_cases same : group.1 = id
        · have epochEq := unique group.2 (by rw [← same]; exact List.mem_cons_self)
          right
          rw [if_pos (by simpa using same), epochEq]
        · rw [if_neg (by simpa using same)]
          refine known.imp_left fun member => ?_
          rcases List.mem_cons.1 member with first | rest
          · exact absurd (congrArg Prod.fst first).symm same
          · exact rest

/-- The reaction changes only the keys of groups. -/
theorem foldl_rekeyGroup_eq (groups : List (Bytes × Nat)) (client : Client) :
    ∃ out shared rekey, groups.foldl rekeyGroup client =
      { client with megolmOut := out, megolmShared := shared, rekey := rekey } := by
  induction groups generalizing client with
  | nil => exact ⟨_, _, _, rfl⟩
  | cons group groups inductionHypothesis =>
      obtain ⟨out, shared, rekey, same⟩ :=
        inductionHypothesis (rekeyGroup client group)
      exact ⟨out, shared, rekey, same⟩

theorem groups_onDevicesRemoved : (onDevicesRemoved user client).groups = client.groups := by
  obtain ⟨out, shared, rekey, same⟩ := foldl_rekeyGroup_eq (groupsOf client user) client
  rw [onDevicesRemoved, same]

theorem rekeyed_onDevicesRemoved : Rekeyed (onDevicesRemoved user client) user := by
  intro id group state found hasState isMember notDeleted
  rw [groups_onDevicesRemoved] at found
  obtain ⟨out, shared, rekey⟩ := foldl_rekeyGroup (groupsOf client user) client
  have listed : (id, state.epoch) ∈ groupsOf client user :=
    mem_groupsOf.2 ⟨group, state, found, hasState, isMember, notDeleted, rfl⟩
  refine ⟨fun epoch member => ?_, fun mark member => ?_, ?_⟩
  · exact (out epoch member).2 _ listed
  · exact (shared mark member).2 _ listed
  · refine rekey id state.epoch (fun other member => ?_) (.inl listed)
    obtain ⟨otherGroup, otherState, otherFound, otherHas, -, -, rfl⟩ := mem_groupsOf.1 member
    rw [found] at otherFound
    cases otherFound
    rw [hasState] at otherHas
    cases otherHas
    rfl

/-- Marks that are copied to another user stay in their groups. -/
theorem group_of_copied_mark
    {marks : List SharedMark} {shared : Std.ExtTreeSet SharedMark} {new : String}
    {mark : SharedMark}
    (member : mark ∈ marks.foldl (fun marks mark => marks.insert { mark with user := new }) shared) :
    mark ∈ shared ∨ ∃ known ∈ marks, mark.group = known.group := by
  induction marks generalizing shared with
  | nil => exact .inl member
  | cons first marks inductionHypothesis =>
      rcases inductionHypothesis member with inserted | ⟨known, rest, same⟩
      · rcases Std.ExtTreeSet.mem_insert.1 inserted with equal | kept
        · rw [Std.LawfulEqCmp.compare_eq_iff_eq] at equal
          exact .inr ⟨first, List.mem_cons_self, by rw [← equal]⟩
        · exact .inl kept
      · exact .inr ⟨known, List.mem_cons_of_mem _ rest, same⟩

/-- Taking over what is known of an address brings no key of a group back. -/
theorem Rekeyed.movePeerKeys
    (old new : String)
    (rekeyed : Rekeyed client user) : Rekeyed (movePeerKeys old new client) user := by
  intro id group state found hasState isMember notDeleted
  obtain ⟨out, shared, rekey⟩ := rekeyed id group state found hasState isMember notDeleted
  refine ⟨out, fun mark member => ?_, rekey⟩
  rcases group_of_copied_mark member with known | ⟨known, listed, same⟩
  · exact shared mark known
  · rw [same]
    exact shared known (Std.ExtTreeSet.mem_toList.1 (List.mem_of_mem_filter listed))

end

/-! ## Links between addresses -/

section

variable (library : Library) {client : Client} {user : String}

theorem peerLog_congr
    (later : Client) (sameUser : later.user = client.user) (sameLog : later.ownLog = client.ownLog)
    (sameLogs : ∀ user : String, (later.peers[user]? : Option Peer).bind Peer.log =
      (client.peers[user]? : Option Peer).bind Peer.log) :
    later.peerLog user = client.peerLog user := by
  rw [Client.peerLog, Client.peerLog, sameUser, sameLog, sameLogs]

/-- A peer whose log stays takes the place of the one before. -/
theorem peerLog_setPeer {other : String} {peer : Peer}
    (same : peer.log = (client.peers[other]? : Option Peer).bind Peer.log) :
    (client.setPeer other peer).peerLog user = client.peerLog user := by
  refine peerLog_congr (client.setPeer other peer) rfl rfl fun user => ?_
  rw [Client.setPeer, Std.ExtTreeMap.getElem?_insert]
  split
  · rename_i equal
    rw [Std.LawfulEqCmp.compare_eq_iff_eq] at equal
    rw [← equal, Option.bind_some, same]
  · rfl

theorem peerLog_setPeer_self {peer : Peer} (isOther : user ≠ client.user) :
    (client.setPeer user peer).peerLog user = peer.log := by
  rw [Client.peerLog, Client.setPeer, if_neg isOther, Std.ExtTreeMap.getElem?_insert_self]
  rfl

theorem peerLog_movePeerKeys (old new : String) (client : Client) :
    (movePeerKeys old new client).peerLog user = client.peerLog user := by
  refine peerLog_congr (movePeerKeys old new client) rfl rfl fun user => ?_
  rw [movePeerKeys, moveDeliveryKey, Std.ExtTreeMap.getElem?_modify]
  split
  · rename_i equal
    rw [Std.LawfulEqCmp.compare_eq_iff_eq] at equal
    subst equal
    cases (client.peers[new]? : Option Peer) with
    | none => rfl
    | some peer =>
        rw [Option.map_some, Option.bind_some, Option.bind_some]
        split <;> rfl
  · rfl

theorem peerLog_linkPeerRename (new : String) :
    (linkPeerRename library new client).2.peerLog user = client.peerLog user := by
  unfold linkPeerRename
  split
  · rfl
  · rename_i old linked
    rw [← peerLog_movePeerKeys old new client]
    dsimp only
    split
    · rfl
    · rename_i peer found
      refine peerLog_setPeer ?_
      rw [found]
      rfl

theorem user_linkPeerRename (new : String) :
    (linkPeerRename library new client).2.user = client.user := by
  unfold linkPeerRename
  split
  · rfl
  · dsimp only
    split <;> rfl

theorem Rekeyed.linkPeerRename (new : String) (rekeyed : Rekeyed client user) :
    Rekeyed (linkPeerRename library new client).2 user := by
  unfold Engine.linkPeerRename
  split
  · exact rekeyed
  · rename_i old linked
    have moved := rekeyed.movePeerKeys old new
    dsimp only
    split
    · exact moved
    · exact moved

end

/-! ## Taking entries in -/

section

variable (library : Library) {client : Client} {user : String}

theorem user_onDevicesRemoved (other : String) :
    (onDevicesRemoved other client).user = client.user := by
  obtain ⟨out, shared, rekey, same⟩ := foldl_rekeyGroup_eq (groupsOf client other) client
  rw [onDevicesRemoved, same]

theorem peerLog_onDevicesRemoved (other : String) :
    (onDevicesRemoved other client).peerLog user = client.peerLog user := by
  obtain ⟨out, shared, rekey, same⟩ := foldl_rekeyGroup_eq (groupsOf client other) client
  rw [onDevicesRemoved, same]
  rfl

/-- A device of the log that was known is missing in the new one. -/
def DeviceMissing (known log : DeviceLog) : Prop :=
  ∃ device, known.devices.contains device = true ∧ log.devices.contains device = false

theorem any_missing_iff {known log : DeviceLog} :
    (known.devices.keys.any fun device => !log.devices.contains device) = true ↔
      DeviceMissing known log := by
  simp [DeviceMissing, List.any_eq_true]

theorem replaceLog_spec
    (isOther : user ≠ client.user) (peer : Peer) (entries : List SignedOp) (log : DeviceLog) :
    (replaceLog user peer entries log client).user = client.user ∧
      (replaceLog user peer entries log client).peerLog user = some log ∧
      (log.renamedTo = none -> ∀ known, peer.log = some known -> DeviceMissing known log ->
        Rekeyed (replaceLog user peer entries log client) user) := by
  unfold replaceLog
  dsimp only
  split
  · refine ⟨user_onDevicesRemoved user, ?_, fun _ _ _ _ => rekeyed_onDevicesRemoved⟩
    rw [peerLog_onDevicesRemoved]
    exact peerLog_setPeer_self isOther
  · rename_i notRemoved
    refine ⟨rfl, peerLog_setPeer_self isOther, fun isOpen known knownEq missing => ?_⟩
    refine absurd ?_ notRemoved
    rw [isOpen, knownEq, Option.any_some, any_missing_iff.2 missing]
    rfl

theorem acceptLog_spec
    (client : Client) (isOther : user ≠ client.user) (peer : Peer) (entries : List SignedOp)
    (log : DeviceLog) (verdict : LogVerdict) :
    (exec (acceptLog library user peer entries log verdict) client).2.peerLog user = some log ∧
      (log.renamedTo = none -> ∀ known, peer.log = some known -> DeviceMissing known log ->
        Rekeyed (exec (acceptLog library user peer entries log verdict) client).2 user) := by
  obtain ⟨-, logEq, rekeyed⟩ := replaceLog_spec isOther peer entries log
  rw [acceptLog, exec_bind, exec_modify]
  dsimp only
  split
  · exact ⟨logEq, rekeyed⟩
  · split
    · rw [exec_bind, exec_modifyGet]
      dsimp only
      have linkedLog := (peerLog_linkPeerRename library user).trans logEq
      have linkedKeys := fun isOpen known knownEq missing =>
        (rekeyed isOpen known knownEq missing).linkPeerRename library user
      split
      · exact ⟨linkedLog, linkedKeys⟩
      · exact ⟨linkedLog, linkedKeys⟩
    · exact ⟨logEq, rekeyed⟩

/-- The log of another user was accepted with further entries. -/
structure Accepted (client : Client) (user : String) (entries : List SignedOp) (later : Client)
    (log : DeviceLog) : Prop where
  applied : ∀ current, client.peerLog user = some current ->
    (applyEntries library entries).exec current = (.ok (), log)
  logEq : later.peerLog user = some log
  rekeyed : log.renamedTo = none -> ∀ current, client.peerLog user = some current ->
    DeviceMissing current log -> Rekeyed later user

/-- The log of another user is the one before, or was accepted. -/
def Settled (client : Client) (user : String) (entries : List SignedOp) (later : Client) : Prop :=
  later.peerLog user = client.peerLog user ∨
    ∃ log, Accepted library client user entries later log

theorem applied_of_extendLog {entries : List SignedOp} {log current : DeviceLog}
    (extended : extendLog library client user entries = .ok log)
    (known : (client.peers[user]? : Option Peer).bind Peer.log = some current) :
    (applyEntries library entries).exec current = (.ok (), log) := by
  rw [extendLog, known] at extended
  rcases ran : (applyEntries library entries).exec current with ⟨error | _, next⟩
  · simp [ran, bind, Except.bind] at extended
  · simp [ran, bind, Except.bind, pure, Except.pure] at extended
    rw [extended]

/-- The pin is set, and the peer as it was recorded is returned. -/
theorem pinHead_spec
    {entries : List SignedOp} {log : DeviceLog} {result : Except ClientError Peer} {later : Client}
    (ran : exec (pinHead library user entries log) client = (result, later)) :
    later.user = client.user ∧ (∀ other, later.peerLog other = client.peerLog other) ∧
      ∀ peer, result = .ok peer ->
        peer.log = (client.peers[user]? : Option Peer).bind Peer.log := by
  obtain ⟨peer, peerEq⟩ : ∃ peer, (client.peers[user]? : Option Peer).getD {} = peer := ⟨_, rfl⟩
  have logEq : peer.log = (client.peers[user]? : Option Peer).bind Peer.log := by
    rw [← peerEq]
    cases (client.peers[user]? : Option Peer) <;> rfl
  have recorded (other : String) : (client.setPeer user peer).peerLog other = client.peerLog other :=
    peerLog_setPeer logEq
  rw [pinHead, exec_bind, exec_get] at ran
  dsimp only at ran
  rw [peerEq, exec_bind, exec_modify] at ran
  dsimp only at ran
  rw [exec_bind, exec_liftM] at ran
  cases advanced : peer.pin.advance log.version log.headHash (hashAtPin library peer entries log) with
  | error error =>
      rw [advanced] at ran
      cases ran
      exact ⟨rfl, recorded, fun _ failed => nomatch failed⟩
  | ok pin =>
      rw [advanced] at ran
      cases ran
      refine ⟨rfl, fun other => ?_, ?_⟩
      · rw [← recorded other]
        refine peerLog_setPeer ?_
        rw [Client.setPeer, Std.ExtTreeMap.getElem?_insert_self]
        rfl
      · rintro _ ⟨⟩
        exact logEq

theorem leaves_settled (isOther : user ≠ client.user) (entries : List SignedOp) :
    Leaves (Settled library client user entries) (ingestPeerLog library user entries) client := by
  have logEq : client.peerLog user = (client.peers[user]? : Option Peer).bind Peer.log := by
    rw [Client.peerLog, if_neg isOther]
  refine leaves_get (leaves_check (.inl rfl) fun log extended => .ite (fun _ => .inl rfl) fun _ => ?_)
  refine leaves_bind (fun error later ran => .inl ((pinHead_spec library ran).2.1 user))
    fun peer pinned ran => ?_
  obtain ⟨sameUser, sameLogs, peerLogEq⟩ := pinHead_spec library ran
  have knownLog := peerLogEq peer rfl
  have isOther : user ≠ pinned.user := by rwa [sameUser]
  have accepted (verdict : LogVerdict) (trust : RootTrust) :
      Leaves (Settled library client user entries) (acceptLog library user peer entries log verdict)
        { pinned with trust := trust } := by
    obtain ⟨later, rekeyed⟩ := acceptLog_spec library { pinned with trust := trust } isOther
      peer entries log verdict
    refine .inr ⟨log, fun current known => ?_, later, fun isOpen current known missing => ?_⟩
    · exact applied_of_extendLog library ((liftProto_eq_ok _ _).1 extended) (logEq ▸ known)
    · exact rekeyed isOpen current (by rw [knownLog, ← logEq, known]) missing
  refine leaves_modifyGet_bind ?_
  dsimp only
  split
  · exact accepted .new _
  · exact accepted .known _
  · refine leaves_modify_bind (leaves_pure (.inl ?_))
    rw [logEq, ← knownLog]
    exact peerLog_setPeer_self isOther

end

/-! ## The own log -/

section

variable (library : Library) (client : Client)

theorem refreshOwnAfterLog_eq :
    ∃ ssk serial cert, refreshOwnAfterLog library client =
      { client with ssk := ssk, certSerial := serial, myCert := cert } := by
  obtain ⟨ssk, forgotten⟩ : ∃ ssk, forgetReplacedSsk library client = { client with ssk := ssk } := by
    unfold forgetReplacedSsk
    split
    · exact ⟨none, rfl⟩
    · exact ⟨client.ssk, rfl⟩
  rw [refreshOwnAfterLog, forgotten, refreshCertificate]
  split
  · exact ⟨_, _, _, rfl⟩
  · split
    · exact ⟨_, _, _, rfl⟩
    · split
      · exact ⟨_, _, _, rfl⟩
      · exact ⟨_, _, _, rfl⟩

/-- Own entries are applied to the log itself, up to the first that is refused. -/
theorem exec_applyOwnEntries (entries : List SignedOp) :
    ∃ own, exec (entries.forM (applyOwnEntry library)) client =
      (liftProto ((applyEntries library entries).exec client.ownLog).1,
        { client with
          ownLog := ((applyEntries library entries).exec client.ownLog).2
          ownEntries := own }) := by
  induction entries generalizing client with
  | nil => exact ⟨client.ownEntries, rfl⟩
  | cons op entries inductionHypothesis =>
      change ∃ own, exec (applyOwnEntry library op >>= fun _ =>
        entries.forM (applyOwnEntry library)) client = _
      rw [exec_applyEntries_cons, exec_bind, applyOwnEntry, exec_bind, exec_modifyGet]
      dsimp only
      rw [exec_bind, exec_liftM]
      rcases (DeviceLog.apply library.toIdentity op).exec client.ownLog with ⟨error | _, log⟩
      · exact ⟨client.ownEntries, rfl⟩
      · exact inductionHypothesis
          { client with ownLog := log, ownEntries := client.ownEntries ++ [op] }

end

/-! ## The claim about runs that break off -/

section

variable (library : Library) (client : Client) (user : String) (entries : List SignedOp)

/-- A device of the user is active. -/
def Client.deviceActive (client : Client) (user device : String) : Bool :=
  (client.peerLog user).any fun log => (log.active device).isSome

/-- The log of the user was closed by a change of the address. -/
def Client.logClosed (client : Client) (user : String) : Bool :=
  (client.peerLog user).any fun log => log.renamedTo.isSome

/-- A device of the user was active, and is not any more. -/
def LostDevice (client later : Client) (user : String) : Prop :=
  ∃ device, client.deviceActive user device = true ∧ later.deviceActive user device = false

/-- However the entries end, the groups of the user get new keys once a device was lost. -/
def ForcesRekeying : Prop :=
  Leaves
    (fun later => later.logClosed user = false -> LostDevice client later user ->
      Rekeyed later user)
    (ingestLog library user entries) client

/-- A group of the user still has its keys when an entry of the own log is refused behind
one by which a device left. -/
def BreaksOff : Prop :=
  user = client.user ∧ ¬ Rekeyed client user ∧
    ∃ error log, (applyEntries library entries).exec client.ownLog = (.error error, log) ∧
      log.renamedTo = none ∧
      ∃ device, (client.ownLog.active device).isSome = true ∧ (log.active device).isSome = false

theorem peer_forces_rekeying (isOther : user ≠ client.user) :
    ForcesRekeying library client user entries := by
  refine leaves_get ?_
  rw [if_neg isOther]
  intro isOpen lost
  have settled := leaves_settled library isOther entries
  rw [Leaves] at settled
  revert settled isOpen lost
  generalize (exec (ingestPeerLog library user entries) client).2 = later
  rintro isOpen ⟨device, wasActive, isInactive⟩ (same | ⟨log, accepted⟩)
  · rw [Client.deviceActive, same, ← Client.deviceActive, wasActive] at isInactive
    cases isInactive
  · rw [Client.deviceActive, Option.any_eq_true] at wasActive
    obtain ⟨current, known, wasActive⟩ := wasActive
    rw [Client.deviceActive, accepted.logEq, Option.any_some] at isInactive
    rw [Client.logClosed, accepted.logEq, Option.any_some, Option.isSome_eq_false_iff,
      Option.isNone_iff_eq_none] at isOpen
    have applied := accepted.applied current known
    exact accepted.rekeyed isOpen current known
      ⟨device, not_mem_devices_of_lost (exec_applyEntries_ok applied) wasActive isInactive⟩

/-- The own log is refreshed and the reaction runs, unless an entry was refused. -/
theorem exec_ingestOwnLog :
    ∃ own, (exec (ingestOwnLog library entries) client).2 =
      match (applyEntries library entries).exec client.ownLog with
      | (.error _, log) => { client with ownLog := log, ownEntries := own }
      | (.ok _, log) =>
          let applied := { client with ownLog := log, ownEntries := own }
          if log.renamedTo.isSome then applied
          else
            let refreshed := refreshOwnAfterLog library applied
            if client.ownLog.devices.keys.any fun device => !refreshed.ownLog.devices.contains device
            then onDevicesRemoved refreshed.user refreshed
            else refreshed := by
  obtain ⟨own, ran⟩ := exec_applyOwnEntries library client entries
  refine ⟨own, ?_⟩
  rw [ingestOwnLog, exec_bind, exec_get]
  dsimp only
  rw [exec_bind, ran]
  rcases (applyEntries library entries).exec client.ownLog with ⟨error | _, log⟩
  · rfl
  · dsimp only [liftProto]
    rw [exec_bind, exec_get]
    dsimp only
    split
    · rfl
    · rw [exec_bind, exec_modify]
      dsimp only
      rw [exec_bind, exec_get]
      dsimp only
      split <;> rfl

theorem own_forces_rekeying_iff :
    ForcesRekeying library client client.user entries ↔
      ¬ BreaksOff library client client.user entries := by
  obtain ⟨own, later⟩ := exec_ingestOwnLog library client entries
  have unfolded : ForcesRekeying library client client.user entries ↔
      ((exec (ingestOwnLog library entries) client).2.logClosed client.user = false ->
        LostDevice client (exec (ingestOwnLog library entries) client).2 client.user ->
        Rekeyed (exec (ingestOwnLog library entries) client).2 client.user) := by
    rw [ForcesRekeying, Leaves, ingestLog, exec_bind, exec_get]
    dsimp only
    rw [if_pos rfl]
  rw [unfolded, later]
  rcases ran : (applyEntries library entries).exec client.ownLog with ⟨error | _, log⟩
  · dsimp only
    have lostIff : LostDevice client { client with ownLog := log, ownEntries := own } client.user ↔
        ∃ device, (client.ownLog.active device).isSome = true ∧
          (log.active device).isSome = false := by
      simp [LostDevice, Client.deviceActive, Client.peerLog]
    have closedEq : Client.logClosed { client with ownLog := log, ownEntries := own } client.user =
        log.renamedTo.isSome := by
      simp [Client.logClosed, Client.peerLog]
    rw [lostIff, closedEq, Option.isSome_eq_false_iff, Option.isNone_iff_eq_none]
    constructor
    · rintro forces ⟨-, keeps, _, other, refused, isOpen, lost⟩
      rw [ran] at refused
      cases refused
      exact keeps (forces isOpen lost)
    · intro notBroken isOpen lost
      by_contra keeps
      exact notBroken ⟨rfl, keeps, error, log, ran, isOpen, lost⟩
  · have completed : ¬ BreaksOff library client client.user entries := by
      rintro ⟨-, -, _, other, refused, -⟩
      rw [ran] at refused
      cases refused
    refine iff_of_true ?_ completed
    dsimp only
    obtain ⟨ssk, serial, cert, refreshed⟩ :=
      refreshOwnAfterLog_eq library { client with ownLog := log, ownEntries := own }
    rw [refreshed]
    split
    · rename_i isClosed
      intro isOpen
      simp [Client.logClosed, Client.peerLog, isClosed] at isOpen
    · split
      · exact fun _ _ => rekeyed_onDevicesRemoved
      · rename_i allPresent
        rintro - ⟨device, wasActive, isInactive⟩
        refine absurd (any_missing_iff.2 ⟨device, ?_⟩) allPresent
        refine not_mem_devices_of_lost (exec_applyEntries_ok ran) ?_ ?_
        · simpa [Client.deviceActive, Client.peerLog] using wasActive
        · simpa [Client.deviceActive, Client.peerLog] using isInactive

/-- However the entries end, the groups get new keys, exactly unless an entry of the own log
is refused behind one by which a device left. -/
theorem forces_rekeying_iff :
    ForcesRekeying library client user entries ↔ ¬ BreaksOff library client user entries := by
  by_cases isOwn : user = client.user
  · subst isOwn
    exact own_forces_rekeying_iff library client entries
  · refine ⟨fun _ broken => isOwn broken.1, fun _ => ?_⟩
    exact peer_forces_rekeying library client user entries isOwn

end

/-! ## A sample -/

/-- Every operation revokes the device "d" of the first user. -/
def halfwayLibrary : Library :=
  { burnLibrary with
    decodeOpBody := fun _ => .ok
      { header := some
          { domain := deviceLogDomain, opType := deviceLogOp, opId := List.replicate 16 112
            target := none, audience := [], tsMs := 0 }
        payload := [] }
    decodeDeviceLogEntry := fun _ => .ok
      ⟨some ⟨"a@x.org"⟩, 3, zeroKey.bytes, some (.revokeDeviceId "d"), [], false, ""⟩ }

/-- The other device of the first user. -/
def otherDevice : VerifiedDevice :=
  ⟨{ sampleCert 1 with deviceId := "e", olmCurve25519 := sampleKey 4, olmEd25519 := sampleKey 4 },
    sampleHashOf 1, sampleHashOf 1⟩

/-- The first user on that device, in the sample group and with a session in it. -/
def halfwayClient : Client :=
  { burnClient with
    ownLog := { sampleLog 1 with devices := (sampleLog 1).devices.insert "e" otherDevice }
    megolmOut := (∅ : Std.ExtTreeMap EpochRef MegolmSession).insert ⟨sampleGroup.id, 1⟩ [] }

/-- A good entry, and one without a key. -/
def halfwayEntries : List SignedOp :=
  [⟨[], List.replicate 64 0, sampleKey 1⟩, ⟨[], [], []⟩]

def halfwayLog : DeviceLog :=
  ((applyEntries halfwayLibrary halfwayEntries).exec halfwayClient.ownLog).2

/-- The device leaves with the first entry; the second one is refused, and the session in
the group goes on. -/
theorem revoked_device_keeps_session :
    ¬ ForcesRekeying halfwayLibrary halfwayClient "a@x.org" halfwayEntries := by
  have broken : BreaksOff halfwayLibrary halfwayClient halfwayClient.user halfwayEntries := by
    refine ⟨rfl, fun rekeyed => ?_, .badSignature, halfwayLog, ?_, by decide +kernel, "d",
      by decide +kernel, by decide +kernel⟩
    · obtain ⟨out, -⟩ := rekeyed sampleGroup.id { entries := [], state := some rolesState }
        rolesState Std.ExtTreeMap.getElem?_insert_self rfl (by decide +kernel) (by decide +kernel)
      exact out ⟨sampleGroup.id, 1⟩ Std.ExtTreeMap.mem_insert_self rfl
    · have refused : errorOf
          ((applyEntries halfwayLibrary halfwayEntries).exec halfwayClient.ownLog).1 =
            some .badSignature := by
        decide +kernel
      rw [halfwayLog, ← eq_of_errorOf refused]
  exact fun forces =>
    (own_forces_rekeying_iff halfwayLibrary halfwayClient halfwayEntries).1 forces broken

end Parvane.Engine
