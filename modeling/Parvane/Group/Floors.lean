import Parvane.Group.Ingest
import Parvane.Identity.Invariants

/-!
# Floors in a group log

For each user a group state keeps the version of the device log that the entries of the
user have to refer to at least.  The floor of a user should not be beyond the log that is
known of the user, or else no entry of the user is accepted any more.
-/

namespace Parvane.Group

open Wire Sign Identity

variable {library : Library} {logs : Logs}

/-! ## Known logs -/

/-- A log of the user is known that reaches the version. -/
def Logs.Knows (logs : Logs) (user : String) (version : Nat) : Prop :=
  version ≤ logs.logVersion user ∨
    ∃ log ∈ logs.formerOwn, log.user = user ∧ version ≤ log.version

/-- The logs of former addresses were closed by a change of address. -/
def Logs.Sound (library : Library) (logs : Logs) : Prop :=
  ∀ log ∈ logs.formerOwn, log.renamedTo ≠ none ∧
    ∃ user start events, DeviceLog.new user = .ok start ∧
      Run (DeviceLog.Accepts library.toIdentity) start events log

/-- No log is replaced by a shorter one. -/
def Logs.Grows (before after : Logs) : Prop :=
  ∀ user version, before.Knows user version -> after.Knows user version

/-- The users in whose logs the key is, or was. -/
def Logs.holders (logs : Logs) (key : Hash) : List String :=
  (((logs.user, logs.ownLog) :: logs.formerOwn.map (fun log => (log.user, log)) ++
      logs.peers.toList).filter fun known => known.2.keyEver key.bytes).map Prod.fst

/-! ## Closed logs -/

variable {identity : Identity.Library}

theorem accepts_open {log next : DeviceLog} {event : DeviceLog.Event}
    (accepts : DeviceLog.Accepts identity log event next) : log.renamedTo = none := by
  obtain ⟨op, -, eventEq⟩ := accepts
  simp only [DeviceLog.eventOf, bind_eq_ok] at eventEq
  obtain ⟨entry, read, -⟩ := eventEq
  exact (DeviceLog.readEntry_spec read).2

/-- A log that was closed by a change of address has no device. -/
theorem devices_of_closed {start log : DeviceLog} {events : List DeviceLog.Event}
    (run : Run (DeviceLog.Accepts identity) start events log)
    (initially : start.renamedTo ≠ none -> start.devices = ∅) :
    log.renamedTo ≠ none -> log.devices = ∅ := by
  refine @Run.invariant _ _ _ (fun log => log.renamedTo ≠ none -> log.devices = ∅) _ _ _ run ?_
    initially
  intro state later event _ accepts _ closed
  have isOpen := accepts_open accepts
  obtain ⟨head, step⟩ := accepts.step
  cases step with
  | rename address genesis op => rfl
  | _ => exact absurd isOpen closed

/-- In a closed log every key ended before the last version. -/
theorem lt_version_of_closed {user : String} {start log : DeviceLog} {events : List DeviceLog.Event}
    (created : DeviceLog.new user = .ok start)
    (run : Run (DeviceLog.Accepts identity) start events log)
    (closed : log.renamedTo ≠ none)
    {key : Bytes} {version : Nat}
    (inForce : log.keyActiveAt key version = true) : version < log.version := by
  have invariant := (DeviceLog.invariant_of_new created).run run
  have noDevices : log.devices = ∅ := by
    refine devices_of_closed run ?_ closed
    simp only [DeviceLog.new, bind_eq_ok, pure, Except.pure, Except.ok.injEq] at created
    obtain ⟨_, -, rfl⟩ := created
    exact fun _ => rfl
  simp only [DeviceLog.keyActiveAt, List.any_eq_true, Bool.and_eq_true, beq_iff_eq,
    decide_eq_true_eq] at inForce
  obtain ⟨era, member, ⟨-, -⟩, notEnded⟩ := inForce
  cases ended : era.until with
  | none =>
      obtain ⟨device, found, -⟩ :=
        (invariant.openEras era.deviceId era.key).1 ⟨era, member, ended, rfl, rfl⟩
      rw [noDevices] at found
      simp at found
  | some last =>
      rw [ended, Option.all_some, decide_eq_true_eq] at notEnded
      exact notEnded.trans_le (invariant.ended era member last ended)

/-! ## Signers -/

variable {version : UInt64}

/-- Where a candidate comes from. -/
theorem mem_signerCandidates {key : Hash} {found : SignerInfo × Option String}
    (member : found ∈ logs.signerCandidates key version) :
    ∃ known ∈ (logs.user, logs.ownLog) :: logs.formerOwn.map (fun log => (log.user, log)) ++
        logs.peers.toList,
      Logs.checkLog key version known.1 known.2 = some found := by
  rw [Logs.signerCandidates, List.mem_append, List.mem_append, Option.mem_toList,
    List.mem_filterMap, List.mem_filterMap] at member
  rcases member with (own | ⟨log, isFormer, found⟩) | ⟨peer, isPeer, found⟩
  · exact ⟨_, List.mem_cons_self, own⟩
  · refine ⟨(log.user, log), ?_, found⟩
    exact List.mem_append_left _ (List.mem_cons_of_mem _ (List.mem_map.2 ⟨log, isFormer, rfl⟩))
  · exact ⟨peer, List.mem_append_right _ isPeer, found⟩

theorem mem_candidates_of_signerResolver {key : Hash} {signer : SignerInfo}
    (found : logs.signerResolver key version = some signer) :
    ∃ moved, (signer, moved) ∈ logs.signerCandidates key version := by
  rw [Logs.signerResolver] at found
  split at found
  · next candidate candidates =>
      cases found
      exact ⟨candidate.2, by rw [candidates]; exact List.mem_cons_self⟩
  · next first second candidates =>
      split at found
      · obtain ⟨chosen, isChosen, rfl⟩ := Option.map_eq_some_iff.1 found
        exact ⟨chosen.2, by rw [candidates]; exact List.mem_of_find?_eq_some isChosen⟩
      · cases found
  · cases found

theorem checkLog_spec
    {key : Hash} {user : String} {log : DeviceLog} {found : SignerInfo × Option String}
    (checked : Logs.checkLog key version user log = some found) :
    found.1.user = user ∧ log.keyEver key.bytes = true ∧
      (0 < version -> log.keyActiveAt key.bytes version.toNat = true) := by
  rw [Logs.checkLog] at checked
  by_cases valid : (log.keyEver key.bytes &&
      if version > 0 then log.keyActiveAt key.bytes version.toNat
      else log.keyKnownUnrevoked key.bytes) = true
  · rw [if_pos valid] at checked
    cases checked
    rw [Bool.and_eq_true] at valid
    refine ⟨rfl, valid.1, fun positive => ?_⟩
    have inForce := valid.2
    rw [if_pos positive] at inForce
    exact inForce
  · rw [if_neg valid] at checked
    cases checked

theorem eq_of_length_le_one {α : Type} {list : List α} {first second : α}
    (few : list.length ≤ 1) (firstMember : first ∈ list)
    (secondMember : second ∈ list) : first = second := by
  match list with
  | [] => cases firstMember
  | [only] => rw [List.mem_singleton.1 firstMember, List.mem_singleton.1 secondMember]
  | _ :: _ :: _ => simp at few

/-- The key is in one log only, and as far as the owner of the key is known, the version is
not beyond the log: then the same holds of the signer. -/
theorem Logs.Sound.knows
    (sound : logs.Sound library)
    {key : Hash} {signer : SignerInfo}
    (single : (logs.holders key).length ≤ 1)
    (owned : ∀ user, logs.keyOwner key = some user -> version.toNat ≤ logs.logVersion user)
    (found : logs.signerResolver key version = some signer)
    (positive : 0 < version) : logs.Knows signer.user version.toNat := by
  obtain ⟨moved, candidate⟩ := mem_candidates_of_signerResolver found
  obtain ⟨known, isKnown, checked⟩ := mem_signerCandidates candidate
  obtain ⟨isUser, ever, inForce⟩ := checkLog_spec checked
  dsimp only at isUser
  rw [isUser]
  rw [Logs.holders, List.length_map] at single
  rw [List.cons_append, List.mem_cons, List.mem_append, List.mem_map] at isKnown
  rcases isKnown with rfl | ⟨log, isFormer, rfl⟩ | isPeer
  · exact .inl (owned _ (if_pos ever))
  · obtain ⟨closed, user, start, events, created, run⟩ := sound log isFormer
    exact .inr ⟨log, isFormer, rfl, (lt_version_of_closed created run closed (inForce positive)).le⟩
  · -- The only log with the key is that of the peer, so it is the one that is found.
    have peerHolds : known ∈ (logs.formerOwn.map (fun log => (log.user, log)) ++
        logs.peers.toList).filter fun known => known.2.keyEver key.bytes :=
      List.mem_filter.2 ⟨List.mem_append_right _ isPeer, ever⟩
    have notOwn : ¬ logs.ownLog.keyEver key.bytes = true := by
      intro own
      rw [List.cons_append, List.filter_cons, if_pos own, List.length_cons] at single
      have positiveLength := List.length_pos_of_mem peerHolds
      omega
    obtain ⟨owner, isOwner⟩ : ∃ owner,
        logs.peers.toList.find? (fun peer => peer.2.keyEver key.bytes) = some owner := by
      rw [← Option.isSome_iff_exists, List.find?_isSome]
      exact ⟨known, isPeer, ever⟩
    have ownerEver := List.find?_some isOwner
    have ownerHolds : owner ∈ (logs.formerOwn.map (fun log => (log.user, log)) ++
        logs.peers.toList).filter fun known => known.2.keyEver key.bytes :=
      List.mem_filter.2 ⟨List.mem_append_right _ (List.mem_of_find?_eq_some isOwner), ownerEver⟩
    have same : owner = known := by
      refine eq_of_length_le_one ?_ ownerHolds peerHolds
      rw [List.cons_append, List.filter_cons, if_neg notOwn] at single
      exact single
    refine .inl (owned known.1 ?_)
    rw [Logs.keyOwner, if_neg notOwn, isOwner, same]
    rfl

/-! ## Raising floors -/

/-- All floors are known to be reached. -/
def Reached (logs : Logs) (versions : Std.ExtTreeMap String UInt64) : Prop :=
  ∀ (user : String) (floor : UInt64), versions[user]? = some floor -> logs.Knows user floor.toNat

theorem Reached.raiseVersion {versions : Std.ExtTreeMap String UInt64}
    (reached : Reached logs versions) {user : String}
    (knows : logs.Knows user version.toNat) : Reached logs (raiseVersion versions user version) := by
  intro other floor found
  rw [Group.raiseVersion, Std.ExtTreeMap.getElem?_insert] at found
  split at found
  · next same =>
      rw [compare_eq_iff_eq] at same
      subst same
      cases found
      cases before : versions[user]? with
      | none =>
          have zero : max (0 : UInt64) version = version := max_eq_right UInt64.zero_le
          simpa [zero] using knows
      | some old =>
          rcases max_choice old version with isOld | isNew
          · simpa [isOld] using reached user old before
          · simpa [isNew] using knows
  · exact reached other floor found

/-- The marks of an entry that count are within the known logs. -/
def MarksKnown (logs : Logs) (state : GroupState) (signed : Signed) : Prop :=
  ∀ floor ∈ signed.stateChange.floors, 0 < floor.minLogVersion ->
    (floor.user = signed.signer.user ∨ state.isOwner signed.signer.user = true ∨
      state.adminCan signed.signer.user AdminRights.banUsers = true) ->
    logs.Knows floor.user floor.minLogVersion.toNat

theorem Reached.foldl
    (signed : Signed) (after : GroupState) (byAdmin : Bool)
    {floors : List RevokedFloor} {versions : Std.ExtTreeMap String UInt64}
    (reached : Reached logs versions)
    (marks : ∀ floor ∈ floors, 0 < floor.minLogVersion ->
      (floor.user = signed.signer.user ∨ byAdmin = true) ->
      logs.Knows floor.user floor.minLogVersion.toNat) :
    Reached logs
      (floors.foldl
        (fun versions floor =>
          if floor.minLogVersion > 0 && (floor.user == signed.signer.user || byAdmin) &&
              after.members.contains floor.user then
            Group.raiseVersion versions floor.user floor.minLogVersion
          else versions)
        versions) := by
  induction floors generalizing versions with
  | nil => exact reached
  | cons floor floors inductionHypothesis =>
      rw [List.foldl_cons]
      refine inductionHypothesis ?_ fun other member => marks other (List.mem_cons_of_mem _ member)
      split
      · next counts =>
          simp only [Bool.and_eq_true, Bool.or_eq_true, beq_iff_eq, decide_eq_true_eq] at counts
          exact reached.raiseVersion (marks floor List.mem_cons_self counts.1.1 counts.1.2)
      · exact reached

theorem Reached.raiseFloors {before after : GroupState} {signed : Signed}
    (reached : Reached logs after.signerVersions) (marks : MarksKnown logs before signed)
    (claimed : 0 < signed.stateChange.signerLogVersion ->
      logs.Knows signed.signer.user signed.stateChange.signerLogVersion.toNat) :
    Reached logs (Group.raiseFloors before after signed) := by
  have raised := Reached.foldl signed after (before.isOwner signed.signer.user ||
    before.adminCan signed.signer.user AdminRights.banUsers) reached
    fun floor member positive counts => marks floor member positive (by simpa using counts)
  rw [Group.raiseFloors]
  split
  · next positive => exact raised.raiseVersion (claimed positive)
  · exact raised

/-! ## One entry -/

variable {state : Option GroupState} {entry : GroupStateEntry}

/-- What is known of an entry that was read. -/
theorem readEntry_signer {signed : Signed}
    (read : readEntry library state entry logs.signerResolver (some logs.lookup) = .ok signed) :
    ∃ key, (entry.change.bind fun op => FixedBytes.ofBytes? 32 op.signerKey) = some key ∧
      peekChange library entry = some signed.stateChange ∧
      (signed.stateChange.signerAddress ≠ "" ->
        signed.signer.user = signed.stateChange.signerAddress) ∧
      (signed.stateChange.signerAddress = "" ->
        logs.signerResolver key signed.stateChange.signerLogVersion = some signed.signer) := by
  simp only [readEntry, bind_eq_ok, present_eq_ok, require_eq_ok, pure, Except.pure,
    Except.ok.injEq] at read
  obtain ⟨group, -, _, -, op, opEq, key, keyEq, verified, ran, stateChange, decoded, signer, found,
    _, named, _, -, _, -, change, -, rfl⟩ := read
  obtain ⟨body, bodyEq, payload⟩ := verifyOp_payload ran
  refine ⟨key, ?_, ?_, ?_, ?_⟩
  · simp only [verifyingKey, bind_eq_ok, present_eq_ok, pure, Except.pure, Except.ok.injEq] at keyEq
    obtain ⟨bytes, bytesEq, _, -, rfl⟩ := keyEq
    rw [opEq]
    exact bytesEq
  · rw [payload] at decoded
    simp only [peekChange, opEq, bodyEq, Except.toOption, decoded, Option.bind_eq_bind,
      Option.bind_some]
  · intro hasAddress
    simpa [hasAddress] using named
  · intro noAddress
    dsimp only at noAddress
    simpa [noAddress] using found

theorem liftProto_eq_ok {result : Result α} {value : α} :
    liftProto result = .ok value ↔ result = .ok value := by
  cases result <;> simp [liftProto]

/-- What was checked before an entry was taken in. -/
theorem ingestEntry_spec {group : Ref} {hint : Option String} {next : GroupState}
    (ingested : ingestEntry library logs group hint state entry = .ok next) :
    ∃ key, (entry.change.bind fun op => FixedBytes.ofBytes? 32 op.signerKey) = some key ∧
      (∀ user, (entryHintedAs library entry).or (logs.keyOwner key) = some user ->
        (entrySignerVersion library entry).toNat ≤ logs.logVersion user) ∧
      applyWith library state entry logs.signerResolver (some logs.lookup) = .ok next := by
  simp only [ingestEntry, bind_eq_ok, liftProto_eq_ok, present_eq_ok] at ingested
  obtain ⟨key, keyEq, _, -, _, -, _, version, ingested⟩ := ingested
  refine ⟨key, keyEq, fun user isOwner => ?_, ?_⟩
  · rw [isOwner, Option.some_or, requireVersion, checkNeed] at version
    split at version
    · next reaches => simpa using reaches
    · cases version
  · split at ingested
    · cases ingested
    · simp only [bind_eq_ok, liftProto_eq_ok, pure, Except.pure, Except.ok.injEq] at ingested
      obtain ⟨later, applied, _, -, rfl⟩ := ingested
      exact applied

/-- The signer is named, or the key is in one known log only. -/
def SignerClear (library : Library) (logs : Logs) (entry : GroupStateEntry) : Prop :=
  (entryHintedAs library entry).isSome = true ∨
    ∀ key, (entry.change.bind fun op => FixedBytes.ofBytes? 32 op.signerKey) = some key ->
      (logs.holders key).length ≤ 1

/-- The version that an entry refers to is within the known log of the signer. -/
theorem claimed_known {group : Ref} {hint : Option String} {next : GroupState} {signed : Signed}
    (sound : logs.Sound library) (clear : SignerClear library logs entry)
    (ingested : ingestEntry library logs group hint state entry = .ok next)
    (read : readEntry library state entry logs.signerResolver (some logs.lookup) = .ok signed)
    (positive : 0 < signed.stateChange.signerLogVersion) :
    logs.Knows signed.signer.user signed.stateChange.signerLogVersion.toNat := by
  obtain ⟨key, keyEq, owned, -⟩ := ingestEntry_spec ingested
  obtain ⟨readKey, readKeyEq, peeked, named, unnamed⟩ := readEntry_signer read
  rw [keyEq, Option.some.injEq] at readKeyEq
  subst readKeyEq
  have version : entrySignerVersion library entry = signed.stateChange.signerLogVersion := by
    rw [entrySignerVersion, peeked]
    rfl
  rw [version] at owned
  by_cases noAddress : signed.stateChange.signerAddress = ""
  · have noHint : entryHintedAs library entry = none := by
      rw [entryHintedAs, peeked, Option.map_some, noAddress]
      rfl
    rw [noHint, Option.none_or] at owned
    rcases clear with hinted | single
    · rw [noHint] at hinted
      cases hinted
    · exact sound.knows (single key keyEq) owned (unnamed noAddress) positive
  · have hinted : entryHintedAs library entry = some signed.stateChange.signerAddress := by
      rw [entryHintedAs, peeked, Option.map_some, Option.filter_some]
      simp [noAddress]
    left
    rw [named noAddress]
    exact owned _ (by rw [hinted, Option.some_or])

theorem Effect.sameVersions
    {lookup : Option Lookup} {state next : GroupState} {signer : SignerInfo} {now : Int64}
    {change : Change} (effect : Effect library lookup state signer now change next) :
    next.signerVersions = state.signerVersions := by
  cases effect <;> rfl

/-- The marks that an entry brings are within the known logs. -/
def EntryMarksKnown
    (library : Library) (logs : Logs) (state : Option GroupState)
    (entry : GroupStateEntry) : Prop :=
  ∀ signed, readEntry library state entry logs.signerResolver (some logs.lookup) = .ok signed ->
    ∀ known ∈ state, MarksKnown logs known signed

/-- The floors of a group, if there is one, are within the known logs. -/
def FloorsKnown (logs : Logs) (state : Option GroupState) : Prop :=
  ∀ known ∈ state, Reached logs known.signerVersions

/-- An entry whose signer is clear and whose marks are known keeps the floors within the
known logs. -/
theorem FloorsKnown.ingest {group : Ref} {hint : Option String} {next : GroupState}
    (floors : FloorsKnown logs state) (sound : logs.Sound library)
    (clear : SignerClear library logs entry) (marks : EntryMarksKnown library logs state entry)
    (ingested : ingestEntry library logs group hint state entry = .ok next) :
    FloorsKnown logs (some next) := by
  obtain ⟨_, -, -, applied⟩ := ingestEntry_spec ingested
  rintro _ ⟨⟩
  cases state with
  | none =>
      simp only [applyWith, bind_eq_ok] at applied
      obtain ⟨signed, read, created⟩ := applied
      rw [(applyGenesis_spec created).2.2.2.2.2]
      have empty : Reached logs ∅ := by
        intro user floor found
        simp at found
      split
      · next positive =>
          have raised := empty.raiseVersion (claimed_known sound clear ingested read positive)
          have zero : max (0 : UInt64) signed.stateChange.signerLogVersion =
              signed.stateChange.signerLogVersion := max_eq_right UInt64.zero_le
          rw [raiseVersion, Std.ExtTreeMap.getElem?_empty, Option.getD_none, zero] at raised
          exact raised
      · exact empty
  | some before =>
      obtain ⟨signed, changed, read, -, changes, rfl⟩ := applyWith_some applied
      refine Reached.raiseFloors ?_ (marks signed read before rfl)
        (claimed_known sound clear ingested read)
      rw [(applyChange_effect changes).sameVersions]
      exact floors before rfl

/-! ## Whole runs -/

/-- What happens at a client: it learns of device logs, or takes in an entry. -/
inductive Action
  | learn (logs : Logs)
  | ingest (entry : GroupStateEntry) (hint : Option String)

/-- The device logs and the state of the group, if there is one. -/
abbrev Client := Logs × Option GroupState

/-- One step of a client. -/
def ClientStep (library : Library) (group : Ref) (before : Client) :
    Action -> Client -> Prop
  | .learn logs, after => after = (logs, before.2)
  | .ingest entry hint, after =>
      ∃ next, ingestEntry library before.1 group hint before.2 entry = .ok next ∧
        after = (before.1, some next)

/-- No log is replaced by a shorter one; the signers of entries are clear, and the marks
that they bring are known. -/
def CarefulAction (library : Library) (before : Client) : Action -> Prop
  | .learn logs => before.1.Grows logs ∧ logs.Sound library
  | .ingest entry _ =>
      SignerClear library before.1 entry ∧ EntryMarksKnown library before.1 before.2 entry

/-- A page is taken in entry by entry. -/
theorem run_of_groupIngestHinted {group : Ref} {state final : Option GroupState}
    {entries : List (GroupStateEntry × Option String)}
    (ingested : groupIngestHinted library logs group state entries = .ok final) :
    Run (ClientStep library group) (logs, state)
      (entries.map fun entry => .ingest entry.1 entry.2) (logs, final) := by
  induction entries generalizing state with
  | nil =>
      cases ingested
      exact .nil _
  | cons entry entries inductionHypothesis =>
      simp only [groupIngestHinted, List.foldlM_cons, bind_eq_ok, pure, Except.pure,
        Except.ok.injEq] at ingested
      obtain ⟨_, ⟨next, first, rfl⟩, rest⟩ := ingested
      exact .cons ⟨next, first, rfl⟩ (inductionHypothesis rest)

/-- In a run whose steps are careful, floors stay within the known logs. -/
theorem floors_known
    (library : Library)
    (group : Ref)
    (logs : Logs)
    (actions : List Action)
    (final : Client)
    (state : GroupState)
    (user : String)
    (floor : UInt64)
    (sound : logs.Sound library)
    (run : Run (fun before action after =>
      ClientStep library group before action after ∧ CarefulAction library before action)
      (logs, none) actions final)
    (isState : final.2 = some state)
    (isFloor : state.signerVersions[user]? = some floor) :
    final.1.Knows user floor.toNat := by
  have kept : final.1.Sound library ∧ FloorsKnown final.1 final.2 := by
    refine @Run.invariant _ _ _ (fun client : Client => client.1.Sound library ∧
      FloorsKnown client.1 client.2) _ _ _ run ?_ ⟨sound, fun _ => by simp⟩
    rintro ⟨before, state⟩ after action - ⟨step, careful⟩ ⟨sound, floors⟩
    cases action with
    | learn logs =>
        cases step
        exact ⟨careful.2, fun known isKnown user floor found =>
          careful.1 user _ (floors known isKnown user floor found)⟩
    | ingest entry hint =>
        obtain ⟨next, ingested, rfl⟩ := step
        exact ⟨sound, floors.ingest sound careful.1 careful.2 ingested⟩
  exact kept.2 state isState user floor isFloor

/-! ## Pages -/

/-- The state satisfies the invariant, belongs to the group, and continues the log that was
held before. -/
def Kept (group : Ref) (held : Option GroupState) (client : Client) : Prop :=
  (∀ state ∈ client.2, Invariant state ∧ state.group.id = group.id) ∧
    ∀ before ∈ held, ∃ state ∈ client.2, before.hashes <+: state.hashes

theorem Kept.step {group : Ref} {held : Option GroupState} {before after : Client} {action : Action}
    (kept : Kept group held before)
    (step : ClientStep library group before action after) : Kept group held after := by
  cases action with
  | learn logs =>
      cases step
      exact kept
  | ingest entry hint =>
      obtain ⟨logs, state⟩ := before
      obtain ⟨next, ingested, rfl⟩ := step
      obtain ⟨-, -, -, applied⟩ := ingestEntry_spec ingested
      have isGroup : next.group.id = group.id := by
        simp only [ingestEntry, bind_eq_ok, liftProto_eq_ok] at ingested
        obtain ⟨_, -, _, -, _, -, _, -, ingested⟩ := ingested
        split at ingested
        · cases ingested
        · simp only [bind_eq_ok, liftProto_eq_ok, require_eq_ok, beq_iff_eq, pure, Except.pure,
            Except.ok.injEq] at ingested
          obtain ⟨_, -, _, same, rfl⟩ := ingested
          exact same
      cases state with
      | none =>
          simp only [applyWith, bind_eq_ok] at applied
          obtain ⟨_, -, created⟩ := applied
          refine ⟨?_, fun old isOld => ?_⟩
          · rintro _ ⟨⟩
            exact ⟨(applyGenesis_spec created).1, isGroup⟩
          · obtain ⟨_, missing, -⟩ := kept.2 old isOld
            cases missing
      | some known =>
          obtain ⟨signed, changed, read, -, changes, isNext⟩ := applyWith_some applied
          have invariant := (step_of_applyWith read applied).invariant (kept.1 known rfl).1
          refine ⟨?_, fun old isOld => ⟨next, rfl, ?_⟩⟩
          · rintro _ ⟨⟩
            exact ⟨invariant, isGroup⟩
          · obtain ⟨_, ⟨⟩, isPrefix⟩ := kept.2 old isOld
            rw [isNext, GroupState.place, (applyChange_effect changes).sameLog.1]
            exact isPrefix.trans (List.prefix_append _ _)

/-- Whatever entries a client was given and whatever logs it learned of, a page that it takes in
gives a state of the group that satisfies the invariant and continues the log it had. -/
theorem page_extends_log
    (library : Library) (group : Ref) (logs : Logs) (actions : List Action) (client : Client)
    (entries : List (GroupStateEntry × Option String))
    (final : Option GroupState)
    (run : Run (ClientStep library group) (logs, none) actions client)
    (ingested : groupIngestHinted library client.1 group client.2 entries = .ok final) :
    (∀ state ∈ final, Invariant state ∧ state.group.id = group.id) ∧
      ∀ before ∈ client.2, ∃ state ∈ final, before.hashes <+: state.hashes := by
  have kept : Kept group none client :=
    run.invariant (fun _ _ _ _ step kept => Kept.step kept step) ⟨by simp, by simp⟩
  exact @Run.invariant _ _ _ (Kept group client.2) _ _ _ (run_of_groupIngestHinted ingested)
    (fun _ _ _ _ step kept => Kept.step kept step)
    ⟨kept.1, fun before isBefore => ⟨before, isBefore, List.prefix_rfl⟩⟩

/-! ## A sample -/

/-- The user with the given number. -/
def sampleUser (number : UInt8) : String := if number = 1 then "a@x.org" else "b@x.org"

/-- An entry of the device log of a user: the first one, then the one of the device. -/
def sampleLogOp (user version : UInt8) : SignedOp :=
  ⟨[9, user, version], List.replicate 64 0, sampleKey user⟩

def sampleLogEntry (user version : UInt8) : UserDeviceLogEntry where
  user := some ⟨sampleUser user⟩
  version := UInt64.ofNat version.toNat
  prevHash :=
    if version = 1 then zeroKey.bytes
    else (sampleHash (deviceLogHashContext ++ [9, user, 1] ++ List.replicate 64 0)).bytes
  change := some
    (if version = 1 then .rotateSelfSigningKey ⟨sampleKey user, List.replicate 64 0⟩
    else .addDevice
      ⟨[user], List.replicate 64 0, sampleKey user, List.replicate 64 0, sampleKey user⟩)
  rootKey := if version = 1 then sampleKey user else []
  signOut := false
  renamedFrom := ""

/-- The owner makes the other user an administrator, who then marks the owner. -/
def floorsChange (number : Nat) : Change :=
  if number = 1 then sampleCreate
  else if number = 2 then .setRole ⟨some ⟨"b@x.org"⟩, 2, some { changeInfo := true, banUsers := true }⟩
  else .setInfo ⟨"", "", "", []⟩

/-- Entries refer to the second version of the device logs. -/
def floorsLibrary : Library :=
  { sampleLibrary floorsChange with
    decodeOpBody := fun body =>
      if body.head? = some 9 then .ok
        { header := some
            { domain := deviceLogDomain, opType := deviceLogOp, opId := List.replicate 16 112
              target := none, audience := [], tsMs := 0 }
          payload := body }
      else (sampleLibrary floorsChange).decodeOpBody body
    decodeDeviceLogEntry := fun payload =>
      .ok (sampleLogEntry (payload.getD 1 0) (payload.getD 2 0))
    decodeDeviceCertificate := fun bytes => .ok
      { user := some ⟨sampleUser (bytes.getD 0 0)⟩
        deviceId := "d"
        olmCurve25519 := sampleKey (bytes.getD 0 0)
        olmEd25519 := sampleKey (bytes.getD 0 0)
        hpkeX25519 := sampleKey (bytes.getD 0 0)
        features := []
        serial := 1
        possessionSignature := List.replicate 64 0 }
    decodeStateChange := fun body =>
      ((sampleLibrary floorsChange).decodeStateChange body).map fun stateChange =>
        { stateChange with
          signerLogVersion := 2
          floors := if sampleNumber body = 3 then [⟨"a@x.org", 1000⟩] else [] } }

def sampleDeviceLog (user : UInt8) : DeviceLog :=
  DeviceLog.replay floorsLibrary.toIdentity [sampleLogOp user 1, sampleLogOp user 2]
    { user := sampleUser user }

/-- The client of the owner. -/
def floorsLogs : Logs where
  user := "a@x.org"
  ownLog := sampleDeviceLog 1
  formerOwn := []
  peers := (∅ : Std.ExtTreeMap String DeviceLog).insert "b@x.org" (sampleDeviceLog 2)

theorem floorsLogs_sound : floorsLogs.Sound floorsLibrary := by
  intro log isFormer
  cases isFormer

/-- What the client holds after some entries. -/
def floorsAfter (entries : List GroupStateEntry) : Except ClientError (Option GroupState) :=
  groupIngestHinted floorsLibrary floorsLogs sampleGroup none (entries.map fun entry => (entry, none))

def errorOf (result : Except ε α) : Option ε :=
  match result with
  | .error error => some error
  | .ok _ => none

theorem floors_known_sample :
    ∃ state, ingestEntry floorsLibrary floorsLogs sampleGroup none none (sampleEntry 1 1) =
        .ok state ∧
      state.signerVersions["a@x.org"]? = some 2 ∧ floorsLogs.Knows "a@x.org" 2 := by
  obtain ⟨state, ingested⟩ := exists_of_isOk (show (ingestEntry floorsLibrary floorsLogs sampleGroup
    none none (sampleEntry 1 1)).isOk = true by decide +kernel)
  have floor : (ingestEntry floorsLibrary floorsLogs sampleGroup none none
      (sampleEntry 1 1)).toOption.map (fun state => state.signerVersions["a@x.org"]?) =
      some (some 2) := by
    decide +kernel
  rw [ingested] at floor
  have isFloor : state.signerVersions["a@x.org"]? = some 2 := Option.some.inj floor
  have clear : SignerClear floorsLibrary floorsLogs (sampleEntry 1 1) := by
    refine .inr fun key isKey => ?_
    have single : ((sampleEntry 1 1).change.bind fun op => FixedBytes.ofBytes? 32 op.signerKey).all
        (fun key => decide ((floorsLogs.holders key).length ≤ 1)) = true := by
      decide +kernel
    rw [isKey] at single
    simpa using single
  refine ⟨state, ingested, isFloor, ?_⟩
  exact floors_known floorsLibrary sampleGroup floorsLogs [.ingest (sampleEntry 1 1) none]
    (floorsLogs, some state) state "a@x.org" 2 floorsLogs_sound
    (.cons ⟨⟨state, ingested, rfl⟩, clear, fun _ _ _ isKnown => by cases isKnown⟩ (.nil _))
    rfl isFloor

/-- The owner makes the other user an administrator. -/
theorem page_extends_log_sample :
    ∃ state, floorsAfter [sampleEntry 1 1, sampleEntry 2 1] = .ok (some state) ∧
      state.group.id = sampleGroup.id := by
  have accepted : ((floorsAfter [sampleEntry 1 1, sampleEntry 2 1]).toOption.bind id).isSome := by
    decide +kernel
  obtain ⟨state, isState⟩ := Option.isSome_iff_exists.1 accepted
  obtain ⟨_, ingested, rfl⟩ := Option.bind_eq_some_iff.1 isState
  have page := eq_ok_of_toOption ingested
  exact ⟨state, page, ((page_extends_log floorsLibrary sampleGroup floorsLogs [] (floorsLogs, none)
    _ _ (.nil _) page).1 state rfl).2⟩

/-- The mark of the administrator is beyond the log of the owner; the next entry of the
owner is refused. -/
theorem mark_locks_owner_out :
    (DeviceLog.eventsOf floorsLibrary.toIdentity [sampleLogOp 1 1, sampleLogOp 1 2]
        { user := "a@x.org" }).isSome = true ∧
      (DeviceLog.eventsOf floorsLibrary.toIdentity [sampleLogOp 2 1, sampleLogOp 2 2]
        { user := "b@x.org" }).isSome = true ∧
      (floorsAfter [sampleEntry 1 1, sampleEntry 2 1, sampleEntry 3 2]).toOption.bind
          (fun found => found.map fun state => (state.owner, state.signerVersions["a@x.org"]?)) =
        some ("a@x.org", some 1000) ∧
      ¬ floorsLogs.Knows "a@x.org" 1000 ∧
      errorOf (floorsAfter [sampleEntry 1 1, sampleEntry 2 1, sampleEntry 3 2, sampleEntry 4 1]) =
        some (.proto .forbidden) := by
  refine ⟨by decide +kernel, by decide +kernel, by decide +kernel, ?_, by decide +kernel⟩
  have version : floorsLogs.logVersion "a@x.org" = 2 := by decide +kernel
  rintro (reaches | ⟨log, isFormer, -⟩)
  · rw [version] at reaches
    omega
  · cases isFormer

end Parvane.Group
