import Parvane.Engine.Rekeying
import Parvane.Engine.Signing

/-!
# Changes of the address

A user goes on under another address.  The device that changed it prepared the entries;
the other devices of the user follow, and others link the two logs.  What is kept under
the old address goes over to the new one.
-/

namespace Parvane.Engine

open Wire Sign Identity Parvane.Group Fallible

/-- The entries that a change of the address needs: the last one of the old log, and the
first ones of the new log. -/
structure RenamePlan where
  newAddress : String
  rename : SignedOp
  newLog : List SignedOp

section

variable (library : Library)

/-- Apply entries to a copy of a log. -/
def appliedLog (entries : List SignedOp) (log : DeviceLog) : Result DeviceLog :=
  let ran := (applyEntries library entries).exec log
  ran.1.map fun _ => ran.2

/-- The certificate of this device in the new log, as it was signed. -/
def planCertificate (client : Client) (plan : RenamePlan) (log : DeviceLog) :
    Result SignedDeviceCertificate := do
  let device ← present (log.active client.deviceId) .badCertificate
  present
    ((plan.newLog.filterMap (addedCertificate library)).find?
      (certifies library plan.newAddress device.cert))
    .badCertificate

/-- The state under another own address.  The log of the former one is kept. -/
def changeAddress (new : String) (log former : DeviceLog) (entries formerEntries : List SignedOp)
    (client : Client) : Client :=
  { client with
    formerOwn := client.formerOwn ++ [(formerEntries, former)]
    user := new
    ownLog := log
    ownEntries := entries
    megolmOut := ∅
    megolmShared := ∅ }

/-- The server accepted the change of the address. -/
def renameApply (plan : RenamePlan) : Act Unit := do
  let client ← get
  let former ← liftProto (appliedLog library [plan.rename] client.ownLog)
  let empty ← liftProto (DeviceLog.new plan.newAddress)
  let log ← liftProto (appliedLog library plan.newLog empty)
  let signed ← liftProto (planCertificate library client plan log)
  modify fun client =>
    movePeerKeys client.user plan.newAddress
      { changeAddress plan.newAddress log former plan.newLog (client.ownEntries ++ [plan.rename])
          client with
        myCert := some signed }

/-- The new address, which the own log names, and its log. -/
def followedLog (client : Client) (entries : List SignedOp) : Result (String × DeviceLog) := do
  let new ← present client.ownLog.renamedTo .notFound
  let expected ← present client.ownLog.renameGenesis .notFound
  require (entries.head?.map (DeviceLog.deviceLogHash library.toIdentity) == some expected)
    .brokenChain
  let empty ← DeviceLog.new new
  let log ← appliedLog library entries empty
  require (log.rootKey == client.ownLog.rootKey && log.renamedFrom == some client.user)
    .rootMismatch
  return (new, log)

/-- Go on under the new address, whose log may have been read as that of another user. -/
def followAddress (new : String) (log : DeviceLog) (entries : List SignedOp) (client : Client) :
    Client :=
  let changed := changeAddress new log client.ownLog entries client.ownEntries client
  movePeerKeys client.user new { changed with peers := changed.peers.erase new }

end

section

variable (library : SendingLibrary)

def OutRequest.isPublishCertificate : OutRequest -> Bool
  | .publishCertificate .. => true
  | _ => false

/-- Another device of the user changed the address. -/
def renameFollow (entries : List SignedOp) : Act (List OutRequest) := do
  let (new, log) ← liftProto (followedLog library.toOpening (← get) entries)
  modify (followAddress new log entries)
  let client ← get
  if (client.ownLog.active client.deviceId).isNone then
    let requests ← certifySelfRequests library 0 none
    return requests.filter OutRequest.isPublishCertificate
  else
    modify (refreshOwnAfterLog library.toOpening)
    return []

end

/-! ## Enhanced privacy -/

/-- An accepted change of the address of the user or of another one, from the old to the
new address. -/
inductive Renames (library : SendingLibrary) (client : Client) : String -> String -> Client -> Prop
  | applied
      (plan : RenamePlan)
      (later : Client)
      (ran : exec (renameApply library.toOpening plan) client = (.ok (), later)) :
      Renames library client client.user plan.newAddress later
  | followed
      (entries : List SignedOp)
      (new : String)
      (log : DeviceLog)
      (accepted : followedLog library.toOpening client entries = .ok (new, log)) :
      Renames library client client.user new (exec (renameFollow library entries) client).2
  | linked
      (user old : String)
      (entries : List SignedOp)
      (later : Client)
      (ran : exec (ingestLog library.toOpening user entries) client = (.ok .renamed, later))
      (continues : (later.peerLog user).bind DeviceLog.renamedFrom = some old) :
      Renames library client old user later

/-- The address of a chat after a change. -/
def movedChat (old new chat : String) : String :=
  if chat = old then new else chat

/-- The chats that had to be padded still have to be, and what the peer wanted under the old
address counts under the new one. -/
structure KeepsPrivacy (client : Client) (old new : String) (later : Client) : Prop where
  pads : ∀ chat, client.directMustPad chat = true ->
    later.directMustPad (movedChat old new chat) = true
  wants : ∀ (state : DirectL2) (pref : L2Pref), client.l2Direct[old]? = some state ->
    state.prefs[old]? = some pref ->
    ∃ moved : DirectL2, later.l2Direct[new]? = some moved ∧ moved.pref new = pref

/-- The preferences that are kept for a chat: those that were there under the new address, or
else those under the old one. -/
def keptL2 (client : Client) (old new chat : String) (state : DirectL2) : DirectL2 :=
  if chat = old then (client.l2Direct[new]? : Option DirectL2).getD state else state

/-- The preferences that are kept name those under the new addresses who wanted something
under the old ones. -/
structure NamesNew (client : Client) (old new me : String) : Prop where
  own : ∀ (chat : String) (state : DirectL2), client.l2Direct[chat]? = some state ->
    (state.pref client.user).enabled = true ->
    ((keptL2 client old new chat state).pref me).enabled = true ∨
      ((keptL2 client old new chat state).pref (movedChat old new chat)).enabled = true
  peer : ∀ (state : DirectL2) (pref : L2Pref), client.l2Direct[old]? = some state ->
    state.prefs[old]? = some pref -> (keptL2 client old new old state).pref new = pref

section

variable {client later : Client} {old new : String}

theorem getElem?_moveL2 {chats : Std.ExtTreeMap String DirectL2} {chat : String} {state : DirectL2}
    (found : chats[chat]? = some state) :
    ((moveL2 old new chats)[movedChat old new chat]? : Option DirectL2) =
      some (if chat = old then (chats[new]? : Option DirectL2).getD state else state) := by
  by_cases isOld : chat = old
  · subst isOld
    rw [moveL2, found, movedChat, if_pos rfl, if_pos rfl]
    dsimp only
    rw [Std.ExtTreeMap.getElem?_insertIfNew, Std.ExtTreeMap.getElem?_erase]
    by_cases same : chat = new
    · subst same
      simp [found]
    · cases there : (chats[new]? : Option DirectL2) with
      | none => simp [same, Std.ExtTreeMap.mem_iff_isSome_getElem?, there]
      | some other => simp [same, Std.ExtTreeMap.mem_iff_isSome_getElem?, there]
  · rw [movedChat, if_neg isOld, if_neg isOld, moveL2]
    split
    · exact found
    · have kept : ((chats.erase old)[chat]? : Option DirectL2) = some state := by
        rw [Std.ExtTreeMap.getElem?_erase, if_neg (by simpa using Ne.symm isOld), found]
      rw [Std.ExtTreeMap.getElem?_insertIfNew, if_neg, kept]
      rintro ⟨same, absent⟩
      rw [Std.LawfulEqCmp.compare_eq_iff_eq] at same
      subst same
      exact absent (Std.ExtTreeMap.mem_iff_isSome_getElem?.2 (by rw [kept]; rfl))

theorem keepsPrivacy_iff
    (moved : later.l2Direct = moveL2 old new client.l2Direct) :
    KeepsPrivacy client old new later ↔ NamesNew client old new later.user := by
  have kept {chat : String} {state : DirectL2} (found : client.l2Direct[chat]? = some state) :
      later.l2Direct[movedChat old new chat]? = some (keptL2 client old new chat state) := by
    rw [moved]
    exact getElem?_moveL2 found
  have pads {chat : String} {state : DirectL2} (found : client.l2Direct[chat]? = some state) :
      later.directMustPad (movedChat old new chat) =
        (((keptL2 client old new chat state).pref later.user).enabled ||
          ((keptL2 client old new chat state).pref (movedChat old new chat)).enabled) := by
    rw [Client.directMustPad, kept found, Option.any_some, DirectL2.mustPad_eq]
  have newChat : movedChat old new old = new := if_pos rfl
  constructor
  · intro keeps
    refine ⟨fun chat state found enabled => ?_, fun state pref found wanted => ?_⟩
    · have padded : client.directMustPad chat = true := by
        rw [Client.directMustPad, found, Option.any_some, DirectL2.mustPad_eq, enabled,
          Bool.true_or]
      have still := keeps.pads chat padded
      rwa [pads found, Bool.or_eq_true] at still
    · obtain ⟨state', found', same⟩ := keeps.wants state pref found wanted
      have there := kept found
      rw [newChat, found'] at there
      cases there
      exact same
  · intro names
    refine ⟨fun chat padded => ?_, fun state pref found wanted => ?_⟩
    · rw [Client.directMustPad, Option.any_eq_true] at padded
      obtain ⟨state, found, padded⟩ := padded
      rw [DirectL2.mustPad_eq, Bool.or_eq_true] at padded
      rw [pads found, Bool.or_eq_true]
      rcases padded with own | peer
      · exact names.own chat state found own
      · right
        by_cases isOld : chat = old
        · subst isOld
          cases recorded : (state.prefs[chat]? : Option L2Pref) with
          | none =>
              rw [L2State.pref, recorded] at peer
              cases peer
          | some pref =>
              rw [newChat, names.peer state pref found recorded]
              rwa [L2State.pref_of_recorded recorded] at peer
        · rw [keptL2, if_neg isOld, movedChat, if_neg isOld]
          exact peer
    · refine ⟨keptL2 client old new old state, ?_, names.peer state pref found wanted⟩
      have there := kept found
      rwa [newChat] at there

/-- The parts of the state on which the privacy of chats depends. -/
def Client.privacy (client : Client) : String × Std.ExtTreeMap String DirectL2 :=
  (client.user, client.l2Direct)

theorem keeps_applyOwnEntry (library : Library) (op : SignedOp) :
    Keeps Client.privacy (applyOwnEntry library op) :=
  keeps_bind (keeps_modifyGet fun _ => rfl) fun _ =>
    keeps_bind (keeps_liftM _) fun _ => keeps_modify fun _ => rfl

theorem keeps_certifySelfRequests
    (library : SendingLibrary) (count : Nat) (genesis : Option SignedOp) :
    Keeps Client.privacy (certifySelfRequests library count genesis) := by
  have body : Keeps Client.privacy (myCertificateBody library) :=
    keeps_bind (keeps_modify fun _ => rfl) fun _ =>
      keeps_bind (keeps_bind (keeps_modifyGet fun _ => rfl) fun _ => keeps_pure _) fun _ =>
        keeps_bind keeps_get fun _ => keeps_pure _
  have signed (signer : Signer) (entry : UserDeviceLogEntry) :
      Keeps Client.privacy (signDeviceLogEntry library signer entry) :=
    keeps_bind (keeps_bind (keeps_modifyGet fun _ => rfl) fun _ => keeps_pure _) fun _ =>
      keeps_bind (keeps_bind (keeps_modifyGet fun _ => rfl) fun _ => keeps_pure _) fun _ =>
        keeps_liftM _
  refine keeps_bind keeps_get fun _ => keeps_bind (keeps_liftM _) fun ssk =>
    keeps_bind body fun made => keeps_bind keeps_get fun client =>
    keeps_bind (keeps_liftM _) fun cert => keeps_bind (keeps_liftM _) fun rootSig =>
    keeps_bind (signed _ _) fun op => keeps_bind (keeps_applyOwnEntry _ op) fun _ =>
    keeps_bind (keeps_modify fun _ => rfl) fun _ => keeps_bind (keeps_modifyGet fun _ => rfl) fun _ =>
    keeps_bind keeps_get fun _ => keeps_pure _

theorem privacy_renameFollow {library : SendingLibrary} {entries : List SignedOp} {log : DeviceLog}
    (accepted : followedLog library.toOpening client entries = .ok (new, log)) :
    (exec (renameFollow library entries) client).2.privacy =
      (new, moveL2 client.user new client.l2Direct) := by
  have followed : Keeps Client.privacy (do
      let client ← get
      if (client.ownLog.active client.deviceId).isNone then
        let requests ← certifySelfRequests library 0 none
        return requests.filter OutRequest.isPublishCertificate
      else
        modify (refreshOwnAfterLog library.toOpening)
        return [] : Act (List OutRequest)) := by
    refine keeps_bind keeps_get fun client => .ite ?_ ?_
    · exact keeps_bind (keeps_certifySelfRequests library 0 none) fun _ => keeps_pure _
    · refine keeps_bind (keeps_modify fun client => ?_) fun _ => keeps_pure _
      obtain ⟨ssk, serial, cert, refreshed⟩ := refreshOwnAfterLog_eq library.toOpening client
      rw [refreshed]
      rfl
  rw [renameFollow, exec_get_bind, accepted]
  exact followed (followAddress new log entries client)

theorem privacy_renameApply {library : Library} {plan : RenamePlan}
    (ran : exec (renameApply library plan) client = (.ok (), later)) :
    later.privacy = (plan.newAddress, moveL2 client.user plan.newAddress client.l2Direct) := by
  rw [renameApply, exec_get_bind] at ran
  obtain ⟨former, _, ran⟩ := exec_check_eq_ok.1 ran
  obtain ⟨empty, _, ran⟩ := exec_check_eq_ok.1 ran
  obtain ⟨log, _, ran⟩ := exec_check_eq_ok.1 ran
  obtain ⟨signed, _, ran⟩ := exec_check_eq_ok.1 ran
  cases ran
  rfl

theorem privacy_foldl_rekeyGroup (groups : List (Bytes × Nat)) (client : Client) :
    (groups.foldl rekeyGroup client).privacy = client.privacy := by
  obtain ⟨out, shared, rekey, same⟩ := foldl_rekeyGroup_eq groups client
  rw [same]
  rfl

theorem keeps_pinHead (library : Library) (user : String) (entries : List SignedOp)
    (log : DeviceLog) : Keeps Client.privacy (pinHead library user entries log) :=
  keeps_bind keeps_get fun _ => keeps_bind (keeps_modify fun _ => rfl) fun _ =>
    keeps_bind (keeps_liftM _) fun _ => keeps_bind (keeps_modify fun _ => rfl) fun _ => keeps_pure _

theorem renamedFrom_of_renameLink {library : Library} {user : String}
    (linked : renameLink library client user = some old) :
    ((client.peers[user]? : Option Peer).bind Peer.log).bind DeviceLog.renamedFrom = some old := by
  rw [renameLink] at linked
  obtain ⟨peer, found, linked⟩ := Option.bind_eq_some_iff.1 linked
  obtain ⟨log, logEq, linked⟩ := Option.bind_eq_some_iff.1 linked
  obtain ⟨former, formerEq, linked⟩ := Option.bind_eq_some_iff.1 linked
  obtain ⟨first, firstEq, linked⟩ := Option.bind_eq_some_iff.1 linked
  obtain ⟨formerPeer, formerFound, linked⟩ := Option.bind_eq_some_iff.1 linked
  obtain ⟨oldLog, oldEq, linked⟩ := Option.bind_eq_some_iff.1 linked
  split at linked
  · cases linked
    rw [found, Option.bind_some, logEq, Option.bind_some, formerEq]
  · cases linked

/-- Linking a log moves what is kept from the address that it continues. -/
theorem privacy_linkPeerRename {library : Library} {user : String}
    (linked : (linkPeerRename library user client).1.isSome = true) :
    ∃ old,
      ((client.peers[user]? : Option Peer).bind Peer.log).bind DeviceLog.renamedFrom = some old ∧
        (linkPeerRename library user client).2.l2Direct = moveL2 old user client.l2Direct := by
  unfold linkPeerRename at linked ⊢
  split at linked
  · cases linked
  · rename_i old found
    refine ⟨old, renamedFrom_of_renameLink found, ?_⟩
    dsimp only at linked ⊢
    split
    · rfl
    · rfl

/-- A log is accepted as a continuation when it is linked with the one of the old address. -/
theorem linked_of_acceptLog
    (client : Client)
    {library : Library} {user : String} {peer : Peer} {entries : List SignedOp} {log : DeviceLog}
    {verdict : LogVerdict} (isOther : user ≠ client.user)
    (ran : exec (acceptLog library user peer entries log verdict) client = (.ok .renamed, later))
    (notRenamed : verdict ≠ .renamed) :
    later.user = client.user ∧
      ∃ old, (later.peerLog user).bind DeviceLog.renamedFrom = some old ∧
        later.l2Direct = moveL2 old user client.l2Direct := by
  obtain ⟨sameUser, -, -⟩ := replaceLog_spec isOther peer entries log
  have sameChats : (replaceLog user peer entries log client).l2Direct = client.l2Direct := by
    unfold replaceLog
    dsimp only
    split
    · exact congrArg Prod.snd (privacy_foldl_rekeyGroup _ _)
    · rfl
  rw [acceptLog, exec_modify_bind] at ran
  revert sameUser sameChats ran
  generalize replaceLog user peer entries log client = replaced
  intro ran sameUser sameChats
  dsimp only at ran
  split at ran
  · cases ran
  · split at ran
    · rw [exec_modifyGet_bind] at ran
      split at ran
      · rename_i linked
        cases ran
        obtain ⟨old, continues, moved⟩ := privacy_linkPeerRename linked
        refine ⟨(user_linkPeerRename library user).trans sameUser, old, ?_, ?_⟩
        · rw [peerLog_linkPeerRename, Client.peerLog, sameUser, if_neg isOther]
          exact continues
        · rw [moved, sameChats]
      · cases ran
        exact absurd rfl notRenamed
    · cases ran
      exact absurd rfl notRenamed

theorem linked_of_ingestLog {library : Library} {user : String} {entries : List SignedOp}
    (ran : exec (ingestLog library user entries) client = (.ok .renamed, later)) :
    later.user = client.user ∧
      ∃ old, (later.peerLog user).bind DeviceLog.renamedFrom = some old ∧
        later.l2Direct = moveL2 old user client.l2Direct := by
  rw [ingestLog, exec_get_bind] at ran
  split at ran
  · rw [ingestOwnLog, exec_get_bind] at ran
    obtain ⟨_, applied, -, ran⟩ := exec_bind_eq_ok.1 ran
    rw [exec_get_bind] at ran
    dsimp only at ran
    split at ran
    · cases ran
    · rw [exec_modify_bind, exec_get_bind] at ran
      split at ran <;> cases ran
  · rename_i isOther
    rw [ingestPeerLog, exec_get_bind] at ran
    obtain ⟨log, -, ran⟩ := exec_check_eq_ok.1 ran
    split at ran
    · cases ran
    · obtain ⟨peer, pinned, head, ran⟩ := exec_bind_eq_ok.1 ran
      have kept := keeps_pinHead library user entries log client
      rw [head] at kept
      obtain ⟨sameUser, sameChats⟩ := Prod.mk.inj kept
      rw [exec_modifyGet_bind] at ran
      dsimp only at ran sameUser sameChats
      have isOther : user ≠ pinned.user := fun same => isOther (same.trans sameUser)
      rw [← sameUser, ← sameChats]
      generalize (observe pinned.trust user log.rootKey).2 = trust at ran
      have linked {verdict : LogVerdict} (notRenamed : verdict ≠ .renamed)
          (ran : exec (acceptLog library user peer entries log verdict)
            { pinned with trust := trust } = (.ok .renamed, later)) :=
        linked_of_acceptLog { pinned with trust := trust } isOther ran notRenamed
      split at ran
      · exact linked (by decide) ran
      · exact linked (by decide) ran
      · cases ran

end

/-- Nothing is signed or encrypted. -/
def plainLibrary : SendingLibrary :=
  { burnLibrary with
    sign := fun _ _ => ⟨List.replicate 64 0, rfl⟩
    accountKey := fun _ => sampleHashOf 1
    accountCurve := fun _ => sampleHashOf 1
    accountSign := fun _ _ => ⟨List.replicate 64 0, rfl⟩
    oneTimeKeys := fun acc _ => ([], acc)
    fallbackKey := fun acc => (none, acc)
    drawOpId := fun _ => List.replicate 16 112
    drawKey := fun reading => sampleHashOf (UInt8.ofNat reading)
    drawBytes := fun _ length => List.replicate length 0
    encodeOpBody := fun _ _ payload => payload
    encodeDeviceCertificate := fun cert _ => utf8 cert.deviceId
    encodeDeviceLogEntry := fun entry => entry.prevHash
    encodeStateChange := fun change => change.prevHash
    encodeContent := fun _ => []
    encodeSignedOp := fun op => op.body
    encodeSealedInner := fun inner => inner.olmMessage
    olmEncrypt := fun session plain => (.ok (1, plain), session)
    hpkeSeal := fun _ _ _ plain => .ok ([], plain)
    aeadSeal := fun _ _ _ plain => .ok plain }

/-- The first entry of the log under the new address. -/
def firstEntry : SignedOp := ⟨[], List.replicate 64 0, sampleKey 2⟩

/-- The second user goes on as the third one. -/
def formerPeer : Peer :=
  { log := some
      { sampleLog 2 with
        devices := ∅
        renamedTo := some "c@x.org"
        renameGenesis := some (DeviceLog.deviceLogHash burnLibrary.toIdentity firstEntry) } }

def laterPeer : Peer :=
  { entries := [firstEntry]
    log := some
      { sampleLog 3 with rootKey := sampleHashOf 2, renamedFrom := some "b@x.org" } }

/-- The first user knows both logs; in the chat with the second one the given user asked for
enhanced privacy. -/
def renamingClient (user : String) : Client :=
  { burnClient with
    peers := ((∅ : Std.ExtTreeMap String Peer).insert "b@x.org" formerPeer).insert "c@x.org"
      laterPeer
    l2Direct := (∅ : Std.ExtTreeMap String DirectL2).insert "b@x.org"
      (DirectL2.new.setPref user ⟨true, 1⟩) }

def renamedClient (user : String) : Client :=
  (exec (ingestLog burnLibrary "c@x.org" []) (renamingClient user)).2

theorem renames_sample {user : String}
    (ran : (exec (ingestLog burnLibrary "c@x.org" []) (renamingClient user)).1.toOption =
      some .renamed)
    (continues : ((renamedClient user).peerLog "c@x.org").bind DeviceLog.renamedFrom =
      some "b@x.org") :
    Renames plainLibrary (renamingClient user) "b@x.org" "c@x.org" (renamedClient user) := by
  refine .linked "c@x.org" "b@x.org" [] (renamedClient user) ?_ continues
  change exec (ingestLog burnLibrary "c@x.org" []) (renamingClient user) = _
  rw [renamedClient]
  generalize exec (ingestLog burnLibrary "c@x.org" []) (renamingClient user) = run at ran
  rcases run with ⟨error | verdict, later⟩
  · cases ran
  · cases ran
    rfl

end Parvane.Engine
