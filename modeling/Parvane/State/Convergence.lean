import Parvane.State.Apply
import Parvane.Foundation.Register

/-!
# Convergence of the personal state

An accepted operation writes to each part of the state independently of the
others, and whether it is accepted does not depend on the state.  So the final
state and the refused operations depend only on which operations were applied.
-/

namespace Parvane.State

open Wire Convergence

/-! ## Peer keys -/

theorem hexDigit_injective :
    ∀ first < 16, ∀ second < 16, hexDigit first = hexDigit second -> first = second := by
  decide

theorem hex_length (bytes : Bytes) : (hex bytes).length = 2 * bytes.length := by
  induction bytes with
  | nil => rfl
  | cons byte bytes inductionHypothesis =>
      simp only [hex, List.flatMap_cons, List.length_append, List.length_cons,
        List.length_nil] at inductionHypothesis ⊢
      omega

theorem hex_injective : Function.Injective hex := by
  intro first
  induction first with
  | nil =>
      intro second equal
      cases second with
      | nil => rfl
      | cons _ _ => cases equal
  | cons firstByte firstBytes inductionHypothesis =>
      intro second equal
      cases second with
      | nil => cases equal
      | cons secondByte secondBytes =>
          simp only [hex, List.flatMap_cons, List.cons_append, List.nil_append,
            List.cons.injEq] at equal
          obtain ⟨highEq, lowEq, restEq⟩ := equal
          have firstSmall := firstByte.toNat_lt
          have secondSmall := secondByte.toNat_lt
          have high := hexDigit_injective _ (by omega) _ (by omega) highEq
          have low := hexDigit_injective _ (by omega) _ (by omega) lowEq
          have bytesEq : firstByte = secondByte := by
            apply UInt8.toNat_inj.1
            omega
          rw [bytesEq, inductionHypothesis restEq]

theorem groupKey_injective {first second : Ref}
    (firstLength : first.id.length = refIdLen) (secondLength : second.id.length = refIdLen)
    (equal : "g:" ++ first.domain ++ ":" ++ String.ofList (hex first.id) =
      "g:" ++ second.domain ++ ":" ++ String.ofList (hex second.id)) : first = second := by
  have texts := congrArg String.toList equal
  simp only [String.toList_append, String.toList_ofList] at texts
  obtain ⟨domains, ids⟩ := List.append_inj' texts (by
    rw [hex_length, hex_length, firstLength, secondLength])
  have domainsEq := List.append_cancel_right domains
  have domainEq := List.append_cancel_left domainsEq
  exact Ref.ext (String.toList_inj.1 domainEq) (hex_injective ids)

theorem peerKey_eq_ok {peer : Peer} {key : String} :
    peerKey peer = .ok key ↔
      (∃ user, peer.kind = some (.user user) ∧
        checkUser user = .ok () ∧ "u:" ++ user.address = key) ∨
      (∃ ref, peer.kind = some (.group ref) ∧ checkRef ref = .ok () ∧
        "g:" ++ ref.domain ++ ":" ++ String.ofList (hex ref.id) = key) := by
  unfold peerKey
  rcases peer.kind with _ | user | ref
  · simp
  · simp [pure, Except.pure, Unique.exists_iff]
  · simp [pure, Except.pure, Unique.exists_iff]

/-- The key of a peer determines the peer. -/
theorem peerKey_injective {first second : Peer} {key : String}
    (firstKey : peerKey first = .ok key) (secondKey : peerKey second = .ok key) :
    first = second := by
  apply Peer.ext
  rcases peerKey_eq_ok.1 firstKey with
      ⟨firstUser, firstKind, -, firstEq⟩ | ⟨firstRef, firstKind, firstChecked, firstEq⟩ <;>
    rcases peerKey_eq_ok.1 secondKey with
      ⟨secondUser, secondKind, -, secondEq⟩ | ⟨secondRef, secondKind, secondChecked, secondEq⟩ <;>
    rw [firstKind, secondKind] <;>
    have equal := firstEq.trans secondEq.symm
  · have texts := congrArg String.toList equal
    simp only [String.toList_append] at texts
    have addresses := String.toList_inj.1 (List.append_cancel_left texts)
    rw [UserRef.ext addresses]
  · have texts := congrArg String.toList equal
    simp [String.toList_append] at texts
  · have texts := congrArg String.toList equal
    simp [String.toList_append] at texts
  · rw [groupKey_injective (length_of_checkRef firstChecked)
      (length_of_checkRef secondChecked) equal]

theorem optPeerKey_injective {first second : Option Peer} {key : String}
    (firstKey : optPeerKey first = .ok key) (secondKey : optPeerKey second = .ok key) :
    first = second := by
  simp only [optPeerKey, bind_eq_ok, present_eq_ok] at firstKey secondKey
  obtain ⟨firstPeer, rfl, firstKey⟩ := firstKey
  obtain ⟨secondPeer, rfl, secondKey⟩ := secondKey
  rw [peerKey_injective firstKey secondKey]

/-! ## Stamped writes -/

theorem put_eq_alter [Ord κ] [Std.TransOrd κ] [Std.LawfulEqOrd κ]
    (map : Std.ExtTreeMap κ (Lww ν))
    (key : κ) (stamp : Stamp) (value : Option ν) :
    put map key stamp value =
      map.alter key fun slot => keepGreatest Lww.stamp slot ⟨stamp, value⟩ := by
  classical
  apply Std.ExtTreeMap.ext_getElem?
  intro other
  rw [Std.ExtTreeMap.getElem?_alter]
  unfold put
  cases slot : map[key]? with
  | none =>
      rw [Std.ExtTreeMap.getElem?_insert]
      simp [keepGreatest]
  | some current =>
      by_cases newer : current.stamp < stamp
      · simp only [not_le.2 newer, if_false, Std.ExtTreeMap.getElem?_insert,
          keepGreatest_some, newer, if_true]
      · simp only [not_lt.1 newer, if_true, keepGreatest_some, newer, if_false]
        split
        · next same =>
            rw [← Std.LawfulEqOrd.compare_eq_iff_eq.1 same, slot]
        · rfl

theorem putReg_eq_keepGreatest
    (register : Option (Lww ν))
    (stamp : Stamp) (value : ν) :
    putReg register stamp value =
      keepGreatest Lww.stamp register ⟨stamp, some value⟩ := by
  cases register with
  | none => rfl
  | some current =>
      by_cases newer : current.stamp < stamp
      · simp [putReg, keepGreatest_some, newer, not_le.2 newer]
      · simp [putReg, keepGreatest_some, newer, not_lt.1 newer]

/-! ## What an operation writes -/

def foldersWrite : Op -> Option (UInt32 × Option Folder)
  | .folderSet folder => some (folder.id, some folder)
  | .folderRemove ref => some (ref.id, none)
  | _ => none

def folderOrderWrite : Op -> Option FolderOrder
  | .folderOrder order => some order
  | _ => none

def blockedWrite : Op -> Option (String × Option BlockEntry)
  | .blockSet entry => (optPeerKey entry.peer).toOption.map (·, some entry)
  | .blockRemove key => (optPeerKey key.peer).toOption.map (·, none)
  | _ => none

def notifyWrite : Op -> Option (String × Option PeerNotify)
  | .notifySet notify =>
      (optPeerKey notify.peer).toOption.map
        (·, some { notify with settings := some (notify.settings.getD .default) })
  | .notifyRemove key => (optPeerKey key.peer).toOption.map (·, none)
  | _ => none

def notifyDefaultsWrite : Op -> Option NotifyDefaults
  | .notifyDefaults defaults => some defaults
  | _ => none

def draftsWrite : Op -> Option (String × Option Draft)
  | .draftSet draft => (optPeerKey draft.peer).toOption.map (·, some draft)
  | .draftRemove key => (optPeerKey key.peer).toOption.map (·, none)
  | _ => none

def scheduledWrite : Op -> Option (OpId × Option ScheduledMessage)
  | .scheduledSet scheduled =>
      (FixedBytes.ofBytes? opIdLen scheduled.opId).map (·, some scheduled)
  | .scheduledRemove ref => (FixedBytes.ofBytes? opIdLen ref.opId).map (·, none)
  | _ => none

def scheduledSentWrite : Op -> Option OpId
  | .scheduledSent ref => FixedBytes.ofBytes? opIdLen ref.opId
  | _ => none

def archivedWrite : Op -> Option (String × Option Peer)
  | .archiveSet key => (optPeerKey key.peer).toOption.map (·, key.peer)
  | .archiveRemove key => (optPeerKey key.peer).toOption.map (·, none)
  | _ => none

def pinnedWrite : Op -> Option (Int32 × Option PinnedOrder)
  | .pinnedOrder order => some (order.list, some order)
  | _ => none

def callsWrite : Op -> Option (OpId × Option CallRecord)
  | .callSet record => (FixedBytes.ofBytes? opIdLen record.callId).map (·, some record)
  | .callRemove ref => (FixedBytes.ofBytes? opIdLen ref.callId).map (·, none)
  | _ => none

def clearedWrite : Op -> Option (String × ChatCleared)
  | .chatCleared cleared => (optPeerKey cleared.peer).toOption.map (·, cleared)
  | _ => none

def invitesWrite : Op -> Option (Bytes × Option GroupInvite)
  | .groupInviteSet invite => some (invite.linkId, some invite)
  | .groupInviteRemove ref => some (ref.linkId, none)
  | _ => none

def plannerContainerWrite : Op -> Option PlannerContainer
  | .plannerContainerSet container => some container
  | _ => none

def cloudContainersWrite : Op -> Option ((String ×ₗ Bytes) × Option CloudContainer)
  | .cloudContainerSet container =>
      container.ref.map fun ref => (toLex (ref.domain, ref.id), some container)
  | _ => none

def unreadMarksWrite : Op -> Option (String × Option Peer)
  | .unreadMarkSet key => (optPeerKey key.peer).toOption.map (·, key.peer)
  | .unreadMarkRemove key => (optPeerKey key.peer).toOption.map (·, none)
  | _ => none

def quickReactionWrite : Op -> Option QuickReaction
  | .quickReaction reaction => some reaction
  | _ => none

def stickerPacksWrite : Op -> Option (String × Option StickerPack)
  | .stickerPackSet pack => some (pack.setId, some pack)
  | .stickerPackRemove key => some (key.setId, none)
  | _ => none

/-- A write to a map of registers, if there is one. -/
def mapWrite [Ord κ] [Std.TransOrd κ]
    (map : Std.ExtTreeMap κ (Lww ν))
    (stamp : Stamp)
    (written : Option (κ × Option ν)) : Std.ExtTreeMap κ (Lww ν) :=
  match written with
  | none => map
  | some (key, value) => put map key stamp value

/-- A write to a register, if there is one. -/
def registerWrite
    (register : Option (Lww ν))
    (stamp : Stamp) (written : Option ν) : Option (Lww ν) :=
  match written with
  | none => register
  | some value => putReg register stamp value

/-- A sent mark, if there is one. -/
def sentWrite (sent : Std.ExtTreeSet OpId) (written : Option OpId) :
    Std.ExtTreeSet OpId :=
  match written with
  | none => sent
  | some id => sent.insert id

/-- A cleared mark, if there is one. -/
def clearedMark
    (cleared : Std.ExtTreeMap String ChatCleared)
    (written : Option (String × ChatCleared)) : Std.ExtTreeMap String ChatCleared :=
  match written with
  | none => cleared
  | some (key, value) =>
      match cleared[key]? with
      | some current =>
          if value.clearedUntilMs ≤ current.clearedUntilMs then cleared
          else cleared.insert key value
      | none => cleared.insert key value

/-- What an accepted operation of some kind does, part by part. -/
def writeKind (stamp : Stamp) (kind : Op) (state : PersonalState) : PersonalState where
  folders := mapWrite state.folders stamp (foldersWrite kind)
  folderOrder := registerWrite state.folderOrder stamp (folderOrderWrite kind)
  blocked := mapWrite state.blocked stamp (blockedWrite kind)
  notify := mapWrite state.notify stamp (notifyWrite kind)
  notifyDefaults := registerWrite state.notifyDefaults stamp (notifyDefaultsWrite kind)
  drafts := mapWrite state.drafts stamp (draftsWrite kind)
  scheduled := mapWrite state.scheduled stamp (scheduledWrite kind)
  scheduledSent := sentWrite state.scheduledSent (scheduledSentWrite kind)
  archived := mapWrite state.archived stamp (archivedWrite kind)
  pinned := mapWrite state.pinned stamp (pinnedWrite kind)
  calls := mapWrite state.calls stamp (callsWrite kind)
  cleared := clearedMark state.cleared (clearedWrite kind)
  invites := mapWrite state.invites stamp (invitesWrite kind)
  plannerContainer := registerWrite state.plannerContainer stamp (plannerContainerWrite kind)
  cloudContainers := mapWrite state.cloudContainers stamp (cloudContainersWrite kind)
  unreadMarks := mapWrite state.unreadMarks stamp (unreadMarksWrite kind)
  quickReaction := registerWrite state.quickReaction stamp (quickReactionWrite kind)
  stickerPacks := mapWrite state.stickerPacks stamp (stickerPacksWrite kind)
  maxLamport := state.maxLamport

/-- Whatever the state and the stamp, an operation of this kind is refused. -/
def Refused (kind : Op) : Prop :=
  ∃ error, ∀ stamp state, (applyKind stamp kind).exec state = (.error error, state)

/-- Whatever the state and the stamp, an operation of this kind is carried out. -/
def CarriedOut (kind : Op) : Prop :=
  ∀ stamp state,
    (applyKind stamp kind).exec state = (.ok (), writeKind stamp kind state)

theorem ofBytes?_of_opId16 {bytes : Bytes} {field : String} {id : OpId}
    (checked : opId16 bytes field = .ok id) : FixedBytes.ofBytes? opIdLen bytes = some id :=
  (present_eq_ok _ _ _).1 checked

theorem optPeerKey_of_peerKey
    {peer : Option Peer} {inner : Peer} {key : String} {error : ProtoError}
    (isPresent : present peer error = .ok inner) (checked : peerKey inner = .ok key) :
    optPeerKey peer = .ok key := by
  rw [present_eq_ok] at isPresent
  rw [isPresent]
  exact checked

theorem eq_of_pinList {list result : Int32}
    (checked : pinList list = .ok result) : result = list := by
  simp only [pinList, bind_eq_ok] at checked
  obtain ⟨_, -, returned⟩ := checked
  exact (Except.ok.inj returned).symm

theorem eq_of_linkId32 {bytes result : Bytes}
    (checked : linkId32 bytes = .ok result) : result = bytes := by
  simp only [linkId32, bind_eq_ok] at checked
  obtain ⟨_, -, returned⟩ := checked
  exact (Except.ok.inj returned).symm

theorem eq_of_packKey {setId result : String}
    (checked : packKey setId = .ok result) : result = setId := by
  simp only [packKey, bind_eq_ok] at checked
  obtain ⟨_, -, returned⟩ := checked
  exact (Except.ok.inj returned).symm

theorem eq_of_checkStickerPack {pack : StickerPack} {result : String}
    (checked : checkStickerPack pack = .ok result) : result = pack.setId := by
  simp only [checkStickerPack, bind_eq_ok] at checked
  obtain ⟨key, keyChecked, returned⟩ := checked
  rw [← eq_of_packKey keyChecked]
  cases archive : pack.ref with
  | none => simp [archive] at returned
  | some inner =>
      simp only [archive] at returned
      split at returned
      · cases returned
      · exact (Except.ok.inj returned).symm

/-- The outcome of a program is the same for all states: an error, or the change. -/
def Uniform
    (program : Stamp -> Update PersonalState Unit)
    (change : Stamp -> PersonalState -> PersonalState) : Prop :=
  (∃ error, ∀ stamp state, (program stamp).exec state = (.error error, state)) ∨
    ∀ stamp state, (program stamp).exec state = (.ok (), change stamp state)

theorem Uniform.check {check : Result α} {next : Stamp -> α -> Update PersonalState Unit}
    {change : Stamp -> PersonalState -> PersonalState}
    (accepted : ∀ value, check = .ok value -> Uniform (fun stamp => next stamp value) change) :
    Uniform (fun stamp => liftM check >>= next stamp) change := by
  cases checked : check with
  | error error => exact .inl ⟨error, fun stamp state => by simp⟩
  | ok value =>
      rcases accepted value checked with ⟨error, refused⟩ | carriedOut
      · exact .inl ⟨error, fun stamp state => by simp [refused]⟩
      · exact .inr fun stamp state => by simp [carriedOut]

theorem Uniform.modify {written change : Stamp -> PersonalState -> PersonalState}
    (same : ∀ stamp state, written stamp state = change stamp state) :
    Uniform (fun stamp => modify (written stamp)) change :=
  .inr fun stamp state => by simp [same]

/-- An operation is refused or carried out for what it is, not for the state it
meets. -/
theorem refused_or_carriedOut (kind : Op) : Refused kind ∨ CarriedOut kind := by
  change Uniform (fun stamp => applyKind stamp kind) (fun stamp => writeKind stamp kind)
  cases kind with
  | folderSet folder => exact .check fun _ checked => .modify fun stamp state => rfl
  | folderRemove ref => exact .check fun _ checked => .modify fun stamp state => rfl
  | folderOrder order => exact .modify fun stamp state => rfl
  | blockSet entry =>
      refine .check fun key checked => .modify fun stamp state => ?_
      have written : blockedWrite (.blockSet entry) = some (key, some entry) := by
        simp [blockedWrite, checked, Except.toOption]
      rw [writeKind, written]
      rfl
  | blockRemove peerKey =>
      refine .check fun key checked => .modify fun stamp state => ?_
      have written : blockedWrite (.blockRemove peerKey) = some (key, none) := by
        simp [blockedWrite, checked, Except.toOption]
      rw [writeKind, written]
      rfl
  | notifySet notify =>
      refine .check fun key checked => .modify fun stamp state => ?_
      have written : notifyWrite (.notifySet notify) =
          some (key, some { notify with settings := some (notify.settings.getD .default) }) := by
        simp [notifyWrite, checked, Except.toOption]
      rw [writeKind, written]
      rfl
  | notifyRemove peerKey =>
      refine .check fun key checked => .modify fun stamp state => ?_
      have written : notifyWrite (.notifyRemove peerKey) = some (key, none) := by
        simp [notifyWrite, checked, Except.toOption]
      rw [writeKind, written]
      rfl
  | notifyDefaults defaults => exact .modify fun stamp state => rfl
  | draftSet draft =>
      refine .check fun key keyChecked => .check fun _ checked => .modify fun stamp state => ?_
      have written : draftsWrite (.draftSet draft) = some (key, some draft) := by
        simp [draftsWrite, keyChecked, Except.toOption]
      rw [writeKind, written]
      rfl
  | draftRemove peerKey =>
      refine .check fun key checked => .modify fun stamp state => ?_
      have written : draftsWrite (.draftRemove peerKey) = some (key, none) := by
        simp [draftsWrite, checked, Except.toOption]
      rw [writeKind, written]
      rfl
  | scheduledSet scheduled =>
      refine .check fun id idChecked => .check fun _ keyChecked => .check fun _ timeChecked =>
        .check fun _ checked => .modify fun stamp state => ?_
      have written : scheduledWrite (.scheduledSet scheduled) = some (id, some scheduled) := by
        simp [scheduledWrite, ofBytes?_of_opId16 idChecked]
      rw [writeKind, written]
      rfl
  | scheduledRemove ref =>
      refine .check fun id checked => .modify fun stamp state => ?_
      have written : scheduledWrite (.scheduledRemove ref) = some (id, none) := by
        simp [scheduledWrite, ofBytes?_of_opId16 checked]
      rw [writeKind, written]
      rfl
  | scheduledSent ref =>
      refine .check fun id checked => .modify fun stamp state => ?_
      have written : scheduledSentWrite (.scheduledSent ref) = some id := by
        simp [scheduledSentWrite, ofBytes?_of_opId16 checked]
      rw [writeKind, written]
      rfl
  | archiveSet peerKeyMessage =>
      refine .check fun peer peerChecked => .check fun key checked =>
        .modify fun stamp state => ?_
      have written : archivedWrite (.archiveSet peerKeyMessage) = some (key, some peer) := by
        rw [archivedWrite, optPeerKey_of_peerKey peerChecked checked,
          (present_eq_ok _ _ _).1 peerChecked]
        rfl
      rw [writeKind, written]
      rfl
  | archiveRemove peerKey =>
      refine .check fun key checked => .modify fun stamp state => ?_
      have written : archivedWrite (.archiveRemove peerKey) = some (key, none) := by
        simp [archivedWrite, checked, Except.toOption]
      rw [writeKind, written]
      rfl
  | pinnedOrder order =>
      refine .check fun list listChecked => .check fun _ checked => ?_
      rw [eq_of_pinList listChecked]
      exact .modify fun stamp state => rfl
  | callSet record =>
      refine .check fun id idChecked => .check fun _ checked => .modify fun stamp state => ?_
      have written : callsWrite (.callSet record) = some (id, some record) := by
        simp [callsWrite, ofBytes?_of_opId16 idChecked]
      rw [writeKind, written]
      rfl
  | callRemove ref =>
      refine .check fun id checked => .modify fun stamp state => ?_
      have written : callsWrite (.callRemove ref) = some (id, none) := by
        simp [callsWrite, ofBytes?_of_opId16 checked]
      rw [writeKind, written]
      rfl
  | groupInviteSet invite =>
      refine .check fun _ textChecked => .check fun id checked => ?_
      rw [eq_of_linkId32 checked]
      exact .modify fun stamp state => rfl
  | groupInviteRemove ref =>
      refine .check fun id checked => ?_
      rw [eq_of_linkId32 checked]
      exact .modify fun stamp state => rfl
  | plannerContainerSet container =>
      exact .check fun ref refPresent => .check fun _ checked => .modify fun stamp state => rfl
  | cloudContainerSet container =>
      refine .check fun ref refPresent => .check fun _ refChecked => .check fun _ checked =>
        .modify fun stamp state => ?_
      have written : cloudContainersWrite (.cloudContainerSet container) =
          some (toLex (ref.domain, ref.id), some container) := by
        simp [cloudContainersWrite, (present_eq_ok _ _ _).1 refPresent]
      rw [writeKind, written]
      rfl
  | unreadMarkSet peerKeyMessage =>
      refine .check fun peer peerChecked => .check fun key checked =>
        .modify fun stamp state => ?_
      have written : unreadMarksWrite (.unreadMarkSet peerKeyMessage) = some (key, some peer) := by
        rw [unreadMarksWrite, optPeerKey_of_peerKey peerChecked checked,
          (present_eq_ok _ _ _).1 peerChecked]
        rfl
      rw [writeKind, written]
      rfl
  | unreadMarkRemove peerKey =>
      refine .check fun key checked => .modify fun stamp state => ?_
      have written : unreadMarksWrite (.unreadMarkRemove peerKey) = some (key, none) := by
        simp [unreadMarksWrite, checked, Except.toOption]
      rw [writeKind, written]
      rfl
  | quickReaction reaction => exact .check fun _ checked => .modify fun stamp state => rfl
  | stickerPackSet pack =>
      refine .check fun key checked => ?_
      rw [eq_of_checkStickerPack checked]
      exact .modify fun stamp state => rfl
  | stickerPackRemove key =>
      refine .check fun setId checked => ?_
      rw [eq_of_packKey checked]
      exact .modify fun stamp state => rfl
  | chatCleared cleared =>
      refine .check fun key keyChecked => .check fun _ checked => .modify fun stamp state => ?_
      have written : clearedWrite (.chatCleared cleared) = some (key, cleared) := by
        simp [clearedWrite, keyChecked, Except.toOption]
      rw [writeKind, written, clearedMark]
      cases slot : state.cleared[key]? with
      | none => rfl
      | some current =>
          by_cases older : cleared.clearedUntilMs ≤ current.clearedUntilMs
          · simp only [older, if_true]
            rfl
          · simp only [older, if_false]
            rfl

section

variable (sha256 : Bytes -> Digest)

/-- The stamp of an operation whose identifier has the right length. -/
def stampOf (op : StateOp) : Option Stamp :=
  (FixedBytes.ofBytes? opIdLen op.opId).map fun opId =>
    { lamport := op.lamport
      deviceId := op.deviceId
      opId := opId
      digest := sha256 (encode op) }

/-- What an accepted operation does to the state. -/
def effect (state : PersonalState) (op : StateOp) : PersonalState :=
  let written :=
    match stampOf sha256 op, op.op with
    | some stamp, some kind => writeKind stamp kind state
    | _, _ => state
  { written with maxLamport := max state.maxLamport op.lamport }

/-- Whether an operation is accepted, found out on the empty state. -/
def accepted (op : StateOp) : Bool :=
  ((apply sha256 op).exec .new).1.isOk

/-- A refused operation leaves the state as it was, an accepted one has its
effect, and neither decision looks at the state. -/
theorem exec_apply (op : StateOp) :
    (accepted sha256 op = false ∧
      ∃ error, ∀ state, (apply sha256 op).exec state = (.error error, state)) ∨
    (accepted sha256 op = true ∧
      ∀ state, (apply sha256 op).exec state = (.ok (), effect sha256 state op)) := by
  suffices
      (∃ error, ∀ state, (apply sha256 op).exec state = (.error error, state)) ∨
      (∀ state, (apply sha256 op).exec state = (.ok (), effect sha256 state op)) by
    rcases this with ⟨error, refused⟩ | carriedOut
    · refine .inl ⟨?_, error, refused⟩
      rw [accepted, refused]
      rfl
    · refine .inr ⟨?_, carriedOut⟩
      rw [accepted, carriedOut]
      rfl
  cases header : checkHeader op with
  | error error =>
      exact .inl ⟨error, fun state => by simp [apply, header]⟩
  | ok _ =>
      obtain ⟨id, idChecked⟩ : ∃ id, opId16 op.opId "op_id" = .ok id := by
        simp only [checkHeader, bind_eq_ok] at header
        exact header.imp fun id checked => checked.1
      have stampEq : stampOf sha256 op = some
          { lamport := op.lamport, deviceId := op.deviceId, opId := id,
            digest := sha256 (encode op) } := by
        rw [stampOf, ofBytes?_of_opId16 idChecked]
        rfl
      cases kindEq : op.op with
      | none =>
          refine .inr fun state => ?_
          simp [apply, header, idChecked, kindEq, effect]
      | some kind =>
          rcases refused_or_carriedOut kind with ⟨error, refused⟩ | carriedOut
          · refine .inl ⟨error, fun state => ?_⟩
            simp [apply, header, idChecked, kindEq, refused]
          · refine .inr fun state => ?_
            simp only [apply, header, idChecked, kindEq, Update.exec_bind,
              Update.exec_liftM, Update.exec_modify, carriedOut _ _, effect, stampEq]
            rfl

/-! ## The parts of the state -/

/-- The effect on a map of registers. -/
def mapStep [Ord κ] [Std.TransOrd κ]
    (write : Op -> Option (κ × Option ν))
    (map : Std.ExtTreeMap κ (Lww ν))
    (op : StateOp) : Std.ExtTreeMap κ (Lww ν) :=
  match stampOf sha256 op, op.op with
  | some stamp, some kind => mapWrite map stamp (write kind)
  | _, _ => map

/-- The effect on a register. -/
def registerStep
    (write : Op -> Option ν)
    (register : Option (Lww ν))
    (op : StateOp) : Option (Lww ν) :=
  match stampOf sha256 op, op.op with
  | some stamp, some kind => registerWrite register stamp (write kind)
  | _, _ => register

/-- The effect on the sent marks. -/
def sentStep (sent : Std.ExtTreeSet OpId) (op : StateOp) : Std.ExtTreeSet OpId :=
  match stampOf sha256 op, op.op with
  | some _, some kind => sentWrite sent (scheduledSentWrite kind)
  | _, _ => sent

/-- The effect on the cleared marks. -/
def clearedStep
    (cleared : Std.ExtTreeMap String ChatCleared)
    (op : StateOp) : Std.ExtTreeMap String ChatCleared :=
  match stampOf sha256 op, op.op with
  | some _, some kind => clearedMark cleared (clearedWrite kind)
  | _, _ => cleared

/-- The effect of an operation, part by part. -/
theorem effect_eq (state : PersonalState) (op : StateOp) :
    effect sha256 state op =
      { folders := mapStep sha256 foldersWrite state.folders op
        folderOrder := registerStep sha256 folderOrderWrite state.folderOrder op
        blocked := mapStep sha256 blockedWrite state.blocked op
        notify := mapStep sha256 notifyWrite state.notify op
        notifyDefaults :=
          registerStep sha256 notifyDefaultsWrite state.notifyDefaults op
        drafts := mapStep sha256 draftsWrite state.drafts op
        scheduled := mapStep sha256 scheduledWrite state.scheduled op
        scheduledSent := sentStep sha256 state.scheduledSent op
        archived := mapStep sha256 archivedWrite state.archived op
        pinned := mapStep sha256 pinnedWrite state.pinned op
        calls := mapStep sha256 callsWrite state.calls op
        cleared := clearedStep sha256 state.cleared op
        invites := mapStep sha256 invitesWrite state.invites op
        plannerContainer :=
          registerStep sha256 plannerContainerWrite state.plannerContainer op
        cloudContainers :=
          mapStep sha256 cloudContainersWrite state.cloudContainers op
        unreadMarks := mapStep sha256 unreadMarksWrite state.unreadMarks op
        quickReaction := registerStep sha256 quickReactionWrite state.quickReaction op
        stickerPacks := mapStep sha256 stickerPacksWrite state.stickerPacks op
        maxLamport := max state.maxLamport op.lamport } := by
  unfold effect mapStep registerStep sentStep clearedStep
  cases stampOf sha256 op with
  | none => rfl
  | some stamp =>
      cases op.op with
      | none => rfl
      | some kind => rfl

/-- The stamped value that an operation offers to a map of registers. -/
def entryOf
    (write : Op -> Option (κ × Option ν))
    (op : StateOp) : Option (κ × Lww ν) := do
  let stamp ← stampOf sha256 op
  let kind ← op.op
  let (key, value) ← write kind
  return (key, ⟨stamp, value⟩)

theorem mapStep_eq_alterAt [Ord κ] [Std.TransOrd κ] [Std.LawfulEqOrd κ]
    (write : Op -> Option (κ × Option ν)) :
    mapStep sha256 write =
      alterAt (fun op => (entryOf sha256 write op).map Prod.fst)
        (fun slot op => ((entryOf sha256 write op).map Prod.snd).elim slot
          (keepGreatest Lww.stamp slot)) := by
  funext map op
  unfold mapStep alterAt entryOf
  cases stampEq : stampOf sha256 op with
  | none => simp [stampEq]
  | some stamp =>
      cases kindEq : op.op with
      | none => simp [kindEq]
      | some kind =>
          cases written : write kind with
          | none => simp [stampEq, kindEq, written, mapWrite]
          | some entry =>
              simp [stampEq, kindEq, written, mapWrite, put_eq_alter]

/-- No two operations of a list have the same digest. -/
def CollisionFree (ops : List StateOp) : Prop :=
  ∀ first ∈ ops, ∀ second ∈ ops,
    sha256 (encode first) = sha256 (encode second) -> encode first = encode second

variable {sha256}

theorem eq_of_stampOf {ops : List StateOp}
    (collisionFree : CollisionFree sha256 ops)
    {first second : StateOp} {stamp : Stamp} (firstMember : first ∈ ops)
    (secondMember : second ∈ ops) (firstStamp : stampOf sha256 first = some stamp)
    (secondStamp : stampOf sha256 second = some stamp) : first = second := by
  obtain ⟨_, -, firstEq⟩ := Option.map_eq_some_iff.1 firstStamp
  obtain ⟨_, -, secondEq⟩ := Option.map_eq_some_iff.1 secondStamp
  have digests := congrArg Stamp.digest (firstEq.trans secondEq.symm)
  exact encode_injective (collisionFree first firstMember second secondMember digests)

theorem entryOf_eq_some {write : Op -> Option (κ × Option ν)}
    {op : StateOp} {key : κ} {entry : Lww ν}
    (entryEq : entryOf sha256 write op = some (key, entry)) :
    stampOf sha256 op = some entry.stamp := by
  simp only [entryOf, Option.bind_eq_bind, Option.bind_eq_some_iff, pure,
    Option.some.injEq, Prod.mk.injEq] at entryEq
  obtain ⟨stamp, stampEq, _, _, _, _, _, rfl⟩ := entryEq
  exact stampEq

theorem mapStep_commutesOn [Ord κ] [Std.TransOrd κ] [Std.LawfulEqOrd κ]
    (write : Op -> Option (κ × Option ν))
    {ops : List StateOp} (collisionFree : CollisionFree sha256 ops) :
    CommutesOn (mapStep sha256 write)
      (fun map => ∀ key, ∀ entry ∈ map[key]?,
        ∃ op ∈ ops, entryOf sha256 write op = some (key, entry))
      (· ∈ ops) := by
  rw [mapStep_eq_alterAt]
  refine alterAt_commutesOn (fun key slot => ∀ entry ∈ slot,
    ∃ op ∈ ops, entryOf sha256 write op = some (key, entry)) fun key => ?_
  have stamp_injOn : Set.InjOn Lww.stamp
      { entry | ∃ op ∈ ops, entryOf sha256 write op = some (key, entry) } := by
    rintro first ⟨firstOp, firstMember, firstEq⟩ second ⟨secondOp, secondMember, secondEq⟩ equal
    have opsEq := eq_of_stampOf collisionFree firstMember secondMember
      (entryOf_eq_some firstEq) (equal ▸ entryOf_eq_some secondEq)
    rw [opsEq, secondEq] at firstEq
    exact (Prod.mk.inj (Option.some.inj firstEq)).2.symm
  refine ((keepGreatest_commutesOn Lww.stamp stamp_injOn).optional
    fun op => (entryOf sha256 write op).map Prod.snd).mono ?_
  rintro op ⟨member, addressed⟩ entry carried
  obtain ⟨⟨otherKey, other⟩, entryEq, rfl⟩ := Option.map_eq_some_iff.1 carried
  rw [entryEq, Option.map_some, Option.some.injEq] at addressed
  exact ⟨op, member, by rw [entryEq, ← addressed]⟩

/-- The stamped value that an operation offers to a register. -/
def offerOf (sha256 : Bytes -> Digest) (write : Op -> Option ν) (op : StateOp) :
    Option (Lww ν) := do
  let stamp ← stampOf sha256 op
  let kind ← op.op
  let value ← write kind
  return ⟨stamp, some value⟩

theorem registerStep_eq_elim (write : Op -> Option ν) :
    registerStep sha256 write =
      fun register op => (offerOf sha256 write op).elim register
        (keepGreatest Lww.stamp register) := by
  funext register op
  unfold registerStep offerOf
  cases stampEq : stampOf sha256 op with
  | none => simp
  | some stamp =>
      cases kindEq : op.op with
      | none => simp
      | some kind =>
          cases written : write kind with
          | none => simp [written, registerWrite]
          | some value => simp [written, registerWrite, putReg_eq_keepGreatest]

theorem offerOf_eq_some {write : Op -> Option ν} {op : StateOp} {offer : Lww ν}
    (offerEq : offerOf sha256 write op = some offer) : stampOf sha256 op = some offer.stamp := by
  simp only [offerOf, Option.bind_eq_bind, Option.bind_eq_some_iff, pure,
    Option.some.injEq] at offerEq
  obtain ⟨stamp, stampEq, _, _, _, _, rfl⟩ := offerEq
  exact stampEq

theorem registerStep_commutesOn
    (write : Op -> Option ν) {ops : List StateOp} (collisionFree : CollisionFree sha256 ops) :
    CommutesOn (registerStep sha256 write)
      (fun register => ∀ offer ∈ register, ∃ op ∈ ops, offerOf sha256 write op = some offer)
      (· ∈ ops) := by
  rw [registerStep_eq_elim]
  have stamp_injOn : Set.InjOn Lww.stamp
      { offer | ∃ op ∈ ops, offerOf sha256 write op = some offer } := by
    rintro first ⟨firstOp, firstMember, firstEq⟩ second ⟨secondOp, secondMember, secondEq⟩ equal
    have opsEq := eq_of_stampOf collisionFree firstMember secondMember
      (offerOf_eq_some firstEq) (equal ▸ offerOf_eq_some secondEq)
    rw [opsEq, secondEq] at firstEq
    exact (Option.some.inj firstEq).symm
  refine ((keepGreatest_commutesOn Lww.stamp stamp_injOn).optional
    (offerOf sha256 write)).mono ?_
  intro op member offer offerEq
  exact ⟨op, member, offerEq⟩

theorem insert_commutesOn :
    CommutesOn (fun (sent : Std.ExtTreeSet OpId) id => sent.insert id)
      (fun _ => True) (fun _ => True) := by
  refine ⟨fun _ _ _ _ => trivial, ?_, ?_⟩
  · intro sent first second _ _ _
    apply Std.ExtTreeSet.ext_mem
    intro id
    simp only [Std.ExtTreeSet.mem_insert]
    exact or_left_comm
  · intro sent id _ _
    apply Std.ExtTreeSet.ext_mem
    intro other
    simp only [Std.ExtTreeSet.mem_insert]
    tauto

/-- The sent mark that an operation sets. -/
def sentOf (sha256 : Bytes -> Digest) (op : StateOp) : Option OpId := do
  let _ ← stampOf sha256 op
  let kind ← op.op
  scheduledSentWrite kind

theorem sentStep_commutesOn : CommutesOn (sentStep sha256) (fun _ => True) (fun _ => True) := by
  have stepEq : sentStep sha256 =
      fun sent op => (sentOf sha256 op).elim sent fun id => sent.insert id := by
    funext sent op
    unfold sentStep sentOf
    cases stampEq : stampOf sha256 op with
    | none => simp
    | some stamp =>
        cases kindEq : op.op with
        | none => simp
        | some kind =>
            cases written : scheduledSentWrite kind with
            | none => simp [written, sentWrite]
            | some id => simp [written, sentWrite]
  rw [stepEq]
  exact (insert_commutesOn.optional (sentOf sha256)).mono fun _ _ _ _ => trivial

/-- The cleared mark that an operation sets. -/
def clearedOf (sha256 : Bytes -> Digest) (op : StateOp) :
    Option (String × ChatCleared) := do
  let _ ← stampOf sha256 op
  let kind ← op.op
  clearedWrite kind

theorem clearedMark_some
    (cleared : Std.ExtTreeMap String ChatCleared) (key : String) (value : ChatCleared) :
    clearedMark cleared (some (key, value)) =
      cleared.alter key fun slot =>
        keepGreatest (fun mark => mark.clearedUntilMs.toInt) slot value := by
  apply Std.ExtTreeMap.ext_getElem?
  intro other
  rw [Std.ExtTreeMap.getElem?_alter]
  simp only [clearedMark]
  cases slot : cleared[key]? with
  | none => simp [Std.ExtTreeMap.getElem?_insert, keepGreatest]
  | some current =>
      by_cases older : value.clearedUntilMs ≤ current.clearedUntilMs
      · have olderInt := Int64.le_iff_toInt_le.1 older
        simp only [older, if_true, keepGreatest_some, not_lt.2 olderInt, if_false]
        split
        · next same =>
            rw [← Std.LawfulEqOrd.compare_eq_iff_eq.1 same, slot]
        · rfl
      · have newerInt := not_le.1 (mt Int64.le_iff_toInt_le.2 older)
        simp only [older, if_false, keepGreatest_some, newerInt, if_true,
          Std.ExtTreeMap.getElem?_insert]

theorem optPeerKey_of_clearedOf {op : StateOp} {key : String} {mark : ChatCleared}
    (markEq : clearedOf sha256 op = some (key, mark)) : optPeerKey mark.peer = .ok key := by
  simp only [clearedOf, Option.bind_eq_bind, Option.bind_eq_some_iff] at markEq
  obtain ⟨_, -, kind, -, written⟩ := markEq
  unfold clearedWrite at written
  split at written
  · obtain ⟨found, foundEq, pairEq⟩ := Option.map_eq_some_iff.1 written
    cases pairEq
    revert foundEq
    cases optPeerKey mark.peer <;> simp [Except.toOption]
  · cases written

theorem clearedStep_eq_alterAt :
    clearedStep sha256 =
      alterAt (fun op => (clearedOf sha256 op).map Prod.fst)
        (fun slot op => ((clearedOf sha256 op).map Prod.snd).elim slot
          (keepGreatest (fun mark => mark.clearedUntilMs.toInt) slot)) := by
  funext cleared op
  unfold clearedStep alterAt clearedOf
  cases stampEq : stampOf sha256 op with
  | none => simp [stampEq]
  | some stamp =>
      cases kindEq : op.op with
      | none => simp [kindEq]
      | some kind =>
          cases written : clearedWrite kind with
          | none => simp [stampEq, kindEq, written, clearedMark]
          | some entry =>
              simp [stampEq, kindEq, written]
              exact clearedMark_some cleared entry.1 entry.2

theorem clearedStep_commutesOn :
    CommutesOn (clearedStep sha256)
      (fun cleared => ∀ key, ∀ mark ∈ cleared[key]?, optPeerKey mark.peer = .ok key)
      (fun _ => True) := by
  rw [clearedStep_eq_alterAt]
  refine alterAt_commutesOn
    (fun key (slot : Option ChatCleared) =>
      ∀ mark ∈ slot, optPeerKey mark.peer = .ok key) fun key => ?_
  have rank_injOn : Set.InjOn (fun mark : ChatCleared => mark.clearedUntilMs.toInt)
      { mark | optPeerKey mark.peer = .ok key } := by
    intro first firstKey second secondKey equal
    exact ChatCleared.ext (optPeerKey_injective firstKey secondKey)
      (Int64.toInt_inj.1 equal)
  refine ((keepGreatest_commutesOn _ rank_injOn).optional
    fun op => (clearedOf sha256 op).map Prod.snd).mono ?_
  rintro op ⟨-, addressed⟩ mark carried
  obtain ⟨⟨otherKey, other⟩, markEq, rfl⟩ := Option.map_eq_some_iff.1 carried
  rw [markEq, Option.map_some, Option.some.injEq] at addressed
  rw [← addressed]
  exact optPeerKey_of_clearedOf markEq

/-! ## Whole runs -/

theorem foldl_effect_of_sameMembers {first second : List StateOp}
    (collisionFree : CollisionFree sha256 first) (same : SameMembers first second) :
    first.foldl (effect sha256) .new = second.foldl (effect sha256) .new := by
  have member : ∀ op ∈ first, op ∈ first := fun _ inside => inside
  have always : ∀ op ∈ first, True := fun _ _ => trivial
  have parts {τ : Type} (project : PersonalState -> τ) (step : τ -> StateOp -> τ)
      (project_effect : ∀ state op,
        step (project state) op = project (effect sha256 state op))
      (converges : first.foldl step (project .new) = second.foldl step (project .new)) :
      project (first.foldl (effect sha256) .new) =
        project (second.foldl (effect sha256) .new) := by
    rw [← List.foldl_hom project project_effect, converges,
      List.foldl_hom project project_effect]
  have maps {κ ν : Type} [Ord κ] [Std.TransOrd κ] [Std.LawfulEqOrd κ]
      (write : Op -> Option (κ × Option ν)) :
      first.foldl (mapStep sha256 write) ∅ = second.foldl (mapStep sha256 write) ∅ :=
    (mapStep_commutesOn write collisionFree).foldl_eq_of_sameMembers ∅
      (by simp) member same
  have registers {ν : Type} (write : Op -> Option ν) :
      first.foldl (registerStep sha256 write) none =
        second.foldl (registerStep sha256 write) none :=
    (registerStep_commutesOn write collisionFree).foldl_eq_of_sameMembers none
      (by simp) member same
  apply PersonalState.ext
  · exact parts (·.folders) _ (fun _ _ => by rw [effect_eq]) (maps foldersWrite)
  · exact parts (·.folderOrder) _ (fun _ _ => by rw [effect_eq]) (registers folderOrderWrite)
  · exact parts (·.blocked) _ (fun _ _ => by rw [effect_eq]) (maps blockedWrite)
  · exact parts (·.notify) _ (fun _ _ => by rw [effect_eq]) (maps notifyWrite)
  · exact parts (·.notifyDefaults) _ (fun _ _ => by rw [effect_eq]) (registers notifyDefaultsWrite)
  · exact parts (·.drafts) _ (fun _ _ => by rw [effect_eq]) (maps draftsWrite)
  · exact parts (·.scheduled) _ (fun _ _ => by rw [effect_eq]) (maps scheduledWrite)
  · exact parts (·.scheduledSent) _ (fun _ _ => by rw [effect_eq])
      (sentStep_commutesOn.foldl_eq_of_sameMembers ∅ trivial always same)
  · exact parts (·.archived) _ (fun _ _ => by rw [effect_eq]) (maps archivedWrite)
  · exact parts (·.pinned) _ (fun _ _ => by rw [effect_eq]) (maps pinnedWrite)
  · exact parts (·.calls) _ (fun _ _ => by rw [effect_eq]) (maps callsWrite)
  · exact parts (·.cleared) _ (fun _ _ => by rw [effect_eq])
      (clearedStep_commutesOn.foldl_eq_of_sameMembers ∅ (by simp) always same)
  · exact parts (·.invites) _ (fun _ _ => by rw [effect_eq]) (maps invitesWrite)
  · exact parts (·.plannerContainer) _ (fun _ _ => by rw [effect_eq])
      (registers plannerContainerWrite)
  · exact parts (·.cloudContainers) _ (fun _ _ => by rw [effect_eq]) (maps cloudContainersWrite)
  · exact parts (·.unreadMarks) _ (fun _ _ => by rw [effect_eq]) (maps unreadMarksWrite)
  · exact parts (·.quickReaction) _ (fun _ _ => by rw [effect_eq]) (registers quickReactionWrite)
  · exact parts (·.stickerPacks) _ (fun _ _ => by rw [effect_eq]) (maps stickerPacksWrite)
  · exact parts (·.maxLamport) _ (fun _ _ => by rw [effect_eq])
      ((max_commutesOn StateOp.lamport).foldl_eq_of_sameMembers 0 trivial always same)

theorem applyAllFrom_state
    (position : Nat) (ops : List StateOp) (state : PersonalState) :
    (applyAllFrom sha256 position ops state).2 =
      (ops.filter (accepted sha256)).foldl (effect sha256) state := by
  induction ops generalizing position state with
  | nil => rfl
  | cons op ops inductionHypothesis =>
      rcases exec_apply sha256 op with ⟨refused, error, exec_eq⟩ | ⟨isAccepted, exec_eq⟩
      · simp [applyAllFrom, exec_eq, refused, inductionHypothesis]
      · simp [applyAllFrom, exec_eq, isAccepted, inductionHypothesis]

theorem mem_applyAllFrom
    (position : Nat) (ops : List StateOp) (state : PersonalState) (index : Nat) :
    index ∈ (applyAllFrom sha256 position ops state).1 ↔
      ∃ offset op, index = position + offset ∧ ops[offset]? = some op ∧
        accepted sha256 op = false := by
  induction ops generalizing position state with
  | nil => simp [applyAllFrom]
  | cons op ops inductionHypothesis =>
      have shift :
          (∃ offset other, index = position + offset ∧
            (op :: ops)[offset]? = some other ∧ accepted sha256 other = false) ↔
          (index = position ∧ accepted sha256 op = false) ∨
            ∃ offset other, index = position + 1 + offset ∧
              ops[offset]? = some other ∧ accepted sha256 other = false := by
        constructor
        · rintro ⟨offset, other, rfl, found, refused⟩
          cases offset with
          | zero =>
              cases found
              exact .inl ⟨rfl, refused⟩
          | succ offset =>
              exact .inr ⟨offset, other, by omega, found, refused⟩
        · rintro (⟨rfl, refused⟩ | ⟨offset, other, rfl, found, refused⟩)
          · exact ⟨0, op, rfl, rfl, refused⟩
          · exact ⟨offset + 1, other, by omega, found, refused⟩
      rw [shift]
      rcases exec_apply sha256 op with ⟨refused, error, exec_eq⟩ | ⟨isAccepted, exec_eq⟩
      · simp [applyAllFrom, exec_eq, refused, inductionHypothesis]
      · simp [applyAllFrom, exec_eq, isAccepted, inductionHypothesis]

end

/-- Two runs over the same operations, in whatever order and with whatever
repetitions, end in the same state and refuse the same operations; a refused
operation changes nothing. -/
theorem personalState_converges
    (sha256 : Bytes -> Digest)
    (first second : List StateOp)
    (same : SameMembers first second)
    (collisionFree : CollisionFree sha256 first) :
    (applyAll sha256 first .new).2 = (applyAll sha256 second .new).2 ∧
      (∀ op firstIndex secondIndex,
        first[firstIndex]? = some op -> second[secondIndex]? = some op ->
          (firstIndex ∈ (applyAll sha256 first .new).1 ↔
            secondIndex ∈ (applyAll sha256 second .new).1)) ∧
      (∀ op state error later,
        (apply sha256 op).exec state = (.error error, later) -> later = state) := by
  refine ⟨?_, ?_, ?_⟩
  · simp only [applyAll, applyAllFrom_state]
    apply foldl_effect_of_sameMembers
    · intro left leftMember right rightMember
      exact collisionFree left (List.mem_of_mem_filter leftMember)
        right (List.mem_of_mem_filter rightMember)
    · intro op
      simp only [List.mem_filter, same op]
  · intro op firstIndex secondIndex firstFound secondFound
    have refused_iff (ops : List StateOp) (index : Nat) (found : ops[index]? = some op) :
        index ∈ (applyAll sha256 ops .new).1 ↔ accepted sha256 op = false := by
      rw [applyAll, mem_applyAllFrom]
      constructor
      · rintro ⟨offset, other, rfl, otherFound, refused⟩
        rw [Nat.zero_add, otherFound] at found
        exact Option.some.inj found ▸ refused
      · intro refused
        exact ⟨index, op, (Nat.zero_add index).symm, found, refused⟩
    rw [refused_iff first firstIndex firstFound, refused_iff second secondIndex secondFound]
  · intro op state error later ran
    rcases exec_apply sha256 op with ⟨-, refusal, exec_eq⟩ | ⟨-, exec_eq⟩
    · rw [exec_eq, Prod.mk.injEq] at ran
      exact ran.2.symm
    · rw [exec_eq, Prod.mk.injEq] at ran
      cases ran.1

/-- A folder order written by device `d`. -/
def orderOp : StateOp where
  opId := List.replicate 16 1
  lamport := 1
  deviceId := "d"
  tsMs := 0
  op := some (.folderOrder ⟨[2]⟩)

/-- The removal of a reserved folder, which is refused. -/
def reservedOp : StateOp where
  opId := List.replicate 16 2
  lamport := 1
  deviceId := "d"
  tsMs := 0
  op := some (.folderRemove ⟨1⟩)

/-- SHA-256 on the encodings of the two operations above. -/
def sampleDigest (bytes : Bytes) : Digest :=
  if bytes = encode orderOp then
    ⟨[108, 106, 30, 86, 194, 96, 232, 59, 230, 147, 1, 91, 134, 253, 140,
      186, 68, 54, 102, 132, 82, 253, 156, 181, 247, 34, 217, 126, 80, 231,
      102, 217], rfl⟩
  else
    ⟨[162, 95, 82, 208, 176, 35, 62, 49, 128, 116, 239, 82, 70, 224, 99,
      129, 48, 188, 98, 56, 222, 225, 88, 85, 224, 80, 249, 226, 34, 117,
      113, 255], rfl⟩

/-- Sending the order again and the refused removal first makes no difference. -/
theorem personalState_converges_sample :
    (applyAll sampleDigest [orderOp, reservedOp, orderOp] .new).2 =
      (applyAll sampleDigest [reservedOp, orderOp] .new).2 :=
  (personalState_converges sampleDigest [orderOp, reservedOp, orderOp] [reservedOp, orderOp]
    (by
      intro op
      simp only [List.mem_cons, List.not_mem_nil]
      tauto)
    (by
      unfold CollisionFree
      decide)).1

end Parvane.State
