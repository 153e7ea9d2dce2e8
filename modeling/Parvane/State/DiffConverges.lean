import Parvane.State.Changes
import Parvane.State.Frame
import Parvane.State.Fresh

/-!
# A diff that is applied leaves nothing to change

The host asks for a state, the changes are stamped and applied, and the same question gives
no changes any more.  A draft or a scheduled message that is not well formed is asked for
again and again, since it is never accepted.
-/

namespace Parvane.State

open Wire

variable {κ ν : Type}

/-! ## Kinds of operations -/

/-- The kind is accepted, found out with some stamp. -/
def taken (kind : Op) : Bool :=
  let stamp : Stamp := ⟨0, "", ⟨List.replicate 16 0, by simp⟩, ⟨List.replicate 32 0, by simp⟩⟩
  ((applyKind stamp kind).exec .new).1.isOk

theorem carriedOut_iff_taken {kind : Op} : CarriedOut kind ↔ taken kind = true := by
  rcases refused_or_carriedOut kind with ⟨error, refused⟩ | carriedOut
  · refine iff_of_false (fun carriedOut => ?_) ?_
    · have stamp : Stamp :=
        ⟨0, "", ⟨List.replicate 16 0, by simp⟩, ⟨List.replicate 32 0, by simp⟩⟩
      have ran := (refused stamp .new).symm.trans (carriedOut stamp .new)
      cases (Prod.mk.inj ran).1
    · rw [taken, refused]
      exact nofun
  · refine iff_of_true carriedOut ?_
    rw [taken, carriedOut]
    rfl

section

@[simp] theorem taken_folderSet (folder : Folder) :
    taken (.folderSet folder) = (checkFolder folder).isOk := by
  simp only [taken, applyKind, Update.exec_bind, Update.exec_liftM]
  cases checkFolder folder <;> rfl

@[simp] theorem taken_folderRemove (ref : FolderRef) :
    taken (.folderRemove ref) = (checkFolderId ref.id).isOk := by
  simp only [taken, applyKind, Update.exec_bind, Update.exec_liftM]
  cases checkFolderId ref.id <;> rfl

@[simp] theorem taken_blockSet (entry : BlockEntry) :
    taken (.blockSet entry) = (optPeerKey entry.peer).isOk := by
  simp only [taken, applyKind, Update.exec_bind, Update.exec_liftM]
  cases optPeerKey entry.peer <;> rfl

@[simp] theorem taken_blockRemove (key : PeerKey) :
    taken (.blockRemove key) = (optPeerKey key.peer).isOk := by
  simp only [taken, applyKind, Update.exec_bind, Update.exec_liftM]
  cases optPeerKey key.peer <;> rfl

@[simp] theorem taken_notifySet (notify : PeerNotify) :
    taken (.notifySet notify) = (optPeerKey notify.peer).isOk := by
  simp only [taken, applyKind, Update.exec_bind, Update.exec_liftM]
  cases optPeerKey notify.peer <;> rfl

@[simp] theorem taken_notifyRemove (key : PeerKey) :
    taken (.notifyRemove key) = (optPeerKey key.peer).isOk := by
  simp only [taken, applyKind, Update.exec_bind, Update.exec_liftM]
  cases optPeerKey key.peer <;> rfl

/-- The reply of a draft has an identifier of the right length, if there is one. -/
def Draft.isWellFormed (draft : Draft) : Bool :=
  draft.replyToOpId.isEmpty || draft.replyToOpId.length == opIdLen

@[simp] theorem taken_draftSet (draft : Draft) :
    taken (.draftSet draft) = ((optPeerKey draft.peer).isOk && draft.isWellFormed) := by
  simp only [taken, applyKind, Update.exec_bind, Update.exec_liftM]
  change _ = ((optPeerKey draft.peer).isOk &&
    (draft.replyToOpId.isEmpty || draft.replyToOpId.length == opIdLen))
  cases optPeerKey draft.peer with
  | error error => rfl
  | ok key =>
      cases draft.replyToOpId.isEmpty || draft.replyToOpId.length == opIdLen <;> rfl

@[simp] theorem taken_draftRemove (key : PeerKey) :
    taken (.draftRemove key) = (optPeerKey key.peer).isOk := by
  simp only [taken, applyKind, Update.exec_bind, Update.exec_liftM]
  cases optPeerKey key.peer <;> rfl

/-- A scheduled message has an identifier, a chat, a time and a content. -/
def ScheduledMessage.isWellFormed (scheduled : ScheduledMessage) : Bool :=
  scheduled.opId.length == opIdLen && (optPeerKey scheduled.peer).isOk &&
    decide (0 < scheduled.sendAtMs) && !scheduled.content.isEmpty

theorem isOk_opId16 (bytes : Bytes) (field : String) :
    (opId16 bytes field).isOk = (bytes.length == opIdLen) := by
  rw [opId16, FixedBytes.ofBytes?]
  split
  · next fits =>
    rw [fits]
    rfl
  · next other =>
    rw [beq_false_of_ne other]
    rfl

@[simp] theorem taken_scheduledSet (scheduled : ScheduledMessage) :
    taken (.scheduledSet scheduled) = scheduled.isWellFormed := by
  rw [ScheduledMessage.isWellFormed, ← isOk_opId16 scheduled.opId "scheduled.op_id"]
  simp only [taken, applyKind, Update.exec_bind, Update.exec_liftM]
  cases opId16 scheduled.opId "scheduled.op_id" with
  | error error => rfl
  | ok id =>
      cases optPeerKey scheduled.peer with
      | error error => rfl
      | ok key =>
          cases decide (0 < scheduled.sendAtMs) with
          | false => rfl
          | true => cases scheduled.content.isEmpty <;> rfl

@[simp] theorem taken_scheduledRemove (ref : ScheduledRef) :
    taken (.scheduledRemove ref) = (ref.opId.length == opIdLen) := by
  rw [← isOk_opId16 ref.opId "scheduled.op_id"]
  simp only [taken, applyKind, Update.exec_bind, Update.exec_liftM]
  cases opId16 ref.opId "scheduled.op_id" <;> rfl

@[simp] theorem taken_archiveSet (key : PeerKey) :
    taken (.archiveSet key) = (optPeerKey key.peer).isOk := by
  simp only [taken, applyKind, Update.exec_bind, Update.exec_liftM]
  cases key.peer with
  | none => rfl
  | some peer =>
      change _ = (peerKey peer).isOk
      cases isKey : peerKey peer <;> simp [present, isKey, Except.isOk, Except.toBool]

@[simp] theorem taken_archiveRemove (key : PeerKey) :
    taken (.archiveRemove key) = (optPeerKey key.peer).isOk := by
  simp only [taken, applyKind, Update.exec_bind, Update.exec_liftM]
  cases optPeerKey key.peer <;> rfl

@[simp] theorem taken_unreadMarkSet (key : PeerKey) :
    taken (.unreadMarkSet key) = (optPeerKey key.peer).isOk := by
  simp only [taken, applyKind, Update.exec_bind, Update.exec_liftM]
  cases key.peer with
  | none => rfl
  | some peer =>
      change _ = (peerKey peer).isOk
      cases isKey : peerKey peer <;> simp [present, isKey, Except.isOk, Except.toBool]

@[simp] theorem taken_unreadMarkRemove (key : PeerKey) :
    taken (.unreadMarkRemove key) = (optPeerKey key.peer).isOk := by
  simp only [taken, applyKind, Update.exec_bind, Update.exec_liftM]
  cases optPeerKey key.peer <;> rfl

@[simp] theorem taken_pinnedOrder (order : PinnedOrder) :
    taken (.pinnedOrder order) = ((pinList order.list).isOk && (checkPeers order.peers).isOk) := by
  simp only [taken, applyKind, Update.exec_bind, Update.exec_liftM]
  cases pinList order.list with
  | error error => rfl
  | ok list => cases checkPeers order.peers <;> rfl

@[simp] theorem taken_quickReaction (reaction : QuickReaction) :
    taken (.quickReaction reaction) = (checkQuickReaction reaction).isOk := by
  simp only [taken, applyKind, Update.exec_bind, Update.exec_liftM]
  cases checkQuickReaction reaction <;> rfl

@[simp] theorem taken_stickerPackSet (pack : StickerPack) :
    taken (.stickerPackSet pack) = (checkStickerPack pack).isOk := by
  simp only [taken, applyKind, Update.exec_bind, Update.exec_liftM]
  cases checkStickerPack pack <;> rfl

@[simp] theorem taken_stickerPackRemove (key : StickerPackKey) :
    taken (.stickerPackRemove key) = (packKey key.setId).isOk := by
  simp only [taken, applyKind, Update.exec_bind, Update.exec_liftM]
  cases packKey key.setId <;> rfl

end

/-! ## Which changes write what -/

section

variable {current desired : StateSnapshot} {managed : Managed} {kind : Op}

theorem mem_diffOps_of_asks {part : Part} (asked : managed.Asks current desired kind part) :
    kind ∈ diffOps current desired managed := by
  simp only [diffOps, List.mem_append]
  cases part <;> try exact asked.elim
  all_goals
    obtain ⟨isManaged, member⟩ := asked
    simp [isManaged, member]

/-- A change that writes a part is one of those that the host asks for there. -/
theorem asks_of_part {part : Part} (isPart : kind.part = part)
    (member : kind ∈ diffOps current desired managed) : managed.Asks current desired kind part :=
  isPart ▸ asks_of_mem_diffOps member

end

section

variable {kind : Op}

theorem part_of_foldersWrite {entry : UInt32 × Option Folder}
    (written : foldersWrite kind = some entry) : kind.part = .folders := by
  cases kind <;> first | rfl | cases written

theorem part_of_folderOrderWrite {order : FolderOrder}
    (written : folderOrderWrite kind = some order) : kind.part = .folderOrder := by
  cases kind <;> first | rfl | cases written

theorem part_of_blockedWrite {entry : String × Option BlockEntry}
    (written : blockedWrite kind = some entry) : kind.part = .blocked := by
  cases kind <;> first | rfl | cases written

theorem part_of_notifyWrite {entry : String × Option PeerNotify}
    (written : notifyWrite kind = some entry) : kind.part = .notify := by
  cases kind <;> first | rfl | cases written

theorem part_of_notifyDefaultsWrite {defaults : NotifyDefaults}
    (written : notifyDefaultsWrite kind = some defaults) : kind.part = .notifyDefaults := by
  cases kind <;> first | rfl | cases written

theorem part_of_draftsWrite {entry : String × Option Draft}
    (written : draftsWrite kind = some entry) : kind.part = .drafts := by
  cases kind <;> first | rfl | cases written

theorem part_of_scheduledWrite {entry : OpId × Option ScheduledMessage}
    (written : scheduledWrite kind = some entry) : kind.part = .scheduled := by
  cases kind <;> first | rfl | cases written

theorem part_of_archivedWrite {entry : String × Option Peer}
    (written : archivedWrite kind = some entry) : kind.part = .archived := by
  cases kind <;> first | rfl | cases written

theorem part_of_pinnedWrite {entry : Int32 × Option PinnedOrder}
    (written : pinnedWrite kind = some entry) : kind.part = .pinned := by
  cases kind <;> first | rfl | cases written

theorem part_of_unreadMarksWrite {entry : String × Option Peer}
    (written : unreadMarksWrite kind = some entry) : kind.part = .unreadMarks := by
  cases kind <;> first | rfl | cases written

theorem part_of_quickReactionWrite {reaction : QuickReaction}
    (written : quickReactionWrite kind = some reaction) : kind.part = .quickReaction := by
  cases kind <;> first | rfl | cases written

theorem part_of_stickerPacksWrite {entry : String × Option StickerPack}
    (written : stickerPacksWrite kind = some entry) : kind.part = .stickerPacks := by
  cases kind <;> first | rfl | cases written

end

/-! ## The run -/

/-- Operations that were stamped after a reached state and all accepted. -/
structure Applied (sha256 : Bytes -> Digest) (kinds : List Op) (before after : PersonalState) :
    Prop where
  reached : ∃ history, before = (applyAll sha256 history .new).2
  ran : ∃ deviceId tsMs clock ops, StampedBy deviceId tsMs clock kinds ops ∧
    before.maxLamport ≤ clock.last ∧ (∀ op ∈ ops, accepted sha256 op = true) ∧
    after = (applyAll sha256 ops before).2

namespace Applied

variable {sha256 : Bytes -> Digest} {kinds : List Op} {before after : PersonalState}

theorem reached_after (applied : Applied sha256 kinds before after) :
    ∃ history, after = (applyAll sha256 history .new).2 := by
  obtain ⟨history, rfl⟩ := applied.reached
  obtain ⟨_, _, _, ops, -, -, -, rfl⟩ := applied.ran
  refine ⟨history ++ ops, ?_⟩
  simp only [applyAll, applyAllFrom_state, List.filter_append, List.foldl_append]

section

variable [Ord κ] [Std.TransOrd κ] [Std.LawfulEqOrd κ] [DecidableEq κ]
  {write : Op -> Option (κ × Option ν)}
  {read : PersonalState -> Std.ExtTreeMap κ (Lww ν)}

theorem liveAt_after
    (applied : Applied sha256 kinds before after)
    (isMap : IsMap sha256 (entryOf sha256 write) Lww.stamp read)
    {key : κ} {value : Option ν}
    (writes : ∃ kind ∈ kinds, write kind = some (key, value))
    (unique : ∀ kind ∈ kinds, ∀ other, write kind = some (key, other) -> other = value) :
    liveAt (read after) key = value := by
  obtain ⟨history, rfl⟩ := applied.reached
  obtain ⟨_, _, clock, ops, stamped, behind, allAccepted, rfl⟩ := applied.ran
  have all : ops.filter (accepted sha256) = ops := List.filter_eq_self.2 allAccepted
  rw [applyAll, applyAllFrom_state, all]
  exact liveAt_of_stamped isMap stamped (bounded_of_reached isMap behind) unique (.inr writes)

theorem liveAt_unwritten
    (applied : Applied sha256 kinds before after)
    (isMap : IsMap sha256 (entryOf sha256 write) Lww.stamp read)
    {key : κ}
    (unwritten : ∀ kind ∈ kinds, ∀ value, write kind ≠ some (key, value)) :
    liveAt (read after) key = liveAt (read before) key := by
  obtain ⟨_, _, clock, ops, stamped, -, -, rfl⟩ := applied.ran
  rw [liveAt, isMap.getElem?_of_unoffered, liveAt]
  intro op member entry offered
  obtain ⟨kind, carried, written⟩ := write_of_entryOf offered
  have isKind : some kind ∈ kinds.map some := by
    rw [← stamped.map_op, ← carried]
    exact List.mem_map_of_mem member
  obtain ⟨_, member, same⟩ := List.mem_map.1 isKind
  cases same
  exact unwritten kind member entry.value written

end

/-- All the kinds are accepted. -/
theorem taken_of_mem
    (applied : Applied sha256 kinds before after) {kind : Op}
    (member : kind ∈ kinds) : taken kind = true := by
  obtain ⟨_, _, clock, ops, stamped, -, allAccepted, -⟩ := applied.ran
  have carried : some kind ∈ ops.map StateOp.op := by
    rw [stamped.map_op]
    exact List.mem_map_of_mem member
  obtain ⟨op, isOp, isKind⟩ := List.mem_map.1 carried
  exact carriedOut_iff_taken.1 (carriedOut_of_accepted (allAccepted op isOp) isKind)

/-- A register is written as it is asked for, or stays. -/
theorem register
    (applied : Applied sha256 kinds before after) {write : Op -> Option ν}
    {read : PersonalState -> Option (Lww ν)}
    (isRegister : IsRegister sha256 write read) (asks : Prop) (want : ν)
    (inside : asks -> ∃ kind ∈ kinds, write kind = some want)
    (only : ∀ kind ∈ kinds, ∀ value, write kind = some value -> asks ∧ value = want) :
    (asks -> regValue (read after) = some want) ∧ (¬ asks -> read after = read before) := by
  obtain ⟨history, rfl⟩ := applied.reached
  obtain ⟨_, _, clock, ops, stamped, behind, allAccepted, rfl⟩ := applied.ran
  constructor
  · intro isAsked
    have all : ops.filter (accepted sha256) = ops := List.filter_eq_self.2 allAccepted
    rw [applyAll, applyAllFrom_state, all]
    exact regValue_of_stamped isRegister stamped (registerBounded_of_reached isRegister behind)
      (fun kind member value written => (only kind member value written).2) (.inr (inside isAsked))
  · intro notAsked
    refine isRegister.read_of_unwritten (fun op member kind carried => ?_) _
    have isKind : some kind ∈ kinds.map some := by
      rw [← stamped.map_op, ← carried]
      exact List.mem_map_of_mem member
    obtain ⟨_, isMember, same⟩ := List.mem_map.1 isKind
    cases same
    cases written : write kind with
    | none => rfl
    | some value => exact absurd (only kind isMember value written).1 notAsked

end Applied

/-- A live value was written by an operation that is accepted. -/
theorem written_of_liveAt [Ord κ] [Std.TransOrd κ] [Std.LawfulEqOrd κ] [DecidableEq κ]
    {sha256 : Bytes -> Digest}
    {write : Op -> Option (κ × Option ν)}
    {read : PersonalState -> Std.ExtTreeMap κ (Lww ν)}
    (isMap : IsMap sha256 (entryOf sha256 write) Lww.stamp read)
    {state : PersonalState}
    (reached : ∃ history, state = (applyAll sha256 history .new).2)
    {key : κ} {value : ν}
    (isLive : liveAt (read state) key = some value) :
    ∃ kind, taken kind = true ∧ write kind = some (key, some value) := by
  obtain ⟨history, rfl⟩ := reached
  obtain ⟨entry, found, isValue⟩ := Option.bind_eq_some_iff.1 isLive
  obtain ⟨op, -, isAccepted, offered⟩ := isMap.offered found
  obtain ⟨kind, carried, written⟩ := write_of_entryOf offered
  exact ⟨kind, carriedOut_iff_taken.1 (carriedOut_of_accepted isAccepted carried), isValue ▸ written⟩

theorem mem_live_iff_liveAt [Ord κ] [Std.TransOrd κ] [Std.LawfulEqOrd κ]
    {map : Std.ExtTreeMap κ (Lww ν)}
    {value : ν} : value ∈ live map ↔ ∃ key, liveAt map key = some value := by
  rw [mem_live]
  refine exists_congr fun key => ?_
  rw [liveAt, Option.bind_eq_some_iff]
  constructor
  · rintro ⟨stamp, found⟩
    exact ⟨_, found, rfl⟩
  · rintro ⟨⟨stamp, value⟩, found, rfl⟩
    exact ⟨stamp, found⟩

/-- The values of a snapshot by their keys are the live values. -/
theorem getElem?_keyed_live [Ord κ] [Std.TransOrd κ] [Std.LawfulEqOrd κ] [DecidableEq κ]
    {map : Std.ExtTreeMap κ (Lww ν)}
    {name : ν -> Option κ}
    (named : ∀ key value, liveAt map key = some value -> name value = some key)
    (key : κ) : (keyed name (live map))[key]? = liveAt map key :=
  getElem?_keyed_eq (fun _ => mem_live_iff_liveAt) named key

/-- The changes of a map are gone after they were made. -/
theorem map_settles [Ord κ] [Std.TransOrd κ] [Std.LawfulEqOrd κ] [DecidableEq κ]
    {sha256 : Bytes -> Digest} {kinds : List Op} {before after : PersonalState}
    (applied : Applied sha256 kinds before after)
    {write : Op -> Option (κ × Option ν)}
    {read : PersonalState -> Std.ExtTreeMap κ (Lww ν)}
    (isMap : IsMap sha256 (entryOf sha256 write) Lww.stamp read)
    {differs : κ -> Option ν -> ν -> Bool} {set : ν -> Op} {remove : κ -> ν -> Op}
    {name : ν -> Option κ} {want : Std.ExtTreeMap κ ν} (stored : ν -> ν)
    (named : ∀ kind key value, taken kind = true -> write kind = some (key, some value) ->
      name value = some key)
    (inside : ∀ kind ∈ changes differs set remove (keyed name (live (read before))) want,
      kind ∈ kinds)
    (only : ∀ kind ∈ kinds, ∀ entry, write kind = some entry ->
      kind ∈ changes differs set remove (keyed name (live (read before))) want)
    (sets : ∀ (key : κ) (value : ν), want[key]? = some value ->
      write (set value) = some (key, some (stored value)))
    (removes : ∀ key value, name value = some key -> write (remove key value) = some (key, none))
    (settled : ∀ key value, differs key (some (stored value)) value = false) :
    changes differs set remove (keyed name (live (read after))) want = [] := by
  have namedIn (state : PersonalState)
      (reached : ∃ history, state = (applyAll sha256 history .new).2)
      (key value)
      (isLive : liveAt (read state) key = some value) : name value = some key := by
    obtain ⟨kind, isTaken, written⟩ := written_of_liveAt isMap reached isLive
    exact named kind key value isTaken written
  have now := getElem?_keyed_live (namedIn before applied.reached)
  have later := getElem?_keyed_live (namedIn after applied.reached_after)
  refine changes_settle differs (keyed name (live (read before))) write stored (fun _ => True)
    (fun key value wanted _ => ⟨trivial, sets key value wanted⟩)
    (fun key value present => ⟨trivial, ?_⟩) (fun key value _ writes unique => ?_)
    (fun key unwritten => ?_) settled fun _ _ => rfl
  · rw [now] at present
    exact removes key value (namedIn before applied.reached key value present)
  · rw [later]
    obtain ⟨kind, member, written⟩ := writes
    exact applied.liveAt_after isMap ⟨kind, inside kind member, written⟩
      fun kind member other isOther => unique kind (only kind member _ isOther) other isOther
  · rw [later, now]
    exact applied.liveAt_unwritten isMap
      fun kind member value written => unwritten kind (only kind member _ written) value written

/-- The change of a register is gone after it was made. -/
theorem register_settles [DecidableEq ν]
    {sha256 : Bytes -> Digest} {kinds : List Op} {before after : PersonalState}
    (applied : Applied sha256 kinds before after) {write : Op -> Option ν}
    {read : PersonalState -> Option (Lww ν)}
    (isRegister : IsRegister sha256 write read)
    {set : ν -> Op} {default want : ν}
    (inside : ∀ kind ∈ changeRegister set ((regValue (read before)).getD default) want,
      kind ∈ kinds)
    (only : ∀ kind ∈ kinds, ∀ value, write kind = some value ->
      kind ∈ changeRegister set ((regValue (read before)).getD default) want)
    (sets : ∀ value, write (set value) = some value) :
    changeRegister set ((regValue (read after)).getD default) want = [] := by
  have settled := applied.register isRegister
    ((regValue (read before)).getD default ≠ want) want
    (fun differs => ⟨set want, inside _ (mem_changeRegister.2 ⟨differs, rfl⟩), sets want⟩) ?only
  case only =>
    intro kind member value written
    obtain ⟨differs, rfl⟩ := mem_changeRegister.1 (only kind member value written)
    exact ⟨differs, Option.some.inj (written.symm.trans (sets want))⟩
  rw [changeRegister, if_neg]
  rw [not_not]
  by_cases same : (regValue (read before)).getD default = want
  · rw [settled.2 (not_not.2 same)]
    exact same
  · rw [settled.1 same]
    rfl

/-! ## The parts -/

theorem peerKeyOf_eq_some {peer : Option Peer} {key : String} :
    peerKeyOf peer = some key ↔ optPeerKey peer = .ok key := by
  cases peer with
  | none => exact iff_of_false nofun nofun
  | some peer =>
      change (peerKey peer).toOption = some key ↔ peerKey peer = .ok key
      refine ⟨eq_ok_of_toOption, fun isKey => ?_⟩
      rw [isKey]
      rfl

section

variable {sha256 : Bytes -> Digest} {desired : StateSnapshot} {managed : Managed}
  {before after : PersonalState}

theorem asked {kind : Op}
    (part : Part) (asked : managed.Asks before.snapshot desired kind part) :
    kind ∈ diffOps before.snapshot desired managed :=
  mem_diffOps_of_asks asked

section

variable (applied : Applied sha256 (diffOps before.snapshot desired managed) before after)

include applied

theorem folders_settle
    (isManaged : managed.folders = true) : diffFolders after.snapshot desired = [] := by
  refine map_settles applied (isMap_folders sha256) id ?named ?inside ?only ?sets ?removes
    ?settled
  case inside => exact fun kind member => asked .folders ⟨isManaged, member⟩
  case only =>
    exact fun kind member entry written => (asks_of_part (part_of_foldersWrite written) member).2
  case named =>
    exact fun kind key folder _ written => congrArg some (id_of_foldersWrite written)
  case sets =>
    intro key folder wanted
    cases (mem_of_getElem?_keyed wanted).2
    rfl
  case removes =>
    intro key folder _
    rfl
  case settled => exact fun _ folder => by simp

theorem blocked_settle
    (isManaged : managed.blocked = true) : diffBlocked after.snapshot desired = [] := by
  refine map_settles applied (isMap_blocked sha256) id ?named ?inside ?only ?sets ?removes
    ?settled
  case inside => exact fun kind member => asked .blocked ⟨isManaged, member⟩
  case only =>
    exact fun kind member entry written => (asks_of_part (part_of_blockedWrite written) member).2
  case named =>
    exact fun kind key value _ written => peerKeyOf_eq_some.2 (peer_of_blockedWrite written)
  case sets =>
    intro key entry wanted
    rw [blockedWrite, peerKeyOf_eq_some.1 (mem_of_getElem?_keyed wanted).2]
    rfl
  case removes =>
    intro key entry isKey
    rw [blockedWrite, peerKeyOf_eq_some.1 isKey]
    rfl
  case settled => exact fun _ _ => rfl

theorem notify_settle
    (isManaged : managed.notify = true) : diffNotify after.snapshot desired = [] := by
  refine map_settles applied (isMap_notify sha256) PeerNotify.filled ?named ?inside ?only ?sets ?removes
    ?settled
  case inside => exact fun kind member => asked .notify ⟨isManaged, member⟩
  case only =>
    exact fun kind member entry written => (asks_of_part (part_of_notifyWrite written) member).2
  case named =>
    exact fun kind key value _ written => peerKeyOf_eq_some.2 (peer_of_notifyWrite written)
  case sets =>
    intro key notify wanted
    have isKey : optPeerKey notify.filled.peer = .ok key :=
      peerKeyOf_eq_some.1 (mem_of_getElem?_keyed wanted).2
    rw [notifyWrite, isKey]
    rfl
  case removes =>
    intro key notify isKey
    rw [notifyWrite, peerKeyOf_eq_some.1 isKey]
    rfl
  case settled => exact fun _ notify => by simp

theorem drafts_settle
    (isManaged : managed.drafts = true) : diffDrafts after.snapshot desired = [] := by
  refine map_settles applied (isMap_drafts sha256) id ?named ?inside ?only ?sets ?removes
    ?settled
  case inside => exact fun kind member => asked .drafts ⟨isManaged, member⟩
  case only =>
    exact fun kind member entry written => (asks_of_part (part_of_draftsWrite written) member).2
  case named =>
    exact fun kind key value _ written => peerKeyOf_eq_some.2 (peer_of_draftsWrite written)
  case sets =>
    intro key draft wanted
    rw [draftsWrite, peerKeyOf_eq_some.1 (mem_of_getElem?_keyed wanted).2]
    rfl
  case removes =>
    intro key draft isKey
    rw [draftsWrite, peerKeyOf_eq_some.1 isKey]
    rfl
  case settled => exact fun _ draft => by simp

theorem archived_settle
    (isManaged : managed.archived = true) : diffArchived after.snapshot desired = [] := by
  refine map_settles applied (isMap_archived sha256) id ?named ?inside ?only ?sets ?removes
    ?settled
  case inside => exact fun kind member => asked .archived ⟨isManaged, member⟩
  case only =>
    exact fun kind member entry written => (asks_of_part (part_of_archivedWrite written) member).2
  case named =>
    intro kind key peer _ written
    rw [peerKey_of_archivedWrite written]
    rfl
  case sets =>
    intro key peer wanted
    have isKey : optPeerKey (some peer) = .ok key :=
      eq_ok_of_toOption (mem_of_getElem?_keyed wanted).2
    rw [archivedWrite, isKey]
    rfl
  case removes =>
    intro key peer isKey
    have isKey : optPeerKey (some peer) = .ok key := eq_ok_of_toOption isKey
    rw [archivedWrite, isKey]
    rfl
  case settled => exact fun _ _ => rfl

theorem unread_settle
    (isManaged : managed.unread = true) : diffUnread after.snapshot desired = [] := by
  refine map_settles applied (isMap_unreadMarks sha256) id ?named ?inside ?only ?sets ?removes
    ?settled
  case inside => exact fun kind member => asked .unreadMarks ⟨isManaged, member⟩
  case only =>
    exact fun kind member entry written => (asks_of_part (part_of_unreadMarksWrite written) member).2
  case named =>
    intro kind key peer _ written
    rw [peerKey_of_unreadMarksWrite written]
    rfl
  case sets =>
    intro key peer wanted
    have isKey : optPeerKey (some peer) = .ok key :=
      eq_ok_of_toOption (mem_of_getElem?_keyed wanted).2
    rw [unreadMarksWrite, isKey]
    rfl
  case removes =>
    intro key peer isKey
    have isKey : optPeerKey (some peer) = .ok key := eq_ok_of_toOption isKey
    rw [unreadMarksWrite, isKey]
    rfl
  case settled => exact fun _ _ => rfl

theorem packs_settle
    (isManaged : managed.packs = true) : diffPacks after.snapshot desired = [] := by
  refine map_settles applied (isMap_stickerPacks sha256) id ?named ?inside ?only ?sets ?removes
    ?settled
  case inside => exact fun kind member => asked .stickerPacks ⟨isManaged, member⟩
  case only =>
    exact fun kind member entry written => (asks_of_part (part_of_stickerPacksWrite written) member).2
  case named =>
    intro kind key pack isTaken written
    cases kind <;> simp only [stickerPacksWrite, reduceCtorEq] at written
    case stickerPackSet other =>
      cases written
      rw [taken_stickerPackSet] at isTaken
      cases checked : checkStickerPack pack with
      | error error =>
          rw [checked] at isTaken
          cases isTaken
      | ok found =>
          simp only [checkStickerPack, bind_eq_ok] at checked
          obtain ⟨key, isKey, -⟩ := checked
          rw [isKey, eq_of_packKey isKey]
          rfl
    case stickerPackRemove => cases written
  case sets =>
    intro key pack wanted
    have checked := eq_ok_of_toOption (mem_of_getElem?_keyed wanted).2
    rw [eq_of_checkStickerPack checked]
    rfl
  case removes =>
    intro key pack _
    rfl
  case settled => exact fun _ pack => by simp

theorem folderOrder_settle
    (isManaged : managed.folders = true) : diffFolderOrder after.snapshot desired = [] := by
  refine register_settles applied (isRegister_folderOrder sha256) ?inside ?only fun _ => rfl
  case inside => exact fun kind member => asked .folderOrder ⟨isManaged, member⟩
  case only =>
    exact fun kind member value written =>
      (asks_of_part (part_of_folderOrderWrite written) member).2

theorem notifyDefaults_settle
    (isManaged : managed.notify = true) : diffNotifyDefaults after.snapshot desired = [] := by
  refine register_settles applied (isRegister_notifyDefaults sha256) ?inside ?only fun _ => rfl
  case inside => exact fun kind member => asked .notifyDefaults ⟨isManaged, member⟩
  case only =>
    exact fun kind member value written =>
      (asks_of_part (part_of_notifyDefaultsWrite written) member).2

theorem reaction_settle
    (isManaged : managed.reaction = true) : diffReaction after.snapshot desired = [] := by
  have settled := applied.register (isRegister_quickReaction sha256)
    (before.snapshot.quickReaction.getD ⟨"", ""⟩ ≠ desired.quickReaction.getD ⟨"", ""⟩ ∧
      (checkQuickReaction (desired.quickReaction.getD ⟨"", ""⟩)).isOk = true)
    (desired.quickReaction.getD ⟨"", ""⟩) ?inside ?only
  case inside =>
    intro asks
    exact ⟨_, asked .quickReaction ⟨isManaged, mem_diffReaction.2 ⟨asks, rfl⟩⟩, rfl⟩
  case only =>
    intro kind member value written
    obtain ⟨asks, rfl⟩ := mem_diffReaction.1
      (asks_of_part (part_of_quickReactionWrite written) member).2
    exact ⟨asks, (Option.some.inj written).symm⟩
  rw [List.eq_nil_iff_forall_not_mem]
  intro kind member
  obtain ⟨⟨differs, valid⟩, -⟩ := mem_diffReaction.1 member
  by_cases same : before.snapshot.quickReaction.getD ⟨"", ""⟩ = desired.quickReaction.getD ⟨"", ""⟩
  · refine differs ?_
    rw [← same]
    exact congrArg (fun register => (regValue register).getD ⟨"", ""⟩)
      (settled.2 fun asks => asks.1 same)
  · refine differs ?_
    change (regValue after.quickReaction).getD _ = _
    rw [settled.1 ⟨same, valid⟩]
    rfl

end

/-- The chats of a list are those of its live entry. -/
theorem peersOf_live {map : Std.ExtTreeMap Int32 (Lww PinnedOrder)}
    (named : ∀ (key : Int32) (order : PinnedOrder),
      liveAt map key = some order -> order.list = key)
    (list : Int32) :
    peersOf (live map) list = ((liveAt map list).map PinnedOrder.peers).getD [] := by
  rw [peersOf]
  cases found : (live map).find? fun order => order.list == list with
  | none =>
      cases isLive : liveAt map list with
      | none => rfl
      | some order =>
          have differs := List.find?_eq_none.1 found order (mem_live_iff_liveAt.2 ⟨list, isLive⟩)
          rw [named list order isLive, BEq.rfl] at differs
          exact absurd rfl differs
  | some order =>
      have isList : order.list = list := by simpa using List.find?_some found
      obtain ⟨key, isLive⟩ := mem_live_iff_liveAt.1 (List.mem_of_find?_eq_some found)
      rw [named key order isLive] at isList
      rw [← isList, isLive]

theorem pinned_settle
    (applied : Applied sha256 (diffOps before.snapshot desired managed) before after)
    (isManaged : managed.pinned = true) : diffPinned after.snapshot desired = [] := by
  have named (state : PersonalState)
      (reached : ∃ history, state = (applyAll sha256 history .new).2) (key order)
      (isLive : liveAt state.pinned key = some order) : order.list = key := by
    obtain ⟨kind, -, written⟩ := written_of_liveAt (isMap_pinned sha256) reached isLive
    exact list_of_pinnedWrite written
  have now := peersOf_live (named before applied.reached)
  have later := peersOf_live (named after applied.reached_after)
  -- Every change of a list is the one that is asked for.
  have only (list order) (kind) (member : kind ∈ diffOps before.snapshot desired managed)
      (written : pinnedWrite kind = some (list, order)) :
      (peersOf before.snapshot.pinned list ≠ peersOf desired.pinned list) ∧
        order = some ⟨list, peersOf desired.pinned list⟩ := by
    obtain ⟨other, -, ⟨differs, -⟩, rfl⟩ := mem_diffPinned.1
      (asks_of_part (part_of_pinnedWrite written) member).2
    cases written
    exact ⟨differs, rfl⟩
  rw [List.eq_nil_iff_forall_not_mem]
  intro kind member
  obtain ⟨list, isList, ⟨differs, valid⟩, -⟩ := mem_diffPinned.1 member
  refine differs ?_
  change peersOf (live after.pinned) list = _
  rw [later]
  by_cases same : peersOf before.snapshot.pinned list = peersOf desired.pinned list
  · rw [applied.liveAt_unwritten (isMap_pinned sha256), ← now]
    · exact same
    · intro kind member order written
      exact (only list order kind member written).1 same
  · have isAsked : Op.pinnedOrder ⟨list, peersOf desired.pinned list⟩ ∈
        diffOps before.snapshot desired managed :=
      asked .pinned ⟨isManaged, mem_diffPinned.2 ⟨list, isList, ⟨same, valid⟩, rfl⟩⟩
    rw [applied.liveAt_after (isMap_pinned sha256) ⟨_, isAsked, rfl⟩]
    · rfl
    · intro kind member other written
      exact (only list other kind member written).2

/-- The pending message with an identifier. -/
def pendingAt (state : PersonalState) (bytes : Bytes) : Option ScheduledMessage := do
  let id ← FixedBytes.ofBytes? opIdLen bytes
  if id ∈ state.scheduledSent then none else liveAt state.scheduled id

theorem pendingAt_bytes (state : PersonalState) (id : OpId) :
    pendingAt state id.bytes =
      if id ∈ state.scheduledSent then none else liveAt state.scheduled id := by
  rw [pendingAt, ofBytes?_eq_some.2 rfl]
  rfl

theorem mem_pendingScheduled_iff {state : PersonalState} {scheduled : ScheduledMessage} :
    scheduled ∈ state.pendingScheduled ↔ ∃ bytes, pendingAt state bytes = some scheduled := by
  rw [mem_pendingScheduled]
  constructor
  · rintro ⟨id, stamp, unsent, found⟩
    refine ⟨id.bytes, ?_⟩
    rw [pendingAt_bytes, if_neg unsent, liveAt, found]
    rfl
  · rintro ⟨bytes, found⟩
    obtain ⟨id, -, found⟩ := Option.bind_eq_some_iff.1 found
    split at found
    · cases found
    · next unsent =>
      obtain ⟨⟨stamp, value⟩, isEntry, rfl⟩ := Option.bind_eq_some_iff.1 found
      exact ⟨id, stamp, unsent, isEntry⟩

theorem getElem?_keyed_pending {state : PersonalState}
    (reached : ∃ history, state = (applyAll sha256 history .new).2)
    (bytes : Bytes) :
    (keyed (fun scheduled => some scheduled.opId) state.snapshot.scheduled)[bytes]? =
      pendingAt state bytes := by
  refine getElem?_keyed_eq (fun _ => mem_pendingScheduled_iff) (fun bytes scheduled found => ?_) bytes
  obtain ⟨id, isId, found⟩ := Option.bind_eq_some_iff.1 found
  split at found
  · cases found
  · obtain ⟨kind, -, written⟩ := written_of_liveAt (isMap_scheduled sha256) reached found
    rw [← opId_of_scheduledWrite written, ofBytes?_eq_some.1 isId]

theorem contains_scheduledSent {state : PersonalState} {id : OpId} :
    state.snapshot.scheduledSent.contains id.bytes = true ↔ id ∈ state.scheduledSent := by
  rw [List.contains_iff_mem]
  change id.bytes ∈ state.scheduledSent.toList.map FixedBytes.bytes ↔ _
  rw [List.mem_map_of_injective FixedBytes.bytes_injective, Std.ExtTreeSet.mem_toList]

/-- Diffs do not mark messages as sent. -/
theorem scheduledSent_eq
    (applied : Applied sha256 (diffOps before.snapshot desired managed) before after) :
    after.scheduledSent = before.scheduledSent := by
  obtain ⟨_, _, _, ops, stamped, -, -, rfl⟩ := applied.ran
  have same : SameOutside (fun part => managed.manages part = true) before
      (applyAll sha256 ops before).2 := by
    refine sameOutside_applyAll sha256 (fun op member kind carried => ?_) before
    have isKind : some kind ∈ (diffOps before.snapshot desired managed).map some := by
      rw [← stamped.map_op, ← carried]
      exact List.mem_map_of_mem member
    obtain ⟨_, isMember, same⟩ := List.mem_map.1 isKind
    cases same
    exact manages_of_mem_diffOps isMember
  exact same.scheduledSent Bool.false_ne_true

theorem scheduled_settle
    (applied : Applied sha256 (diffOps before.snapshot desired managed) before after)
    (isManaged : managed.scheduled = true) : diffScheduled after.snapshot desired = [] := by
  have now := getElem?_keyed_pending applied.reached
  have later := getElem?_keyed_pending applied.reached_after
  have sent := scheduledSent_eq applied
  have inside (kind) (member : kind ∈ diffScheduled before.snapshot desired) :
      kind ∈ diffOps before.snapshot desired managed :=
    asked .scheduled ⟨isManaged, member⟩
  have only (kind entry) (member : kind ∈ diffOps before.snapshot desired managed)
      (written : scheduledWrite kind = some entry) : kind ∈ diffScheduled before.snapshot desired :=
    (asks_of_part (part_of_scheduledWrite written) member).2
  have marked (bytes : Bytes) : after.snapshot.scheduledSent.contains bytes =
      before.snapshot.scheduledSent.contains bytes := by
    change (after.scheduledSent.toList.map FixedBytes.bytes).contains bytes = _
    rw [sent]
    rfl
  refine changes_settle
    (fun bytes found scheduled =>
      found != some scheduled && !before.snapshot.scheduledSent.contains bytes)
    (keyed (fun scheduled => some scheduled.opId) before.snapshot.scheduled)
    (fun kind => (scheduledWrite kind).map fun entry => (entry.1.bytes, entry.2)) id
    (fun bytes => ∃ id : OpId, id.bytes = bytes ∧ id ∉ before.scheduledSent)
    ?sets ?removes ?written ?unwritten ?settled ?alike
  case sets =>
    intro bytes scheduled wanted differs
    have member : Op.scheduledSet scheduled ∈ diffScheduled before.snapshot desired :=
      mem_changes.2 (.inl ⟨bytes, scheduled, wanted, differs, rfl⟩)
    have wellFormed := applied.taken_of_mem (inside _ member)
    rw [taken_scheduledSet, ScheduledMessage.isWellFormed] at wellFormed
    simp only [Bool.and_eq_true, beq_iff_eq] at wellFormed
    have named : scheduled.opId = bytes := Option.some.inj (mem_of_getElem?_keyed wanted).2
    rw [Bool.and_eq_true, Bool.not_eq_true'] at differs
    let id : OpId := ⟨bytes, named ▸ wellFormed.1.1.1⟩
    refine ⟨⟨id, rfl, fun isSent => ?_⟩, ?_⟩
    · have contains : before.snapshot.scheduledSent.contains id.bytes = true :=
        contains_scheduledSent.2 isSent
      exact Bool.noConfusion (contains.symm.trans differs.2)
    · have isId : FixedBytes.ofBytes? opIdLen scheduled.opId = some id :=
        ofBytes?_eq_some.2 named.symm
      rw [scheduledWrite, isId]
      rfl
  case removes =>
    intro bytes scheduled present
    rw [now] at present
    obtain ⟨id, isId, present⟩ := Option.bind_eq_some_iff.1 present
    split at present
    · cases present
    · next unsent =>
      refine ⟨⟨id, ofBytes?_eq_some.1 isId, unsent⟩, ?_⟩
      rw [scheduledWrite, isId]
      exact congrArg (fun bytes => some (bytes, none)) (ofBytes?_eq_some.1 isId)
  case written =>
    rintro _ value ⟨id, rfl, unsent⟩ ⟨kind, member, isWritten⟩ unique
    have ofMapped (kind) (other : Option ScheduledMessage)
        (isWritten : (scheduledWrite kind).map (fun entry => (entry.1.bytes, entry.2)) =
          some (id.bytes, other)) : scheduledWrite kind = some (id, other) := by
      obtain ⟨⟨found, value⟩, isEntry, same⟩ := Option.map_eq_some_iff.1 isWritten
      obtain ⟨sameId, rfl⟩ := Prod.mk.inj same
      rw [isEntry, ← FixedBytes.bytes_injective sameId]
    rw [later, pendingAt_bytes, sent, if_neg unsent]
    refine applied.liveAt_after (isMap_scheduled sha256)
      ⟨kind, inside kind member, ofMapped kind value isWritten⟩ fun kind member other isOther => ?_
    refine unique kind (only kind _ member isOther) other ?_
    rw [isOther]
    rfl
  case unwritten =>
    intro bytes unwritten
    rw [later, now, pendingAt, pendingAt, sent]
    cases isId : FixedBytes.ofBytes? opIdLen bytes with
    | none => rfl
    | some id =>
        simp only [Option.bind_eq_bind, Option.bind_some]
        refine if_congr Iff.rfl rfl ?_
        refine applied.liveAt_unwritten (isMap_scheduled sha256) fun kind member value written => ?_
        refine unwritten kind (only kind _ member written) value ?_
        rw [written, ← ofBytes?_eq_some.1 isId]
        rfl
  case settled => exact fun _ scheduled => by simp
  case alike =>
    intro bytes scheduled
    rw [marked]

end

/-! ## Whole diffs -/

/-- Nothing is asked for again. -/
theorem diffOps_settle {sha256 : Bytes -> Digest} {desired : StateSnapshot} {managed : Managed}
    {before after : PersonalState}
    (applied : Applied sha256 (diffOps before.snapshot desired managed) before after) :
    diffOps after.snapshot desired managed = [] := by
  have flagged {flag : Bool} {list : List Op} (settles : flag = true -> list = []) :
      (if flag = true then list else []) = [] := by
    split
    · next isManaged => exact settles isManaged
    · rfl
  simp only [diffOps, List.append_eq_nil_iff]
  refine ⟨⟨⟨⟨⟨⟨⟨⟨⟨?_, ?_⟩, ?_⟩, ?_⟩, ?_⟩, ?_⟩, ?_⟩, ?_⟩, ?_⟩, ?_⟩
  · refine flagged fun isManaged => List.append_eq_nil_iff.2 ?_
    exact ⟨folders_settle applied isManaged, folderOrder_settle applied isManaged⟩
  · exact flagged (blocked_settle applied)
  · refine flagged fun isManaged => List.append_eq_nil_iff.2 ?_
    exact ⟨notify_settle applied isManaged, notifyDefaults_settle applied isManaged⟩
  · exact flagged (drafts_settle applied)
  · exact flagged (scheduled_settle applied)
  · exact flagged (archived_settle applied)
  · exact flagged (unread_settle applied)
  · exact flagged (packs_settle applied)
  · exact flagged (reaction_settle applied)
  · exact flagged (pinned_settle applied)

/-- The drafts and the scheduled messages that the host asks for are well formed, those apart
that were sent. -/
structure WellFormed (state : PersonalState) (desired : StateSnapshot) (managed : Managed) :
    Prop where
  drafts : managed.drafts = true -> ∀ (key : String) (draft : Draft),
    (keyed (fun draft => peerKeyOf draft.peer) desired.drafts)[key]? = some draft ->
      draft.isWellFormed = true
  scheduled : managed.scheduled = true -> ∀ (bytes : Bytes) (scheduled : ScheduledMessage),
    (keyed (fun scheduled => some scheduled.opId) desired.scheduled)[bytes]? = some scheduled ->
      scheduled.isWellFormed = true ∨ state.snapshot.scheduledSent.contains bytes = true

theorem isOk_optPeerKey {peer : Option Peer} {key : String} (isKey : peerKeyOf peer = some key) :
    (optPeerKey peer).isOk = true := by
  rw [peerKeyOf_eq_some.1 isKey]
  rfl

theorem isOk_optPeerKey_some {peer : Peer} {key : String}
    (isKey : (peerKey peer).toOption = some key) : (optPeerKey (some peer)).isOk = true :=
  isOk_optPeerKey isKey

theorem checkFolderId_of_checkFolder {folder : Folder}
    (checked : (checkFolder folder).isOk = true) : (checkFolderId folder.id).isOk = true := by
  rw [checkFolder] at checked
  cases isId : checkFolderId folder.id with
  | error error =>
      rw [isId] at checked
      cases checked
  | ok _ => rfl

section

variable {sha256 : Bytes -> Digest} {desired : StateSnapshot} {managed : Managed}
  {state : PersonalState}

theorem taken_of_mem_diffFolders
    (reached : ∃ history, state = (applyAll sha256 history .new).2)
    {kind : Op}
    (member : kind ∈ diffFolders state.snapshot desired) : taken kind = true := by
  rcases mem_changes.1 member with ⟨id, folder, wanted, -, rfl⟩ | ⟨id, folder, present, -, rfl⟩
  · have kept := (mem_of_getElem?_keyed wanted).1
    exact (taken_folderSet folder).trans (List.mem_filter.1 kept).2
  · obtain ⟨listed, isId⟩ := mem_of_getElem?_keyed present
    obtain ⟨key, isLive⟩ := mem_live_iff_liveAt.1 listed
    obtain ⟨first, isTaken, written⟩ := written_of_liveAt (isMap_folders sha256) reached isLive
    rw [taken_folderRemove, ← Option.some.inj isId]
    cases first <;> simp only [foldersWrite, reduceCtorEq] at written
    case folderSet other =>
      cases written
      exact checkFolderId_of_checkFolder ((taken_folderSet folder).symm.trans isTaken)
    case folderRemove => cases written

theorem taken_of_mem_diffPacks {kind : Op}
    (member : kind ∈ diffPacks state.snapshot desired) : taken kind = true := by
  rcases mem_changes.1 member with ⟨id, pack, wanted, -, rfl⟩ | ⟨id, pack, present, -, rfl⟩
  · rw [taken_stickerPackSet, eq_ok_of_toOption (mem_of_getElem?_keyed wanted).2]
    rfl
  · have checked := eq_ok_of_toOption (mem_of_getElem?_keyed present).2
    rw [taken_stickerPackRemove, eq_of_packKey checked, checked]
    rfl

section

variable (reached : ∃ history, state = (applyAll sha256 history .new).2)

include reached

theorem taken_of_mem_diffScheduled
    (wellFormed : WellFormed state desired managed) (isManaged : managed.scheduled = true)
    {kind : Op}
    (member : kind ∈ diffScheduled state.snapshot desired) : taken kind = true := by
  rcases mem_changes.1 member with
    ⟨bytes, scheduled, wanted, differs, rfl⟩ | ⟨bytes, scheduled, present, -, rfl⟩
  · rw [Bool.and_eq_true, Bool.not_eq_true'] at differs
    rw [taken_scheduledSet]
    refine (wellFormed.scheduled isManaged bytes scheduled wanted).resolve_right ?_
    rw [differs.2]
    exact Bool.false_ne_true
  · rw [getElem?_keyed_pending reached] at present
    obtain ⟨id, isId, -⟩ := Option.bind_eq_some_iff.1 present
    rw [taken_scheduledRemove, ← ofBytes?_eq_some.1 isId, id.length_eq, BEq.rfl]

/-- Every change that is asked for is accepted. -/
theorem taken_of_mem_diffOps
    (wellFormed : WellFormed state desired managed) {kind : Op}
    (member : kind ∈ diffOps state.snapshot desired managed) : taken kind = true := by
  have asks := asks_of_mem_diffOps member
  generalize kind.part = part at asks
  cases part <;> try exact asks.elim
  case folders => exact taken_of_mem_diffFolders reached asks.2
  case folderOrder =>
    rw [(mem_changeRegister.1 asks.2).2]
    rfl
  case blocked =>
    rcases mem_changes.1 asks.2 with ⟨key, entry, wanted, -, rfl⟩ | ⟨key, entry, present, -, rfl⟩
    · exact (taken_blockSet entry).trans (isOk_optPeerKey (mem_of_getElem?_keyed wanted).2)
    · exact (taken_blockRemove _).trans (isOk_optPeerKey (mem_of_getElem?_keyed present).2)
  case notify =>
    rcases mem_changes.1 asks.2 with ⟨key, entry, wanted, -, rfl⟩ | ⟨key, entry, present, -, rfl⟩
    · exact (taken_notifySet entry.filled).trans (isOk_optPeerKey (mem_of_getElem?_keyed wanted).2)
    · exact (taken_notifyRemove _).trans (isOk_optPeerKey (mem_of_getElem?_keyed present).2)
  case notifyDefaults =>
    rw [(mem_changeRegister.1 asks.2).2]
    rfl
  case drafts =>
    rcases mem_changes.1 asks.2 with ⟨key, draft, wanted, -, rfl⟩ | ⟨key, draft, present, -, rfl⟩
    · rw [taken_draftSet, isOk_optPeerKey (mem_of_getElem?_keyed wanted).2,
        wellFormed.drafts asks.1 key draft wanted]
      rfl
    · exact (taken_draftRemove _).trans (isOk_optPeerKey (mem_of_getElem?_keyed present).2)
  case scheduled => exact taken_of_mem_diffScheduled reached wellFormed asks.1 asks.2
  case archived =>
    rcases mem_changes.1 asks.2 with ⟨key, peer, wanted, -, rfl⟩ | ⟨key, peer, present, -, rfl⟩
    · exact (taken_archiveSet _).trans (isOk_optPeerKey_some (mem_of_getElem?_keyed wanted).2)
    · exact (taken_archiveRemove _).trans
        (isOk_optPeerKey_some (mem_of_getElem?_keyed present).2)
  case pinned =>
    obtain ⟨list, isList, ⟨-, valid⟩, rfl⟩ := mem_diffPinned.1 asks.2
    rw [taken_pinnedOrder, valid, Bool.and_true]
    rcases List.mem_cons.1 isList with rfl | isList
    · rfl
    · cases List.mem_singleton.1 isList
      rfl
  case unreadMarks =>
    rcases mem_changes.1 asks.2 with ⟨key, peer, wanted, -, rfl⟩ | ⟨key, peer, present, -, rfl⟩
    · exact (taken_unreadMarkSet _).trans (isOk_optPeerKey_some (mem_of_getElem?_keyed wanted).2)
    · exact (taken_unreadMarkRemove _).trans
        (isOk_optPeerKey_some (mem_of_getElem?_keyed present).2)
  case quickReaction =>
    obtain ⟨⟨-, valid⟩, rfl⟩ := mem_diffReaction.1 asks.2
    exact (taken_quickReaction _).trans valid
  case stickerPacks => exact taken_of_mem_diffPacks asks.2

/-- If all changes are accepted, then what is asked for is well formed. -/
theorem wellFormed_of_taken
    (allTaken : ∀ kind ∈ diffOps state.snapshot desired managed, taken kind = true) :
    WellFormed state desired managed where
  drafts := by
    intro isManaged key draft wanted
    have named (key) (value : Draft) (isLive : liveAt state.drafts key = some value) :
        peerKeyOf value.peer = some key := by
      obtain ⟨kind, -, written⟩ := written_of_liveAt (isMap_drafts sha256) reached isLive
      exact peerKeyOf_eq_some.2 (peer_of_draftsWrite written)
    by_cases same : liveAt state.drafts key = some draft
    · obtain ⟨kind, isTaken, written⟩ := written_of_liveAt (isMap_drafts sha256) reached same
      cases kind <;> simp only [draftsWrite, reduceCtorEq] at written
      case draftSet other =>
        cases (eq_ok_of_map_toOption written).2
        rw [taken_draftSet, Bool.and_eq_true] at isTaken
        exact isTaken.2
      case draftRemove => cases (eq_ok_of_map_toOption written).2
    · have differs : Op.draftSet draft ∈ diffDrafts state.snapshot desired := by
        refine mem_changes.2 (.inl ⟨key, draft, wanted, ?_, rfl⟩)
        rw [bne_iff_ne]
        exact fun isItem => same ((getElem?_keyed_live named key).symm.trans isItem)
      have isTaken := allTaken _ (asked .drafts ⟨isManaged, differs⟩)
      rw [taken_draftSet, Bool.and_eq_true] at isTaken
      exact isTaken.2
  scheduled := by
    intro isManaged bytes scheduled wanted
    by_cases isSent : state.snapshot.scheduledSent.contains bytes = true
    · exact .inr isSent
    left
    by_cases same : pendingAt state bytes = some scheduled
    · obtain ⟨id, isId, found⟩ := Option.bind_eq_some_iff.1 same
      split at found
      · cases found
      · obtain ⟨kind, isTaken, written⟩ := written_of_liveAt (isMap_scheduled sha256) reached found
        cases kind <;> simp only [scheduledWrite, reduceCtorEq] at written
        case scheduledSet other =>
          obtain ⟨_, -, isOther⟩ := Option.map_eq_some_iff.1 written
          cases isOther
          exact (taken_scheduledSet scheduled).symm.trans isTaken
        case scheduledRemove =>
          obtain ⟨_, -, isOther⟩ := Option.map_eq_some_iff.1 written
          cases isOther
    · have differs : Op.scheduledSet scheduled ∈ diffScheduled state.snapshot desired := by
        refine mem_changes.2 (.inl ⟨bytes, scheduled, wanted, ?_, rfl⟩)
        rw [Bool.and_eq_true, bne_iff_ne, Bool.not_eq_true', ← Bool.not_eq_true]
        refine ⟨fun isItem => same ?_, isSent⟩
        exact (getElem?_keyed_pending reached bytes).symm.trans isItem
      exact (taken_scheduledSet scheduled).symm.trans
        (allTaken _ (asked .scheduled ⟨isManaged, differs⟩))

end

end

/-- The stamped changes are all accepted when their kinds are. -/
theorem StampedBy.accepted_iff
    (sha256 : Bytes -> Digest)
    {deviceId : String} {tsMs : Int64} {clock : LamportClock} {kinds : List Op} {ops : List StateOp}
    (stamped : StampedBy deviceId tsMs clock kinds ops) :
    (∀ op ∈ ops, accepted sha256 op = true) ↔ ∀ kind ∈ kinds, taken kind = true := by
  induction stamped with
  | nil => simp
  | cons made rest inductionHypothesis =>
      rw [List.forall_mem_cons, List.forall_mem_cons, inductionHypothesis,
        accepted_iff_carriedOut made, carriedOut_iff_taken]

/-- The positions of refused operations are empty when all are accepted. -/
theorem applyAll_refuses_none
    {sha256 : Bytes -> Digest} {ops : List StateOp} {state : PersonalState} :
    (applyAll sha256 ops state).1 = [] ↔ ∀ op ∈ ops, accepted sha256 op = true := by
  rw [List.eq_nil_iff_forall_not_mem]
  simp only [applyAll, mem_applyAllFrom, not_exists, not_and, Bool.not_eq_false]
  constructor
  · intro none op member
    obtain ⟨position, isAt⟩ := List.getElem?_of_mem member
    exact none _ position op rfl isAt
  · intro all _ position op _ isAt
    exact all op (List.mem_of_getElem? isAt)

/-- A diff that is stamped and applied is accepted and leaves nothing to change exactly when the
drafts and the scheduled messages that are asked for are well formed. -/
theorem diff_converges_iff
    (sha256 : Bytes -> Digest)
    (history : List StateOp)
    (desired : StateSnapshot)
    (managed : Managed)
    {deviceId : String}
    {tsMs : Int64}
    {clock : LamportClock}
    {ops : List StateOp}
    (behind : (applyAll sha256 history .new).2.maxLamport ≤ clock.last)
    (stamped : StampedBy deviceId tsMs clock
      (diffOps (applyAll sha256 history .new).2.snapshot desired managed) ops) :
    let state := (applyAll sha256 history .new).2
    let ran := applyAll sha256 ops state
    ran.1 = [] ∧ diffOps ran.2.snapshot desired managed = [] ↔
      WellFormed state desired managed := by
  have reached : ∃ earlier, (applyAll sha256 history .new).2 = (applyAll sha256 earlier .new).2 :=
    ⟨history, rfl⟩
  intro state ran
  rw [applyAll_refuses_none]
  constructor
  · rintro ⟨allAccepted, -⟩
    exact wellFormed_of_taken reached ((stamped.accepted_iff sha256).1 allAccepted)
  · intro wellFormed
    have allAccepted := (stamped.accepted_iff sha256).2
      fun kind member => taken_of_mem_diffOps reached wellFormed member
    exact ⟨allAccepted, diffOps_settle
      ⟨reached, deviceId, tsMs, clock, ops, stamped, behind, allAccepted, rfl⟩⟩

def sampleDraft (reply : Bytes) : Draft where
  peer := some ⟨some (.user ⟨"bob@example.org"⟩)⟩
  text := [1]
  replyToOpId := reply
  dateMs := 0

theorem stampedBy_draft (reply : Bytes) :
    StampedBy "device-2" 0 ⟨0⟩ [.draftSet (sampleDraft reply)]
      [movedBy 1 0 (.draftSet (sampleDraft reply))] := by
  have device : isValidDeviceId "device-2" = true := by decide +kernel
  exact .cons (makeOpWithId_eq_ok.2 ⟨device, by decide, rfl, rfl⟩) (.nil _)

/-- A draft without a reply is written once. -/
theorem diff_converges_iff_sample :
    let desired := { emptySnapshot with drafts := [sampleDraft []] }
    let ran := applyAll sampleDigest [movedBy 1 0 (.draftSet (sampleDraft []))] .new
    ran.1 = [] ∧ diffOps ran.2.snapshot desired { drafts := true } = [] := by
  have asks : diffOps emptySnapshot { emptySnapshot with drafts := [sampleDraft []] }
      { drafts := true } = [.draftSet (sampleDraft [])] := by
    decide +kernel
  have stamped : StampedBy "device-2" 0 ⟨0⟩
      (diffOps (applyAll sampleDigest [] .new).2.snapshot
        { emptySnapshot with drafts := [sampleDraft []] } { drafts := true })
      [movedBy 1 0 (.draftSet (sampleDraft []))] := by
    change StampedBy _ _ _ (diffOps emptySnapshot _ _) _
    rw [asks]
    exact stampedBy_draft []
  have behind : (applyAll sampleDigest [] .new).2.maxLamport ≤ (⟨0⟩ : LamportClock).last := le_rfl
  refine (diff_converges_iff sampleDigest [] _ _ behind stamped).2 ⟨fun _ key draft wanted => ?_, ?_⟩
  · cases List.mem_singleton.1 (mem_of_getElem?_keyed wanted).1
    rfl
  · intro isManaged
    cases isManaged

/-- A draft that replies to an identifier of three bytes is refused and asked for again. -/
theorem draft_asked_again :
    let desired := { emptySnapshot with drafts := [sampleDraft [1, 2, 3]] }
    let ops := [movedBy 1 0 (.draftSet (sampleDraft [1, 2, 3]))]
    let ran := applyAll sampleDigest ops .new
    StampedBy "device-2" 0 ⟨0⟩ (diffOps emptySnapshot desired { drafts := true }) ops ∧
      ran.1 = [0] ∧
      diffOps ran.2.snapshot desired { drafts := true } =
        diffOps emptySnapshot desired { drafts := true } ∧
      diffOps ran.2.snapshot desired { drafts := true } ≠ [] := by
  have asks : diffOps emptySnapshot { emptySnapshot with drafts := [sampleDraft [1, 2, 3]] }
      { drafts := true } = [.draftSet (sampleDraft [1, 2, 3])] := by
    decide +kernel
  refine ⟨?_, by decide +kernel, by decide +kernel, by decide +kernel⟩
  rw [asks]
  exact stampedBy_draft [1, 2, 3]

end Parvane.State
