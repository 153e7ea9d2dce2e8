import Parvane.State.Entries
import Parvane.State.Migration

/-!
# What changes of a host leave alone

An operation writes one part of the state.  What a host asks for writes only the parts it
manages, and local data that moves into the journal writes only what the journal lacks.
-/

namespace Parvane.State

open Wire

/-- The parts of the state. -/
inductive Part
  | folders
  | folderOrder
  | blocked
  | notify
  | notifyDefaults
  | drafts
  | scheduled
  | scheduledSent
  | archived
  | pinned
  | calls
  | cleared
  | invites
  | plannerContainer
  | cloudContainers
  | unreadMarks
  | quickReaction
  | stickerPacks
  deriving DecidableEq

/-- The part that an operation writes. -/
def Op.part : Op -> Part
  | .folderSet _ | .folderRemove _ => .folders
  | .folderOrder _ => .folderOrder
  | .blockSet _ | .blockRemove _ => .blocked
  | .notifySet _ | .notifyRemove _ => .notify
  | .notifyDefaults _ => .notifyDefaults
  | .draftSet _ | .draftRemove _ => .drafts
  | .scheduledSet _ | .scheduledRemove _ => .scheduled
  | .scheduledSent _ => .scheduledSent
  | .archiveSet _ | .archiveRemove _ => .archived
  | .pinnedOrder _ => .pinned
  | .callSet _ | .callRemove _ => .calls
  | .chatCleared _ => .cleared
  | .groupInviteSet _ | .groupInviteRemove _ => .invites
  | .plannerContainerSet _ => .plannerContainer
  | .cloudContainerSet _ => .cloudContainers
  | .unreadMarkSet _ | .unreadMarkRemove _ => .unreadMarks
  | .quickReaction _ => .quickReaction
  | .stickerPackSet _ | .stickerPackRemove _ => .stickerPacks

/-- Only some parts of the state differ. -/
structure SameOutside (touched : Part -> Prop) (before after : PersonalState) : Prop where
  folders : ¬ touched .folders -> after.folders = before.folders
  folderOrder : ¬ touched .folderOrder -> after.folderOrder = before.folderOrder
  blocked : ¬ touched .blocked -> after.blocked = before.blocked
  notify : ¬ touched .notify -> after.notify = before.notify
  notifyDefaults : ¬ touched .notifyDefaults -> after.notifyDefaults = before.notifyDefaults
  drafts : ¬ touched .drafts -> after.drafts = before.drafts
  scheduled : ¬ touched .scheduled -> after.scheduled = before.scheduled
  scheduledSent : ¬ touched .scheduledSent -> after.scheduledSent = before.scheduledSent
  archived : ¬ touched .archived -> after.archived = before.archived
  pinned : ¬ touched .pinned -> after.pinned = before.pinned
  calls : ¬ touched .calls -> after.calls = before.calls
  cleared : ¬ touched .cleared -> after.cleared = before.cleared
  invites : ¬ touched .invites -> after.invites = before.invites
  plannerContainer :
    ¬ touched .plannerContainer -> after.plannerContainer = before.plannerContainer
  cloudContainers : ¬ touched .cloudContainers -> after.cloudContainers = before.cloudContainers
  unreadMarks : ¬ touched .unreadMarks -> after.unreadMarks = before.unreadMarks
  quickReaction : ¬ touched .quickReaction -> after.quickReaction = before.quickReaction
  stickerPacks : ¬ touched .stickerPacks -> after.stickerPacks = before.stickerPacks

section

variable {touched : Part -> Prop}

theorem SameOutside.refl (state : PersonalState) : SameOutside touched state state := by
  constructor <;> exact fun _ => rfl

theorem SameOutside.trans {first second third : PersonalState}
    (left : SameOutside touched first second)
    (right : SameOutside touched second third) : SameOutside touched first third where
  folders untouched := (right.folders untouched).trans (left.folders untouched)
  folderOrder untouched := (right.folderOrder untouched).trans (left.folderOrder untouched)
  blocked untouched := (right.blocked untouched).trans (left.blocked untouched)
  notify untouched := (right.notify untouched).trans (left.notify untouched)
  notifyDefaults untouched :=
    (right.notifyDefaults untouched).trans (left.notifyDefaults untouched)
  drafts untouched := (right.drafts untouched).trans (left.drafts untouched)
  scheduled untouched := (right.scheduled untouched).trans (left.scheduled untouched)
  scheduledSent untouched := (right.scheduledSent untouched).trans (left.scheduledSent untouched)
  archived untouched := (right.archived untouched).trans (left.archived untouched)
  pinned untouched := (right.pinned untouched).trans (left.pinned untouched)
  calls untouched := (right.calls untouched).trans (left.calls untouched)
  cleared untouched := (right.cleared untouched).trans (left.cleared untouched)
  invites untouched := (right.invites untouched).trans (left.invites untouched)
  plannerContainer untouched :=
    (right.plannerContainer untouched).trans (left.plannerContainer untouched)
  cloudContainers untouched :=
    (right.cloudContainers untouched).trans (left.cloudContainers untouched)
  unreadMarks untouched := (right.unreadMarks untouched).trans (left.unreadMarks untouched)
  quickReaction untouched := (right.quickReaction untouched).trans (left.quickReaction untouched)
  stickerPacks untouched := (right.stickerPacks untouched).trans (left.stickerPacks untouched)

theorem sameOutside_writeKind {kind : Op}
    (within : touched kind.part) (stamp : Stamp)
    (state : PersonalState) : SameOutside touched state (writeKind stamp kind state) := by
  cases kind <;> constructor <;> intro untouched <;>
    first
    | rfl
    | exact absurd within untouched

theorem sameOutside_effect {sha256 : Bytes -> Digest} {op : StateOp}
    (within : ∀ kind ∈ op.op, touched kind.part)
    (state : PersonalState) : SameOutside touched state (effect sha256 state op) := by
  have same : SameOutside touched state state := .refl state
  unfold effect
  cases stampOf sha256 op with
  | none => exact { same with }
  | some stamp =>
      cases carried : op.op with
      | none => exact { same with }
      | some kind =>
          have written := sameOutside_writeKind (within kind carried) stamp state
          exact { written with }

theorem sameOutside_applyAll
    (sha256 : Bytes -> Digest) {ops : List StateOp}
    (within : ∀ op ∈ ops, ∀ kind ∈ op.op, touched kind.part)
    (state : PersonalState) : SameOutside touched state (applyAll sha256 ops state).2 := by
  rw [applyAll, applyAllFrom_state]
  have within (op) (member : op ∈ ops.filter (accepted sha256)) :=
    within op (List.mem_of_mem_filter member)
  revert within
  generalize ops.filter (accepted sha256) = ops
  intro within
  induction ops generalizing state with
  | nil => exact .refl state
  | cons op ops inductionHypothesis =>
      rw [List.forall_mem_cons] at within
      exact (sameOutside_effect within.1 state).trans (inductionHypothesis _ within.2)

end

/-! ## Changes of the managed kinds -/

/-- The parts that a host manages. -/
def Managed.manages (managed : Managed) : Part -> Bool
  | .folders | .folderOrder => managed.folders
  | .blocked => managed.blocked
  | .notify | .notifyDefaults => managed.notify
  | .drafts => managed.drafts
  | .scheduled => managed.scheduled
  | .archived => managed.archived
  | .pinned => managed.pinned
  | .unreadMarks => managed.unread
  | .quickReaction => managed.reaction
  | .stickerPacks => managed.packs
  | .scheduledSent | .calls | .cleared | .invites | .plannerContainer | .cloudContainers => false

theorem part_of_mem_changes [Ord κ] [Std.TransOrd κ]
    {differs : κ -> Option ν -> ν -> Bool} {set : ν -> Op} {remove : κ -> ν -> Op}
    {current want : Std.ExtTreeMap κ ν} {part : Part} {kind : Op}
    (member : kind ∈ changes differs set remove current want)
    (sets : ∀ value, (set value).part = part)
    (removes : ∀ key value, (remove key value).part = part) : kind.part = part := by
  rw [changes, List.mem_append, List.mem_map, List.mem_map] at member
  rcases member with ⟨entry, -, rfl⟩ | ⟨entry, -, rfl⟩
  · exact sets entry.2
  · exact removes entry.1 entry.2

theorem mem_changeRegister [DecidableEq ν]
    {set : ν -> Op} {current want : ν} {kind : Op} :
    kind ∈ changeRegister set current want ↔ current ≠ want ∧ kind = set want := by
  rw [changeRegister]
  split
  · next differs => simp [differs]
  · next same => simp [same]

/-- The operation of a part is one of the changes that the host asks for there. -/
def Managed.Asks (managed : Managed) (current desired : StateSnapshot) (kind : Op) :
    Part -> Prop
  | .folders => managed.folders = true ∧ kind ∈ diffFolders current desired
  | .folderOrder => managed.folders = true ∧ kind ∈ diffFolderOrder current desired
  | .blocked => managed.blocked = true ∧ kind ∈ diffBlocked current desired
  | .notify => managed.notify = true ∧ kind ∈ diffNotify current desired
  | .notifyDefaults => managed.notify = true ∧ kind ∈ diffNotifyDefaults current desired
  | .drafts => managed.drafts = true ∧ kind ∈ diffDrafts current desired
  | .scheduled => managed.scheduled = true ∧ kind ∈ diffScheduled current desired
  | .archived => managed.archived = true ∧ kind ∈ diffArchived current desired
  | .pinned => managed.pinned = true ∧ kind ∈ diffPinned current desired
  | .unreadMarks => managed.unread = true ∧ kind ∈ diffUnread current desired
  | .quickReaction => managed.reaction = true ∧ kind ∈ diffReaction current desired
  | .stickerPacks => managed.packs = true ∧ kind ∈ diffPacks current desired
  | .scheduledSent | .calls | .cleared | .invites | .plannerContainer | .cloudContainers => False

variable {current desired : StateSnapshot}

theorem mem_diffReaction {kind : Op} :
    kind ∈ diffReaction current desired ↔
      (current.quickReaction.getD ⟨"", ""⟩ ≠ desired.quickReaction.getD ⟨"", ""⟩ ∧
        (checkQuickReaction (desired.quickReaction.getD ⟨"", ""⟩)).isOk = true) ∧
      kind = .quickReaction (desired.quickReaction.getD ⟨"", ""⟩) := by
  rw [diffReaction]
  split
  · next asked => simp [asked]
  · next same => simp [same]

theorem mem_diffPinned {kind : Op} :
    kind ∈ diffPinned current desired ↔
      ∃ list ∈ ([1, 2] : List Int32),
        (peersOf current.pinned list ≠ peersOf desired.pinned list ∧
          (checkPeers (peersOf desired.pinned list)).isOk = true) ∧
        kind = .pinnedOrder ⟨list, peersOf desired.pinned list⟩ := by
  rw [diffPinned, List.mem_filterMap]
  refine exists_congr fun list => and_congr_right fun _ => ?_
  dsimp only
  split
  · next asked => simp [asked, eq_comm]
  · next same => simp [same]

/-- Every change that the host asks for writes its own part. -/
theorem asks_of_mem_diffOps {managed : Managed} {kind : Op}
    (member : kind ∈ diffOps current desired managed) :
    managed.Asks current desired kind kind.part := by
  have flagged {flag : Bool} {list : List Op} (member : kind ∈ if flag then list else []) :
      flag = true ∧ kind ∈ list := by
    cases flag with
    | false => cases member
    | true => exact ⟨rfl, member⟩
  have asks (part : Part) (isPart : kind.part = part)
      (asked : managed.Asks current desired kind part) :
      managed.Asks current desired kind kind.part :=
    isPart ▸ asked
  simp only [diffOps, List.mem_append] at member
  rcases member with
    ((((((((folders | blocked) | notify) | drafts) | scheduled) | archived) | unread) | packs) |
      reaction) | pinned
  · obtain ⟨isManaged, member⟩ := flagged folders
    rcases List.mem_append.1 member with member | member
    · exact asks .folders (part_of_mem_changes member (fun _ => rfl) fun _ _ => rfl)
        ⟨isManaged, member⟩
    · exact asks .folderOrder (congrArg Op.part (mem_changeRegister.1 member).2)
        ⟨isManaged, member⟩
  · obtain ⟨isManaged, member⟩ := flagged blocked
    exact asks .blocked (part_of_mem_changes member (fun _ => rfl) fun _ _ => rfl)
      ⟨isManaged, member⟩
  · obtain ⟨isManaged, member⟩ := flagged notify
    rcases List.mem_append.1 member with member | member
    · exact asks .notify (part_of_mem_changes member (fun _ => rfl) fun _ _ => rfl)
        ⟨isManaged, member⟩
    · exact asks .notifyDefaults (congrArg Op.part (mem_changeRegister.1 member).2)
        ⟨isManaged, member⟩
  · obtain ⟨isManaged, member⟩ := flagged drafts
    exact asks .drafts (part_of_mem_changes member (fun _ => rfl) fun _ _ => rfl)
      ⟨isManaged, member⟩
  · obtain ⟨isManaged, member⟩ := flagged scheduled
    exact asks .scheduled (part_of_mem_changes member (fun _ => rfl) fun _ _ => rfl)
      ⟨isManaged, member⟩
  · obtain ⟨isManaged, member⟩ := flagged archived
    exact asks .archived (part_of_mem_changes member (fun _ => rfl) fun _ _ => rfl)
      ⟨isManaged, member⟩
  · obtain ⟨isManaged, member⟩ := flagged unread
    exact asks .unreadMarks (part_of_mem_changes member (fun _ => rfl) fun _ _ => rfl)
      ⟨isManaged, member⟩
  · obtain ⟨isManaged, member⟩ := flagged packs
    exact asks .stickerPacks (part_of_mem_changes member (fun _ => rfl) fun _ _ => rfl)
      ⟨isManaged, member⟩
  · obtain ⟨isManaged, member⟩ := flagged reaction
    exact asks .quickReaction (congrArg Op.part (mem_diffReaction.1 member).2)
      ⟨isManaged, member⟩
  · obtain ⟨isManaged, member⟩ := flagged pinned
    obtain ⟨_, _, _, isKind⟩ := mem_diffPinned.1 member
    exact asks .pinned (congrArg Op.part isKind) ⟨isManaged, member⟩

/-- The changes that a host asks for write only what it manages. -/
theorem manages_of_mem_diffOps {managed : Managed} {kind : Op}
    (member : kind ∈ diffOps current desired managed) : managed.manages kind.part = true := by
  have asked := asks_of_mem_diffOps member
  generalize kind.part = part at asked
  cases part <;>
    first
    | exact asked.1
    | exact asked.elim

/-! ## Data that moves into the journal -/

variable {κ ν τ : Type}

/-- The snapshot lists what the operation writes. -/
def StateSnapshot.Lists (snapshot : StateSnapshot) : Op -> Prop
  | .folderSet folder => folder ∈ snapshot.folders
  | .folderOrder order => snapshot.folderOrder = some order
  | .blockSet entry => entry ∈ snapshot.blocked
  | .notifySet notify => notify ∈ snapshot.notify
  | .notifyDefaults defaults => snapshot.notifyDefaults = some defaults
  | .draftSet draft => draft ∈ snapshot.drafts
  | .scheduledSet scheduled => scheduled ∈ snapshot.scheduled
  | .scheduledSent ref => ref.opId ∈ snapshot.scheduledSent
  | .archiveSet key => ∃ peer ∈ snapshot.archived, key.peer = some peer
  | .pinnedOrder order => order ∈ snapshot.pinned
  | .callSet record => record ∈ snapshot.calls
  | .chatCleared cleared => cleared ∈ snapshot.cleared
  | .groupInviteSet invite => invite ∈ snapshot.invites
  | .plannerContainerSet container => snapshot.plannerContainer = some container
  | .cloudContainerSet container => container ∈ snapshot.cloudContainers
  | .unreadMarkSet key => ∃ peer ∈ snapshot.unreadMarks, key.peer = some peer
  | .quickReaction reaction => snapshot.quickReaction = some reaction
  | .stickerPackSet pack => pack ∈ snapshot.stickerPacks
  | _ => False

theorem lists_of_mem_snapshotOps {snapshot : StateSnapshot} {kind : Op}
    (member : kind ∈ snapshotOps snapshot) : snapshot.Lists kind := by
  unfold snapshotOps at member
  simp only [List.mem_append, List.mem_map, Option.mem_toList] at member
  rcases member with
    ((((((((((((((((listed | listed) | listed) | listed) | listed) | listed) | listed) |
      listed) | listed) | listed) | listed) | listed) | listed) | listed) | listed) |
      listed) | listed) | listed
  all_goals
    obtain ⟨item, isItem, rfl⟩ := listed
    first
    | exact isItem
    | exact ⟨item, isItem, rfl⟩

/-- Values under one key have one name. -/
def Named (write : Op -> Option (κ × Option ν)) (name : ν -> τ) : Prop :=
  ∀ first second key one two, write first = some (key, some one) ->
    write second = some (key, some two) -> name one = name two

variable {write : Op -> Option (κ × Option ν)}

theorem named_of_injOn {name : ν -> τ} {IsKey : ν -> κ -> Prop}
    (isKey : ∀ {kind key value}, write kind = some (key, some value) -> IsKey value key)
    (injective : ∀ {one two key}, IsKey one key -> IsKey two key -> name one = name two) :
    Named write name :=
  fun _ _ _ _ _ first second => injective (isKey first) (isKey second)

theorem encodedKey_of_peer {first second : Option Peer} {key : String}
    (firstKey : optPeerKey first = .ok key)
    (secondKey : optPeerKey second = .ok key) : encodedKey first = encodedKey second := by
  rw [optPeerKey_injective firstKey secondKey]

theorem encodedKey_of_peerKey {first second : Peer} {key : String}
    (firstKey : peerKey first = .ok key) (secondKey : peerKey second = .ok key) :
    encodedKey (some first) = encodedKey (some second) := by
  rw [peerKey_injective firstKey secondKey]

theorem encodedKey_of_ref {first second : CloudContainer} {key : String ×ₗ Bytes}
    (firstKey : ∃ ref, first.ref = some ref ∧ toLex (ref.domain, ref.id) = key)
    (secondKey : ∃ ref, second.ref = some ref ∧ toLex (ref.domain, ref.id) = key) :
    encodedKey first.ref = encodedKey second.ref := by
  obtain ⟨one, isOne, rfl⟩ := firstKey
  obtain ⟨two, isTwo, same⟩ := secondKey
  have pairs := Prod.mk.inj (toLex_inj.1 same)
  rw [isOne, isTwo, Ref.ext pairs.1 pairs.2]

/-- The live entries of a map stay. -/
def KeepsLive [Ord κ] [Std.TransOrd κ] (before after : Std.ExtTreeMap κ (Lww ν)) : Prop :=
  ∀ (key : κ) (entry : Lww ν),
    before[key]? = some entry -> entry.value.isSome = true -> after[key]? = some entry

theorem mem_retainMissing [DecidableEq τ]
    {name : ν -> τ} {items present : List ν} {item : ν} :
    item ∈ retainMissing name items present ↔
      item ∈ items ∧ ∀ other ∈ present, name other ≠ name item := by
  rw [retainMissing, List.mem_filter, Bool.not_eq_true', ← Bool.not_eq_true, List.contains_iff_mem]
  simp

section

variable {sha256 : Bytes -> Digest} {history ops : List StateOp} {kinds : Op -> Prop}

/-- A listed entry stays when the operations write only what is not listed. -/
theorem keepsEntry [Ord κ] [Std.TransOrd κ] [Std.LawfulEqOrd κ] [DecidableEq κ] [DecidableEq τ]
    {read : PersonalState -> Std.ExtTreeMap κ (Lww ν)}
    {name : ν -> τ} {current : List ν} (items : List ν)
    (isMap : IsMap sha256 (entryOf sha256 write) Lww.stamp read)
    (named : Named write name) (within : ∀ op ∈ ops, ∀ kind ∈ op.op, kinds kind)
    (sets : ∀ kind key value, kinds kind -> write kind = some (key, value) ->
      ∃ item found, value = some found ∧ name found = name item ∧
        item ∈ retainMissing name items current)
    {key : κ} {stamp : Stamp} {value : ν}
    (present : (read (applyAll sha256 history .new).2)[key]? =
      some (⟨stamp, some value⟩ : Lww ν))
    (listed : value ∈ current) :
    (read (applyAll sha256 ops (applyAll sha256 history .new).2).2)[key]? =
      some (⟨stamp, some value⟩ : Lww ν) := by
  rw [isMap.getElem?_of_unoffered _ (applyAll sha256 history .new).2]
  · exact present
  · intro op member entry offered
    obtain ⟨kind, carried, written⟩ := write_of_entryOf offered
    obtain ⟨item, found, isFound, sameName, retained⟩ :=
      sets kind key entry.value (within op member kind carried) written
    obtain ⟨_, _, _, offeredBefore⟩ := isMap.offered present
    obtain ⟨first, -, writtenBefore⟩ := write_of_entryOf offeredBefore
    refine (mem_retainMissing.1 retained).2 value listed ?_
    rw [isFound] at written
    exact (named first kind key value found writtenBefore written).trans sameName

theorem keepsLive [Ord κ] [Std.TransOrd κ] [Std.LawfulEqOrd κ] [DecidableEq κ] [DecidableEq τ]
    {read : PersonalState -> Std.ExtTreeMap κ (Lww ν)}
    {name : ν -> τ} (items : List ν)
    (isMap : IsMap sha256 (entryOf sha256 write) Lww.stamp read)
    (named : Named write name) (within : ∀ op ∈ ops, ∀ kind ∈ op.op, kinds kind)
    (sets : ∀ kind key value, kinds kind -> write kind = some (key, value) ->
      ∃ item found, value = some found ∧ name found = name item ∧
        item ∈ retainMissing name items (live (read (applyAll sha256 history .new).2))) :
    KeepsLive (read (applyAll sha256 history .new).2)
      (read (applyAll sha256 ops (applyAll sha256 history .new).2).2) := by
  rintro key ⟨stamp, value⟩ present isLive
  obtain ⟨value, rfl⟩ := Option.isSome_iff_exists.1 isLive
  exact keepsEntry items isMap named within sets present (mem_live.2 ⟨key, stamp, present⟩)

theorem keepsRegister {write : Op -> Option ν}
    {read : PersonalState -> Option (Lww ν)}
    {before : PersonalState} (own : Option ν) (isRegister : IsRegister sha256 write read)
    (within : ∀ op ∈ ops, ∀ kind ∈ op.op, kinds kind)
    (sets : ∀ kind value, kinds kind -> write kind = some value ->
      retainRegister own (regValue (read before)) = some value)
    (present : (regValue (read before)).isSome = true) :
    read (applyAll sha256 ops before).2 = read before := by
  refine isRegister.read_of_unwritten (fun op member kind carried => ?_) before
  cases written : write kind with
  | none => rfl
  | some value =>
      have missing := sets kind value (within op member kind carried) written
      rw [retainRegister, if_pos present] at missing
      cases missing

/-- What moving local data into the journal leaves alone: every live entry and register, save
that scheduled messages may be marked as sent. -/
structure LeavesPresent (own : StateSnapshot) (before after : PersonalState) : Prop where
  folders : KeepsLive before.folders after.folders
  folderOrder : (regValue before.folderOrder).isSome = true ->
    after.folderOrder = before.folderOrder
  blocked : KeepsLive before.blocked after.blocked
  notify : KeepsLive before.notify after.notify
  notifyDefaults : (regValue before.notifyDefaults).isSome = true ->
    after.notifyDefaults = before.notifyDefaults
  drafts : KeepsLive before.drafts after.drafts
  scheduled : ∀ (key : OpId) (entry : Lww ScheduledMessage),
    before.scheduled[key]? = some entry -> entry.value.isSome = true ->
      key ∉ before.scheduledSent -> after.scheduled[key]? = some entry
  sent : ∀ key ∈ before.scheduledSent, key ∈ after.scheduledSent
  newlySent : ∀ key ∈ after.scheduledSent,
    key ∈ before.scheduledSent ∨ key.bytes ∈ own.scheduledSent
  archived : KeepsLive before.archived after.archived
  pinned : KeepsLive before.pinned after.pinned
  calls : KeepsLive before.calls after.calls
  cleared : ∀ (key : String) (mark : ChatCleared),
    before.cleared[key]? = some mark -> after.cleared[key]? = some mark
  invites : KeepsLive before.invites after.invites
  plannerContainer : (regValue before.plannerContainer).isSome = true ->
    after.plannerContainer = before.plannerContainer
  cloudContainers : KeepsLive before.cloudContainers after.cloudContainers
  unreadMarks : KeepsLive before.unreadMarks after.unreadMarks
  quickReaction : (regValue before.quickReaction).isSome = true ->
    after.quickReaction = before.quickReaction
  stickerPacks : KeepsLive before.stickerPacks after.stickerPacks

theorem leavesPresent
    (own : StateSnapshot)
    (within : ∀ op ∈ ops, ∀ kind ∈ op.op,
      (withoutPresent own (applyAll sha256 history .new).2.snapshot).Lists kind) :
    LeavesPresent own (applyAll sha256 history .new).2
      (applyAll sha256 ops (applyAll sha256 history .new).2).2 where
  folders := by
    refine keepsLive own.folders (isMap_folders sha256)
      (named_of_injOn id_of_foldersWrite fun one two => one.trans two.symm) within ?_
    intro kind key value listed written
    cases kind <;> simp only [foldersWrite, reduceCtorEq] at written
    case folderSet folder =>
      cases written
      exact ⟨folder, _, rfl, rfl, listed⟩
    case folderRemove => exact listed.elim
  folderOrder := by
    refine keepsRegister own.folderOrder (isRegister_folderOrder sha256) within ?_
    intro kind value listed written
    cases kind <;> cases written
    exact listed
  blocked := by
    refine keepsLive own.blocked (isMap_blocked sha256)
      (named_of_injOn peer_of_blockedWrite encodedKey_of_peer) within ?_
    intro kind key value listed written
    cases kind <;> simp only [blockedWrite, reduceCtorEq] at written
    case blockSet entry =>
      obtain ⟨-, rfl⟩ := eq_ok_of_map_toOption written
      exact ⟨entry, _, rfl, rfl, listed⟩
    case blockRemove => exact listed.elim
  notify := by
    refine keepsLive own.notify (isMap_notify sha256)
      (named_of_injOn peer_of_notifyWrite encodedKey_of_peer) within ?_
    intro kind key value listed written
    cases kind <;> simp only [notifyWrite, reduceCtorEq] at written
    case notifySet notify =>
      obtain ⟨-, rfl⟩ := eq_ok_of_map_toOption written
      exact ⟨notify, _, rfl, rfl, listed⟩
    case notifyRemove => exact listed.elim
  notifyDefaults := by
    refine keepsRegister own.notifyDefaults (isRegister_notifyDefaults sha256) within ?_
    intro kind value listed written
    cases kind <;> cases written
    exact listed
  drafts := by
    refine keepsLive own.drafts (isMap_drafts sha256)
      (named_of_injOn peer_of_draftsWrite encodedKey_of_peer) within ?_
    intro kind key value listed written
    cases kind <;> simp only [draftsWrite, reduceCtorEq] at written
    case draftSet draft =>
      obtain ⟨-, rfl⟩ := eq_ok_of_map_toOption written
      exact ⟨draft, _, rfl, rfl, listed⟩
    case draftRemove => exact listed.elim
  scheduled := by
    rintro key ⟨stamp, value⟩ present isLive unsent
    obtain ⟨value, rfl⟩ := Option.isSome_iff_exists.1 isLive
    refine keepsEntry own.scheduled (isMap_scheduled sha256)
      (named_of_injOn opId_of_scheduledWrite fun one two => one.symm.trans two) within ?_ present
      (mem_pendingScheduled.2 ⟨key, stamp, unsent, present⟩)
    intro kind key value listed written
    cases kind <;> simp only [scheduledWrite, reduceCtorEq] at written
    case scheduledSet scheduled =>
      obtain ⟨_, -, same⟩ := Option.map_eq_some_iff.1 written
      cases same
      exact ⟨scheduled, _, rfl, rfl, listed⟩
    case scheduledRemove => exact listed.elim
  sent := fun key before => mem_scheduledSent_applyAll.2 (.inl before)
  newlySent := by
    intro key after
    refine (mem_scheduledSent_applyAll.1 after).imp_right ?_
    rintro ⟨op, member, -, marked⟩
    obtain ⟨kind, carried, written⟩ := write_of_sentOf marked
    have listed := within op member kind carried
    cases kind <;> simp only [scheduledSentWrite, reduceCtorEq] at written
    case scheduledSent ref =>
      rw [ofBytes?_eq_some.1 written]
      exact (mem_retainMissing.1 listed).1
  archived := by
    refine keepsLive own.archived (isMap_archived sha256)
      (named_of_injOn peerKey_of_archivedWrite encodedKey_of_peerKey) within ?_
    intro kind key value listed written
    cases kind <;> simp only [archivedWrite, reduceCtorEq] at written
    case archiveSet key =>
      obtain ⟨-, same⟩ := eq_ok_of_map_toOption written
      obtain ⟨peer, isPeer, found⟩ := listed
      exact ⟨peer, peer, same.symm.trans found, rfl, isPeer⟩
    case archiveRemove => exact listed.elim
  pinned := by
    refine keepsLive own.pinned (isMap_pinned sha256)
      (named_of_injOn list_of_pinnedWrite fun one two => one.trans two.symm) within ?_
    intro kind key value listed written
    cases kind <;> simp only [pinnedWrite, reduceCtorEq] at written
    case pinnedOrder order =>
      cases written
      exact ⟨order, _, rfl, rfl, listed⟩
  calls := by
    refine keepsLive own.calls (isMap_calls sha256)
      (named_of_injOn callId_of_callsWrite fun one two => one.symm.trans two) within ?_
    intro kind key value listed written
    cases kind <;> simp only [callsWrite, reduceCtorEq] at written
    case callSet record =>
      obtain ⟨_, -, same⟩ := Option.map_eq_some_iff.1 written
      cases same
      exact ⟨record, _, rfl, rfl, listed⟩
    case callRemove => exact listed.elim
  cleared := by
    intro key mark present
    rw [(isMap_cleared sha256).getElem?_of_unoffered _ (applyAll sha256 history .new).2]
    · exact present
    · intro op member entry offered
      obtain ⟨kind, carried, written⟩ := write_of_clearedOf offered
      obtain ⟨_, _, _, offeredBefore⟩ := (isMap_cleared sha256).offered present
      obtain ⟨first, -, writtenBefore⟩ := write_of_clearedOf offeredBefore
      have retained := within op member kind carried
      have sameKey := encodedKey_of_peer (peer_of_clearedWrite writtenBefore)
        (peer_of_clearedWrite written)
      cases kind <;> simp only [clearedWrite, reduceCtorEq] at written
      case chatCleared cleared =>
        obtain ⟨_, -, same⟩ := Option.map_eq_some_iff.1 written
        cases same
        refine (mem_retainMissing.1 retained).2 mark ?_ sameKey
        exact List.mem_map.2
          ⟨(key, mark), Std.ExtTreeMap.mem_toList_iff_getElem?_eq_some.2 present, rfl⟩
  invites := by
    refine keepsLive own.invites (isMap_invites sha256)
      (named_of_injOn linkId_of_invitesWrite fun one two => one.trans two.symm) within ?_
    intro kind key value listed written
    cases kind <;> simp only [invitesWrite, reduceCtorEq] at written
    case groupInviteSet invite =>
      cases written
      exact ⟨invite, _, rfl, rfl, listed⟩
    case groupInviteRemove => exact listed.elim
  plannerContainer := by
    refine keepsRegister own.plannerContainer (isRegister_plannerContainer sha256) within ?_
    intro kind value listed written
    cases kind <;> cases written
    exact listed
  cloudContainers := by
    refine keepsLive own.cloudContainers (isMap_cloudContainers sha256)
      (named_of_injOn ref_of_cloudContainersWrite encodedKey_of_ref) within ?_
    intro kind key value listed written
    cases kind <;> simp only [cloudContainersWrite, reduceCtorEq] at written
    case cloudContainerSet container =>
      obtain ⟨_, -, same⟩ := Option.map_eq_some_iff.1 written
      cases same
      exact ⟨container, _, rfl, rfl, listed⟩
  unreadMarks := by
    refine keepsLive own.unreadMarks (isMap_unreadMarks sha256)
      (named_of_injOn peerKey_of_unreadMarksWrite encodedKey_of_peerKey) within ?_
    intro kind key value listed written
    cases kind <;> simp only [unreadMarksWrite, reduceCtorEq] at written
    case unreadMarkSet key =>
      obtain ⟨-, same⟩ := eq_ok_of_map_toOption written
      obtain ⟨peer, isPeer, found⟩ := listed
      exact ⟨peer, peer, same.symm.trans found, rfl, isPeer⟩
    case unreadMarkRemove => exact listed.elim
  quickReaction := by
    refine keepsRegister own.quickReaction (isRegister_quickReaction sha256) within ?_
    intro kind value listed written
    cases kind <;> cases written
    exact listed
  stickerPacks := by
    refine keepsLive own.stickerPacks (isMap_stickerPacks sha256)
      (named_of_injOn setId_of_stickerPacksWrite fun one two => one.trans two.symm) within ?_
    intro kind key value listed written
    cases kind <;> simp only [stickerPacksWrite, reduceCtorEq] at written
    case stickerPackSet pack =>
      cases written
      exact ⟨pack, _, rfl, rfl, listed⟩
    case stickerPackRemove => exact listed.elim

end

/-- The operations carry some of the changes. -/
def Carries (kinds : List Op) (ops : List StateOp) : Prop :=
  ∀ op ∈ ops, ∀ kind ∈ op.op, kind ∈ kinds

/-- Of a state that was reached by the journal, changes of a host write only the kinds that
are managed, and local data leaves alone what the journal has. -/
theorem hostChanges_frame (sha256 : Bytes -> Digest) (history : List StateOp) :
    let state := (applyAll sha256 history .new).2
    (∀ desired managed ops, Carries (diffOps state.snapshot desired managed) ops ->
      SameOutside (fun part => managed.manages part = true) state
        (applyAll sha256 ops state).2) ∧
    ∀ own deviceId tsMs opIds clock later ops,
      (migrateSnapshotWith sha256 deviceId tsMs (withoutPresent own state.snapshot) opIds).exec
        clock = (.ok ops, later) ->
      LeavesPresent own state (applyAll sha256 ops state).2 := by
  refine ⟨fun desired managed ops carries => ?_, fun own _ _ _ _ _ ops ran => ?_⟩
  · exact sameOutside_applyAll sha256
      (fun op member kind carried => manages_of_mem_diffOps (carries op member kind carried)) _
  · exact leavesPresent own fun op member kind carried =>
      lists_of_mem_snapshotOps (mem_of_migrateSnapshotWith ran op member kind carried)

def sampleOpId (byte : UInt8) : OpId :=
  ⟨List.replicate 16 byte, by simp⟩

def scheduledAt (byte : UInt8) (text : Bytes) : ScheduledMessage where
  opId := (sampleOpId byte).bytes
  peer := some ⟨some (.user ⟨"bob@example.org"⟩)⟩
  content := text
  sendAtMs := 1

def journaled (lamport : UInt64) (kind : Op) : StateOp where
  opId := List.replicate 16 (UInt8.ofNat lamport.toNat)
  lamport := lamport
  deviceId := "device-1"
  tsMs := 0
  op := some kind

/-- A message that is pending, and one that is marked as sent. -/
def scheduledHistory : List StateOp :=
  [journaled 1 (.scheduledSet (scheduledAt 1 [1])), journaled 2 (.scheduledSet (scheduledAt 2 [2])),
    journaled 3 (.scheduledSent ⟨(sampleOpId 2).bytes⟩)]

def emptySnapshot : StateSnapshot :=
  PersonalState.new.snapshot

def scheduledLocal : StateSnapshot :=
  { emptySnapshot with
    scheduled := [scheduledAt 2 [9]]
    scheduledSent := [(sampleOpId 1).bytes] }

def movedBy (lamport : UInt64) (byte : UInt8) (kind : Op) : StateOp where
  opId := (sampleOpId byte).bytes
  lamport := lamport
  deviceId := "device-2"
  tsMs := 0
  op := some kind

/-- The local data mark the pending message as sent, and hold another text for the one that was
sent. -/
theorem migration_marks_pending :
    let state := (applyAll sampleDigest scheduledHistory .new).2
    let ops := [movedBy 4 0 (.scheduledSet (scheduledAt 2 [9])),
      movedBy 5 1 (.scheduledSent ⟨(sampleOpId 1).bytes⟩)]
    let after := (applyAll sampleDigest ops state).2
    (migrateSnapshotWith sampleDigest "device-2" 0 (withoutPresent scheduledLocal state.snapshot)
        fun position => sampleOpId (UInt8.ofNat position)).exec ⟨3⟩ = (.ok ops, ⟨5⟩) ∧
      state.snapshot.scheduled = [scheduledAt 1 [1]] ∧ after.snapshot.scheduled = [] ∧
      state.scheduled[sampleOpId 2]?.bind Lww.value = some (scheduledAt 2 [2]) ∧
      after.scheduled[sampleOpId 2]?.bind Lww.value = some (scheduledAt 2 [9]) := by
  decide +kernel

/-- A device with a reaction of its own moves only the order of its folders. -/
theorem hostChanges_frame_sample :
    let state := (applyAll sampleDigest [journaled 1 (.quickReaction ⟨"A", ""⟩)] .new).2
    let ops := [movedBy 2 0 (.folderOrder ⟨[2]⟩)]
    SameOutside (fun part => ({ folders := true } : Managed).manages part = true) state
        (applyAll sampleDigest ops state).2 ∧
      (applyAll sampleDigest ops state).2.quickReaction = state.quickReaction := by
  have frame := hostChanges_frame sampleDigest [journaled 1 (.quickReaction ⟨"A", ""⟩)]
  refine ⟨frame.1 { emptySnapshot with folderOrder := some ⟨[2]⟩ } { folders := true } _ ?_, ?_⟩
  · intro op member kind carried
    cases List.mem_singleton.1 member
    cases carried
    decide +kernel
  · refine (frame.2 { emptySnapshot with folderOrder := some ⟨[2]⟩, quickReaction := some ⟨"B", ""⟩ }
      "device-2" 0 (fun _ => sampleOpId 0) ⟨1⟩ ⟨2⟩ _ ?_).quickReaction ?_
    · decide +kernel
    · decide +kernel

end Parvane.State
