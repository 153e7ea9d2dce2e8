import Parvane.State.Apply

/-!
# Snapshots of the personal state

The host of a device sees the state as lists of live objects, in the order of their keys.
New operations are stamped by the Lamport clock of the device.
-/

namespace Parvane
namespace State

open Wire

structure StateSnapshot where
  folders : List Folder
  folderOrder : Option FolderOrder
  blocked : List BlockEntry
  notify : List PeerNotify
  notifyDefaults : Option NotifyDefaults
  drafts : List Draft
  scheduled : List ScheduledMessage
  scheduledSent : List Bytes
  archived : List Peer
  pinned : List PinnedOrder
  calls : List CallRecord
  cleared : List ChatCleared
  invites : List GroupInvite
  plannerContainer : Option PlannerContainer
  cloudContainers : List CloudContainer
  unreadMarks : List Peer
  quickReaction : Option QuickReaction
  stickerPacks : List StickerPack
  deriving DecidableEq

/-- The values of a map that are no tombstones. -/
def live [Ord κ] [Std.TransOrd κ] (map : Std.ExtTreeMap κ (Lww ν)) : List ν :=
  map.toList.filterMap fun entry => entry.2.value

/-- The value of a register. -/
def regValue (register : Option (Lww ν)) : Option ν :=
  register.bind Lww.value

namespace PersonalState

variable (state : PersonalState)

/-- The scheduled messages that are not marked as sent. -/
def pendingScheduled : List ScheduledMessage :=
  (state.scheduled.toList.filter fun entry => !state.scheduledSent.contains entry.1).filterMap
    fun entry => entry.2.value

def snapshot : StateSnapshot where
  folders := live state.folders
  folderOrder := regValue state.folderOrder
  blocked := live state.blocked
  notify := live state.notify
  notifyDefaults := regValue state.notifyDefaults
  drafts := live state.drafts
  scheduled := state.pendingScheduled
  scheduledSent := state.scheduledSent.toList.map FixedBytes.bytes
  archived := live state.archived
  pinned := live state.pinned
  calls := live state.calls
  cleared := state.cleared.toList.map Prod.snd
  invites := live state.invites
  plannerContainer := regValue state.plannerContainer
  cloudContainers := live state.cloudContainers
  unreadMarks := live state.unreadMarks
  quickReaction := regValue state.quickReaction
  stickerPacks := live state.stickerPacks

end PersonalState

theorem mem_live {κ ν : Type}
    [Ord κ] [Std.TransOrd κ] [Std.LawfulEqOrd κ]
    {map : Std.ExtTreeMap κ (Lww ν)}
    {value : ν} :
    value ∈ live map ↔ ∃ (key : κ) (stamp : Stamp), map[key]? = some (⟨stamp, some value⟩ : Lww ν) := by
  rw [live, List.mem_filterMap]
  constructor
  · rintro ⟨⟨key, stamp, found⟩, member, rfl⟩
    exact ⟨key, stamp, Std.ExtTreeMap.mem_toList_iff_getElem?_eq_some.1 member⟩
  · rintro ⟨key, stamp, found⟩
    exact ⟨_, Std.ExtTreeMap.mem_toList_iff_getElem?_eq_some.2 found, rfl⟩

theorem mem_pendingScheduled {state : PersonalState} {value : ScheduledMessage} :
    value ∈ state.pendingScheduled ↔
      ∃ (key : OpId) (stamp : Stamp), key ∉ state.scheduledSent ∧
        state.scheduled[key]? = some (⟨stamp, some value⟩ : Lww ScheduledMessage) := by
  rw [PersonalState.pendingScheduled, List.mem_filterMap]
  constructor
  · rintro ⟨⟨key, stamp, found⟩, member, rfl⟩
    rw [List.mem_filter, Bool.not_eq_true', ← Bool.not_eq_true, Std.ExtTreeSet.contains_iff_mem]
      at member
    exact ⟨key, stamp, member.2, Std.ExtTreeMap.mem_toList_iff_getElem?_eq_some.1 member.1⟩
  · rintro ⟨key, stamp, unsent, found⟩
    refine ⟨(key, ⟨stamp, some value⟩), ?_, rfl⟩
    rw [List.mem_filter, Bool.not_eq_true', ← Bool.not_eq_true, Std.ExtTreeSet.contains_iff_mem]
    exact ⟨Std.ExtTreeMap.mem_toList_iff_getElem?_eq_some.2 found, unsent⟩

/-! ## The clock -/

/-- The greatest Lamport time that was seen. -/
structure LamportClock where
  last : UInt64
  deriving DecidableEq

namespace LamportClock

def observe (clock : LamportClock) (lamport : UInt64) : LamportClock :=
  ⟨max clock.last lamport⟩

/-- A time after all that were seen, up to the greatest accepted one. -/
def tick (clock : LamportClock) : Result (UInt64 × LamportClock) := do
  require (clock.last < acceptLamportCeiling) (.invalidField "lamport")
  return (clock.last + 1, ⟨clock.last + 1⟩)

end LamportClock

def makeOpWithId (clock : LamportClock) (deviceId : String) (tsMs : Int64) (opId : OpId)
    (op : Op) : Result (StateOp × LamportClock) := do
  require (isValidDeviceId deviceId) (.invalidField "device_id")
  let (lamport, clock) ← clock.tick
  return ({ opId := opId.bytes, lamport, deviceId, tsMs, op := some op }, clock)

/-- An operation is stamped with the time after the last one. -/
theorem makeOpWithId_eq_ok
    {clock later : LamportClock} {deviceId : String} {tsMs : Int64} {opId : OpId} {kind : Op}
    {op : StateOp} :
    makeOpWithId clock deviceId tsMs opId kind = .ok (op, later) ↔
      isValidDeviceId deviceId = true ∧ clock.last < acceptLamportCeiling ∧
        op = ⟨opId.bytes, clock.last + 1, deviceId, tsMs, some kind⟩ ∧
        later = ⟨clock.last + 1⟩ := by
  simp only [makeOpWithId, LamportClock.tick, bind_eq_ok, require_eq_ok, decide_eq_true_eq, pure,
    Except.pure, Except.ok.injEq, Prod.mk.injEq]
  grind

theorem lt_succ_of_lt_ceiling {time : UInt64}
    (early : time < acceptLamportCeiling) : time < time + 1 := by
  have bound : time.toNat < 1099511627776 := UInt64.lt_iff_toNat_lt.1 early
  rw [UInt64.lt_iff_toNat_lt, UInt64.toNat_add]
  simp only [UInt64.toNat_one]
  omega

/-- A stamped operation is later than all that were seen, and the clock shows its time. -/
theorem lamport_of_makeOpWithId
    {clock later : LamportClock} {deviceId : String} {tsMs : Int64} {opId : OpId} {kind : Op}
    {op : StateOp}
    (made : makeOpWithId clock deviceId tsMs opId kind = .ok (op, later)) :
    clock.last < op.lamport ∧ later.last = op.lamport := by
  obtain ⟨-, early, rfl, rfl⟩ := makeOpWithId_eq_ok.1 made
  exact ⟨lt_succ_of_lt_ceiling early, rfl⟩

end State
end Parvane

/-!
## Changes that a host asks for

The host says what the state should be, for the kinds of objects that it manages.  What is
new or changed is written, what is gone is removed.
-/

namespace Parvane
namespace State

open Wire

/-- The kinds of objects that the host manages. -/
structure Managed where
  folders : Bool := false
  blocked : Bool := false
  notify : Bool := false
  drafts : Bool := false
  scheduled : Bool := false
  archived : Bool := false
  pinned : Bool := false
  unread : Bool := false
  reaction : Bool := false
  packs : Bool := false
  deriving DecidableEq

def Managed.fromNames (names : List String) : Managed :=
  names.foldl
    (fun managed name =>
      match name with
      | "folders" => { managed with folders := true }
      | "blocked" => { managed with blocked := true }
      | "notify" => { managed with notify := true }
      | "drafts" => { managed with drafts := true }
      | "scheduled" => { managed with scheduled := true }
      | "archived" => { managed with archived := true }
      | "pinned" => { managed with pinned := true }
      | "unread" => { managed with unread := true }
      | "reaction" => { managed with reaction := true }
      | "packs" => { managed with packs := true }
      | _ => managed)
    {}

section

variable [Ord κ] [Std.TransOrd κ]

/-- The objects that have a key, by their keys; the last one of a key counts. -/
def keyed (key : ν -> Option κ) (items : List ν) : Std.ExtTreeMap κ ν :=
  .ofList (items.filterMap fun item => (key item).map fun found => (found, item))

/-- Write the wanted objects that differ and remove the current ones that are not wanted. -/
def changes (differs : κ -> Option ν -> ν -> Bool) (set : ν -> Op) (remove : κ -> ν -> Op)
    (current want : Std.ExtTreeMap κ ν) : List Op :=
  (want.toList.filter fun entry => differs entry.1 current[entry.1]? entry.2).map
      (fun entry => set entry.2) ++
    (current.toList.filter fun entry => !want.contains entry.1).map
      (fun entry => remove entry.1 entry.2)

end

/-- Write a register if its value differs. -/
def changeRegister [DecidableEq ν] (set : ν -> Op) (current want : ν) : List Op :=
  if current ≠ want then [set want] else []

/-- The key of the other side of a chat. -/
def peerKeyOf (peer : Option Peer) : Option String :=
  peer.bind fun peer => (peerKey peer).toOption

/-- The settings are written out. -/
def PeerNotify.filled (notify : PeerNotify) : PeerNotify :=
  { notify with settings := some (notify.settings.getD .default) }

section

variable (current desired : StateSnapshot)

def diffFolders : List Op :=
  changes (fun _ found folder => found != some folder) .folderSet (fun id _ => .folderRemove ⟨id⟩)
    (keyed (fun folder => some folder.id) current.folders)
    (keyed (fun folder => some folder.id)
      (desired.folders.filter fun folder => (checkFolder folder).isOk))

def diffFolderOrder : List Op :=
  changeRegister .folderOrder (current.folderOrder.getD ⟨[]⟩) (desired.folderOrder.getD ⟨[]⟩)

/-- Blocking again changes nothing. -/
def diffBlocked : List Op :=
  changes (fun _ found _ => found.isNone) .blockSet (fun _ entry => .blockRemove ⟨entry.peer⟩)
    (keyed (fun entry => peerKeyOf entry.peer) current.blocked)
    (keyed (fun entry => peerKeyOf entry.peer) desired.blocked)

def diffNotify : List Op :=
  changes (fun _ found notify => found != some notify.filled) (fun notify => .notifySet notify.filled)
    (fun _ notify => .notifyRemove ⟨notify.peer⟩)
    (keyed (fun notify => peerKeyOf notify.peer) current.notify)
    (keyed (fun notify => peerKeyOf notify.peer) desired.notify)

def diffNotifyDefaults : List Op :=
  changeRegister .notifyDefaults (current.notifyDefaults.getD ⟨none, none, none⟩)
    (desired.notifyDefaults.getD ⟨none, none, none⟩)

def diffDrafts : List Op :=
  changes (fun _ found draft => found != some draft) .draftSet
    (fun _ draft => .draftRemove ⟨draft.peer⟩)
    (keyed (fun draft => peerKeyOf draft.peer) current.drafts)
    (keyed (fun draft => peerKeyOf draft.peer) desired.drafts)

/-- What was sent is not scheduled again. -/
def diffScheduled : List Op :=
  changes
    (fun id found scheduled => found != some scheduled && !current.scheduledSent.contains id)
    .scheduledSet (fun id _ => .scheduledRemove ⟨id⟩)
    (keyed (fun scheduled => some scheduled.opId) current.scheduled)
    (keyed (fun scheduled => some scheduled.opId) desired.scheduled)

def diffArchived : List Op :=
  changes (fun _ found _ => found.isNone) (fun peer => .archiveSet ⟨some peer⟩)
    (fun _ peer => .archiveRemove ⟨some peer⟩)
    (keyed (fun peer => (peerKey peer).toOption) current.archived)
    (keyed (fun peer => (peerKey peer).toOption) desired.archived)

def diffUnread : List Op :=
  changes (fun _ found _ => found.isNone) (fun peer => .unreadMarkSet ⟨some peer⟩)
    (fun _ peer => .unreadMarkRemove ⟨some peer⟩)
    (keyed (fun peer => (peerKey peer).toOption) current.unreadMarks)
    (keyed (fun peer => (peerKey peer).toOption) desired.unreadMarks)

def diffPacks : List Op :=
  changes (fun _ found pack => found != some pack) .stickerPackSet
    (fun setId _ => .stickerPackRemove ⟨setId⟩)
    (keyed (fun pack => (packKey pack.setId).toOption) current.stickerPacks)
    (keyed (fun pack => (checkStickerPack pack).toOption) desired.stickerPacks)

def diffReaction : List Op :=
  let want := desired.quickReaction.getD ⟨"", ""⟩
  if current.quickReaction.getD ⟨"", ""⟩ ≠ want ∧ (checkQuickReaction want).isOk then
    [.quickReaction want]
  else []

/-- The chats that are pinned in a list. -/
def peersOf (orders : List PinnedOrder) (list : Int32) : List Peer :=
  ((orders.find? fun order => order.list == list).map PinnedOrder.peers).getD []

/-- Both lists of pinned chats: the main one and the archive. -/
def diffPinned : List Op :=
  ([1, 2] : List Int32).filterMap fun list =>
    let want := peersOf desired.pinned list
    if peersOf current.pinned list ≠ want ∧ (checkPeers want).isOk then
      some (.pinnedOrder ⟨list, want⟩)
    else none

/-- The operations that turn the current state into the wanted one. -/
def diffOps (managed : Managed) : List Op :=
  (if managed.folders then diffFolders current desired ++ diffFolderOrder current desired else []) ++
  (if managed.blocked then diffBlocked current desired else []) ++
  (if managed.notify then diffNotify current desired ++ diffNotifyDefaults current desired else []) ++
  (if managed.drafts then diffDrafts current desired else []) ++
  (if managed.scheduled then diffScheduled current desired else []) ++
  (if managed.archived then diffArchived current desired else []) ++
  (if managed.unread then diffUnread current desired else []) ++
  (if managed.packs then diffPacks current desired else []) ++
  (if managed.reaction then diffReaction current desired else []) ++
  (if managed.pinned then diffPinned current desired else [])

end

end State
end Parvane
