import Parvane.Cloud.Convergence
import Parvane.Foundation.Growth
import Parvane.Shared.Seal

/-!
# Snapshots of a cloud container

A snapshot holds the registers of all nodes.  Nodes that were deleted for good long ago are
left out, by themselves or with the folder that they were in.  The devices of the stamps stand
once in a list of the snapshot; an index into it has 32 bits in the source, and no list is so
long.
-/

namespace Parvane.Cloud

open Wire Domain Convergence

/-- How long the final deletion of a node stays in snapshots. -/
def purgedKeepMs : UInt64 := 90 * 24 * 3600 * 1000

/-! ## Messages -/

/-- The registers of a node, with the devices of its stamps as indices. -/
structure CloudEntry where
  nodeId : Bytes
  kind : Int32 := 0
  parentId : Bytes := []
  name : String := ""
  blob : Option CloudBlobRef := none
  thumb : Option CloudThumb := none
  mtimeMs : UInt64 := 0
  trashed : Bool := false
  trashedAtMs : UInt64 := 0
  purged : Bool := false
  purgedAtMs : UInt64 := 0
  createLamport : UInt64 := 0
  createDev : Nat := 0
  moveLamport : UInt64 := 0
  moveDev : Nat := 0
  blobLamport : UInt64 := 0
  blobDev : Nat := 0
  trashLamport : UInt64 := 0
  trashDev : Nat := 0
  deriving DecidableEq

structure CloudSnapshot where
  devices : List String := []
  title : Option CloudMeta := none
  entries : List CloudEntry := []
  deriving DecidableEq

/-- The number of a kind in messages. -/
def CloudNodeKind.toInt32 : CloudNodeKind -> Int32
  | unspecified => 0
  | folder => 1
  | file => 2

/-! ## Merging a snapshot -/

/-- A stamp whose device stands in the list. -/
def stampOf (devices : List String) (lamport : UInt64) (dev : Nat) : Result Stamp := do
  let device ← present devices[dev]? (.invalidField "devices")
  require (lamport != 0 && isValidDeviceId device) (.invalidField "stamp")
  return ⟨lamport, device⟩

def readCreated (devices : List String) (entry : CloudEntry) : Result (Option Created) := do
  let kind ← present (CloudNodeKind.tryFrom entry.kind) (.invalidField "kind")
  match kind with
  | .unspecified =>
      require (entry.createLamport == 0) (.invalidField "kind")
      return none
  | kind =>
      require (entry.createLamport != 0) (.invalidField "kind")
      let stamp ← stampOf devices entry.createLamport entry.createDev
      return some (stamp, kind)

def readPlace (devices : List String) (entry : CloudEntry) : Result (Option Place) :=
  if 0 < entry.moveLamport then do
    checkName entry.name
    let stamp ← stampOf devices entry.moveLamport entry.moveDev
    let parent ← parentId entry.parentId
    return some ⟨stamp, parent, entry.name⟩
  else return none

def readBody (devices : List String) (entry : CloudEntry) : Result (Option Body) :=
  match entry.blob with
  | some blob =>
      if 0 < entry.blobLamport then do
        checkBlob blob
        checkThumbOption entry.thumb
        let stamp ← stampOf devices entry.blobLamport entry.blobDev
        return some (body stamp blob entry.thumb entry.mtimeMs)
      else return none
  | none => return none

def readTrash (devices : List String) (entry : CloudEntry) : Result (Option Trash) :=
  if 0 < entry.trashLamport then do
    let stamp ← stampOf devices entry.trashLamport entry.trashDev
    return some ⟨stamp, entry.trashed, entry.trashedAtMs⟩
  else return none

/-- The node of an entry and its registers, checked. -/
def readEntry (devices : List String) (entry : CloudEntry) : Result (NodeId × Node) := do
  let id ← nodeId entry.nodeId
  let created ← readCreated devices entry
  let place ← readPlace devices entry
  let body ← readBody devices entry
  let trash ← readTrash devices entry
  return (id,
    { created := created
      place := place
      body := body
      trash := trash
      purgedAt := if entry.purged then some entry.purgedAtMs else none })

/-- Put registers into those of a node. -/
def Node.absorb (node found : Node) : Node where
  created := found.created.elim node.created (putCreated node.created)
  place := found.place.elim node.place (putMax node.place)
  body := found.body.elim node.body (putBody node.body)
  trash := found.trash.elim node.trash (putMax node.trash)
  purgedAt := found.purgedAt.elim node.purgedAt fun at_ =>
    some (node.purgedAt.elim at_ (min · at_))

def mergeEntry (devices : List String) (entry : CloudEntry) : Update CloudState Unit := do
  let (id, found) ← readEntry devices entry
  modify fun state => state.onNode id fun node => node.absorb found

def mergeTitle (title : CloudMeta) : Update CloudState Unit := do
  checkName title.name
  let stamp ← Stamp.fromPb title.stamp
  modify fun state => { state with title := putMax state.title (toLex (stamp, title.name)) }

/-- Merge a snapshot, entry by entry. -/
def mergeSnapshot (snapshot : CloudSnapshot) : Update CloudState Unit := do
  snapshot.title.toList.forM mergeTitle
  snapshot.entries.forM (mergeEntry snapshot.devices)

def fromSnapshot (snapshot : CloudSnapshot) : Result CloudState :=
  match (mergeSnapshot snapshot).exec .new with
  | (.ok _, state) => .ok state
  | (.error error, _) => .error error

/-- The greatest Lamport time of a snapshot, which must not be above what so many operations
can have reached. -/
def guardSnapshot (guard : Shared.LamportGuard) (snapshot : CloudSnapshot) (uptoSeq : UInt64) :
    Result UInt64 := do
  let ofTitle := (snapshot.title.bind CloudMeta.stamp).elim 0 LwwStamp.lamport
  let greatest := snapshot.entries.foldl
    (fun greatest entry => max (max (max (max greatest entry.createLamport) entry.moveLamport)
      entry.blobLamport) entry.trashLamport)
    ofTitle
  require (!(Shared.saturatingAdd guard.maxSeen (Shared.lamportMaxJump * (max uptoSeq 1).toNat) <
    greatest)) (.invalidField "lamport")
  return greatest

/-! ## Making a snapshot -/

/-- The index of the device of a stamp, which is added to the list when it is not there. -/
def deviceIndex (devices : List String) (stamp : Stamp) : Nat × List String :=
  match devices.idxOf? stamp.deviceId with
  | some index => (index, devices)
  | none => (devices.length, devices ++ [stamp.deviceId])

/-- The same for a register that may be empty. -/
def deviceIndexOf (devices : List String) (stamp : Option Stamp) : Nat × List String :=
  match stamp with
  | some stamp => deviceIndex devices stamp
  | none => (0, devices)

/-- The entry of a node, and the devices with those of its stamps. -/
def writeEntry (devices : List String) (id : NodeId) (node : Node) : CloudEntry × List String :=
  let (createDev, devices) := deviceIndexOf devices (node.created.map Prod.fst)
  let (moveDev, devices) := deviceIndexOf devices (node.place.map Place.stamp)
  let (blobDev, devices) := deviceIndexOf devices (node.body.map Body.stamp)
  let (trashDev, devices) := deviceIndexOf devices (node.trash.map Trash.stamp)
  ({ nodeId := id.bytes
     kind := (node.created.elim .unspecified Prod.snd).toInt32
     createLamport := node.created.elim 0 fun created => created.1.lamport
     createDev := createDev
     purged := node.purgedAt.isSome
     purgedAtMs := node.purgedAt.getD 0
     parentId := (node.place.bind Place.parent).elim [] FixedBytes.bytes
     name := node.place.elim "" Place.name
     moveLamport := node.place.elim 0 fun place => place.stamp.lamport
     moveDev := moveDev
     blob := node.body.map Body.blob
     thumb := node.body.bind Body.thumb
     mtimeMs := node.body.elim 0 Body.mtimeMs
     blobLamport := node.body.elim 0 fun body => body.stamp.lamport
     blobDev := blobDev
     trashed := node.trash.elim false Trash.trashed
     trashedAtMs := node.trash.elim 0 Trash.atMs
     trashLamport := node.trash.elim 0 fun trash => trash.stamp.lamport
     trashDev := trashDev },
    devices)

def writeEntries (devices : List String) : List (NodeId × Node) -> List CloudEntry × List String
  | [] => ([], devices)
  | (id, node) :: nodes =>
      let (entry, devices) := writeEntry devices id node
      let (entries, devices) := writeEntries devices nodes
      (entry :: entries, devices)

namespace CloudState

variable (state : CloudState)

/-- The final deletion of a node is older than snapshots keep it. -/
def expired (now : UInt64) (id : NodeId) : Bool :=
  (state.nodes[id]?.bind Node.purgedAt).any fun at_ =>
    decide (Shared.saturatingAdd at_ purgedKeepMs.toNat < now)

/-- The node, or one above it, is expired. -/
def old (state : CloudState) (parents : Parents) (now : UInt64) : Nat -> Option NodeId -> Bool
  | 0, _ => false
  | _ + 1, none => false
  | fuel + 1, some id =>
      state.expired now id || state.old parents now fuel parents[id]?.join

/-- The node is left out of snapshots. -/
def leftOut (now : UInt64) (id : NodeId) : Bool :=
  -- a way to the root meets every node once at most
  state.old state.parents now (state.parents.size + 1) (some id)

def toSnapshot (now : UInt64) : CloudSnapshot :=
  let kept := state.nodes.toList.filter fun entry => !state.leftOut now entry.1
  let (entries, devices) := writeEntries [] kept
  { devices := devices
    title := state.title.map fun title =>
      { name := (ofLex title).2, stamp := some (ofLex title).1.toPb }
    entries := entries }

/-- The greatest Lamport time of the registers. -/
def maxLamport : UInt64 :=
  let ofNode (node : Node) : List UInt64 :=
    (node.created.map fun created => created.1.lamport).toList ++
      (node.place.map fun place => place.stamp.lamport).toList ++
      (node.body.map fun body => body.stamp.lamport).toList ++
      (node.trash.map fun trash => trash.stamp.lamport).toList
  (state.nodes.toList.flatMap (fun entry => ofNode entry.2) ++
    (state.title.map fun title => (ofLex title).1.lamport).toList).foldl max 0

end CloudState

/-! ## What merging does -/

/-- The title of a snapshot and its entries, in the order in which they are merged. -/
def CloudSnapshot.parts (snapshot : CloudSnapshot) : List (CloudMeta ⊕ CloudEntry) :=
  snapshot.title.toList.map .inl ++ snapshot.entries.map .inr

def mergePart (devices : List String) : CloudMeta ⊕ CloudEntry -> Update CloudState Unit
  | .inl title => mergeTitle title
  | .inr entry => mergeEntry devices entry

/-- The checks of a part of a snapshot, and what it offers when they pass. -/
def readPart (devices : List String) : CloudMeta ⊕ CloudEntry -> Result Offer
  | .inl title => do
      checkName title.name
      let stamp ← Stamp.fromPb title.stamp
      return .toTitle (toLex (stamp, title.name))
  | .inr entry => do
      let (id, found) ← readEntry devices entry
      return .toNode id ⟨found.created, found.place, found.body, found.trash, found.purgedAt⟩

theorem mergePart_checksFirst (devices : List String) (part : CloudMeta ⊕ CloudEntry) :
    Update.ChecksFirst (mergePart devices part) (readPart devices part) CloudState.take := by
  cases part with
  | inl title =>
      refine Update.checksFirst_bind fun _ => ?_
      refine Update.checksFirst_bind fun stamp => ?_
      exact Update.checksFirst_modify fun _ => rfl
  | inr entry =>
      refine Update.checksFirst_bind fun read => ?_
      exact Update.checksFirst_modify fun _ => rfl

theorem mergeSnapshot_eq (snapshot : CloudSnapshot) :
    mergeSnapshot snapshot = snapshot.parts.forM (mergePart snapshot.devices) := by
  unfold mergeSnapshot CloudSnapshot.parts
  simp only [List.forM_eq_forM, List.forM_append, List.forM_map]
  rfl

theorem exec_mergeSnapshot (snapshot : CloudSnapshot) (state : CloudState) :
    (mergeSnapshot snapshot).exec state =
      (snapshot.parts.forM fun part => (readPart snapshot.devices part).map fun _ => (),
        (Update.foundBefore (readPart snapshot.devices) snapshot.parts).foldl
          CloudState.take state) := by
  rw [mergeSnapshot_eq]
  exact Update.exec_forM (mergePart_checksFirst snapshot.devices) snapshot.parts state

theorem nodeTake_noReturn : NoReturn Node.take := by
  have created := (keepGreatest_noReturn fun created : Created =>
    OrderDual.toDual (createdKey created)).optional NodeOffer.created
  have place := (keepGreatest_noReturn (id : Place -> Place)).optional NodeOffer.place
  have body := (keepGreatest_noReturn Body.key).optional NodeOffer.body
  have trash := (keepGreatest_noReturn (id : Trash -> Trash)).optional NodeOffer.trash
  have purgedAt := (keepGreatest_noReturn
    (OrderDual.toDual : UInt64 -> UInt64ᵒᵈ)).optional NodeOffer.purgedAt
  intro node offers returns offer member
  apply Node.ext
  · exact created.project Node.created (fun node offer => by
      simp only [Node.take, funext₂ putCreated_eq_keepGreatest]) returns offer member
  · exact place.project Node.place (fun node offer => by
      simp only [Node.take, funext₂ putMax_eq_keepGreatest]) returns offer member
  · exact body.project Node.body (fun node offer => by
      simp only [Node.take, funext₂ putBody_eq_keepGreatest]) returns offer member
  · exact trash.project Node.trash (fun node offer => by
      simp only [Node.take, funext₂ putMax_eq_keepGreatest]) returns offer member
  · exact purgedAt.project Node.purgedAt (fun node offer => by
      simp only [Node.take, putPurged_eq_keepGreatest]) returns offer member

/-- What a state has taken is not undone by what it takes later. -/
theorem stateTake_noReturn : NoReturn CloudState.take := by
  have nodes := ((nodeTake_noReturn.defaulted Node.empty).optional
    fun offer : Offer => offer.node?.map Prod.snd).alterAt
      fun offer : Offer => offer.node?.map Prod.fst
  have title := (keepGreatest_noReturn (id : Stamp ×ₗ String -> _)).optional Offer.title?
  intro state offers returns offer member
  apply CloudState.ext
  · apply nodes.project CloudState.nodes (fun state offer => ?_) returns offer member
    cases offer <;> rfl
  · apply title.project CloudState.title (fun state offer => ?_) returns offer member
    cases offer with
    | toNode id offer => rfl
    | toTitle title => exact (putMax_eq_keepGreatest state.title title).symm

/-- A snapshot that is refused leaves the state as it was exactly if the state already had all
that comes before the first part that is not well formed. -/
theorem mergeSnapshot_unchanged_iff (snapshot : CloudSnapshot) (state : CloudState) :
    (((mergeSnapshot snapshot).exec state).1.isOk = false ->
        ((mergeSnapshot snapshot).exec state).2 = state) ↔
      (∀ part ∈ snapshot.parts, (readPart snapshot.devices part).isOk = true) ∨
        ∀ offer ∈ Update.foundBefore (readPart snapshot.devices) snapshot.parts,
          state.take offer = state := by
  rw [exec_mergeSnapshot, stateTake_noReturn.foldl_eq_self_iff,
    ← Update.isOk_forM_map_iff]
  cases (snapshot.parts.forM fun part =>
    (readPart snapshot.devices part).map fun _ => ()).isOk <;> simp

end Parvane.Cloud
