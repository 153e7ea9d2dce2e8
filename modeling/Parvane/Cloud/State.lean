import Parvane.Domain.Stamp
import Mathlib.Order.WithBot
import Std.Data.ExtTreeMap.Lemmas

/-!
# The cloud tree of one container

A node has registers of its own for its creation, its place (parent and name),
its contents, its place in the trash, and its final deletion.  Registers are
kept also for a node whose creation has not arrived yet.

The revision counter of the state and its cached size are left out; they do not
take part in the comparison of states.
-/

namespace Parvane.Cloud

open Wire Domain

abbrev NodeId := FixedBytes 16

instance : Std.TransOrd NodeId := inferInstance

def maxNameBytes : Nat := 255

/-! ## Messages -/

@[ext] structure CloudBlobRef where
  fileId : String
  key : Bytes
  size : UInt64
  chunks : UInt32
  mime : String
  sha256 : Bytes
  nonce : Bytes
  capability : Bytes
  uploader : String
  deriving DecidableEq

instance : Message CloudBlobRef where
  fields blob :=
    string 1 blob.fileId ++ bytes 2 blob.key ++ uint64 3 blob.size ++
      uint32 4 blob.chunks ++ string 5 blob.mime ++ bytes 6 blob.sha256 ++
      bytes 7 blob.nonce ++ bytes 8 blob.capability ++ string 9 blob.uploader
  fields_injective first second equal := by
    simpa [CloudBlobRef.ext_iff] using select_each [1, 2, 3, 4, 5, 6, 7, 8, 9] equal

@[ext] structure CloudThumb where
  fileId : String
  nonce : Bytes
  capability : Bytes
  width : UInt32
  height : UInt32
  deriving DecidableEq

instance : Message CloudThumb where
  fields thumb :=
    string 1 thumb.fileId ++ bytes 2 thumb.nonce ++ bytes 3 thumb.capability ++
      uint32 4 thumb.width ++ uint32 5 thumb.height
  fields_injective first second equal := by
    simpa [CloudThumb.ext_iff] using select_each [1, 2, 3, 4, 5] equal

structure CloudCreate where
  nodeId : Bytes
  kind : Int32
  parentId : Bytes
  name : String
  blob : Option CloudBlobRef
  stamp : Option LwwStamp
  thumb : Option CloudThumb
  mtimeMs : UInt64
  deriving DecidableEq

structure CloudMove where
  nodeId : Bytes
  parentId : Bytes
  name : String
  stamp : Option LwwStamp
  deriving DecidableEq

structure CloudSetBlob where
  nodeId : Bytes
  blob : Option CloudBlobRef
  stamp : Option LwwStamp
  thumb : Option CloudThumb
  mtimeMs : UInt64
  deriving DecidableEq

structure CloudTrash where
  nodeId : Bytes
  trashed : Bool
  atMs : UInt64
  stamp : Option LwwStamp
  deriving DecidableEq

structure CloudPurge where
  nodeId : Bytes
  atMs : UInt64
  stamp : Option LwwStamp
  deriving DecidableEq

structure CloudMeta where
  name : String
  stamp : Option LwwStamp
  deriving DecidableEq

structure CloudDelete where
  nodeId : Bytes
  stamp : Option LwwStamp
  deriving DecidableEq

inductive CloudChange
  | create (create : CloudCreate)
  | move (move : CloudMove)
  | setBlob (setBlob : CloudSetBlob)
  | delete (delete : CloudDelete)
  | trash (trash : CloudTrash)
  | purge (purge : CloudPurge)
  | setMeta (setMeta : CloudMeta)
  deriving DecidableEq

structure CloudOp where
  op : Option CloudChange
  deriving DecidableEq

structure CloudBatch where
  ops : List CloudOp
  deriving DecidableEq

inductive CloudNodeKind
  | unspecified
  | folder
  | file
  deriving DecidableEq

namespace CloudNodeKind

def tryFrom (kind : Int32) : Option CloudNodeKind :=
  if kind = 0 then some unspecified
  else if kind = 1 then some folder
  else if kind = 2 then some file
  else none

/-- The number of the kind. -/
def toNat : CloudNodeKind -> Nat
  | unspecified => 0
  | folder => 1
  | file => 2

theorem toNat_injective : Function.Injective toNat := by
  intro first second equal
  cases first <;> cases second <;> first | rfl | cases equal

end CloudNodeKind

/-! ## Checks -/

def nodeId (bytes : Bytes) : Result NodeId :=
  present (FixedBytes.ofBytes? 16 bytes) (.invalidField "node_id")

def parentId (bytes : Bytes) : Result (Option NodeId) :=
  if bytes.isEmpty then .ok none
  else (nodeId bytes).map some

/-- The text has white space at neither end. -/
def isTrimmed (text : String) : Bool :=
  (text.toList.head?.all fun c => !isWhiteSpace c) &&
    text.toList.getLast?.all fun c => !isWhiteSpace c

def checkName (name : String) : Result Unit :=
  let bad :=
    name.isEmpty
      || name.utf8ByteSize > maxNameBytes
      || !isTrimmed name
      || name == "."
      || name == ".."
      || name.toList.any fun c => c == '/' || c == '\\' || isControl c
  require (!bad) (.invalidField "name")

def checkBlob (blob : CloudBlobRef) : Result Unit := do
  require
    (!blob.fileId.isEmpty && blob.key.length == 32 && blob.nonce.length == 12
      && blob.capability.length == 32)
    (.invalidField "blob")
  require (blob.sha256.isEmpty || blob.sha256.length == 32) (.invalidField "blob")

def checkThumb (thumb : CloudThumb) : Result Unit :=
  require
    (!thumb.fileId.isEmpty && thumb.nonce.length == 12 && thumb.capability.length == 32)
    (.invalidField "thumb")

def checkThumbOption (thumb : Option CloudThumb) : Result Unit :=
  match thumb with
  | none => .ok ()
  | some thumb => checkThumb thumb

/-! ## Registers -/

/-- The place of a node. -/
@[ext] structure Place where
  stamp : Stamp
  parent : Option NodeId
  name : String
  deriving DecidableEq

namespace Place

/-- The order of comparison; no parent comes before every parent. -/
def key (place : Place) : Stamp ×ₗ WithBot NodeId ×ₗ String :=
  toLex (place.stamp, toLex (place.parent, place.name))

theorem key_injective : Function.Injective key := by
  intro first second equal
  simp only [key, EmbeddingLike.apply_eq_iff_eq, Prod.mk.injEq] at equal
  obtain ⟨parents, names⟩ := Prod.mk.inj equal.2
  exact Place.ext equal.1 parents names

instance : LinearOrder Place :=
  LinearOrder.lift' key key_injective

end Place

/-- The contents of a file, with a byte string that orders contents of equal
stamps. -/
@[ext] structure Body where
  stamp : Stamp
  bytes : Bytes
  blob : CloudBlobRef
  thumb : Option CloudThumb
  mtimeMs : UInt64
  deriving DecidableEq

def body
    (stamp : Stamp) (blob : CloudBlobRef) (thumb : Option CloudThumb)
    (mtimeMs : UInt64) : Body where
  stamp := stamp
  bytes := encode blob ++ thumb.elim [] encode ++ bigEndian64 mtimeMs
  blob := blob
  thumb := thumb
  mtimeMs := mtimeMs

namespace Body

/-- The order of comparison. -/
def key (body : Body) : Stamp ×ₗ Bytes :=
  toLex (body.stamp, body.bytes)

end Body

/-- Whether and since when a node is in the trash. -/
@[ext] structure Trash where
  stamp : Stamp
  trashed : Bool
  atMs : UInt64
  deriving DecidableEq

namespace Trash

/-- The order of comparison. -/
def key (trash : Trash) : Stamp ×ₗ Bool ×ₗ UInt64 :=
  toLex (trash.stamp, toLex (trash.trashed, trash.atMs))

theorem key_injective : Function.Injective key := by
  intro first second equal
  simp only [key, EmbeddingLike.apply_eq_iff_eq, Prod.mk.injEq] at equal
  exact Trash.ext equal.1 equal.2.1 equal.2.2

instance : LinearOrder Trash :=
  LinearOrder.lift' key key_injective

end Trash

/-- The creation of a node. -/
abbrev Created := Stamp × CloudNodeKind

/-- The order of comparison of creations. -/
def createdKey (created : Created) : Stamp ×ₗ Nat :=
  toLex (created.1, created.2.toNat)

/-- The registers of one node. -/
@[ext] structure Node where
  created : Option Created
  place : Option Place
  body : Option Body
  trash : Option Trash
  purgedAt : Option UInt64
  deriving DecidableEq

/-- A node that nothing is known of. -/
def Node.empty : Node where
  created := none
  place := none
  body := none
  trash := none
  purgedAt := none

def putMax [LinearOrder α] (slot : Option α) (value : α) : Option α :=
  match slot with
  | some current => if value ≤ current then slot else some value
  | none => some value

/-- Of two creations the smaller one stays. -/
def putCreated (slot : Option Created) (value : Created) : Option Created :=
  match slot with
  | some current =>
      if createdKey current ≤ createdKey value then slot else some value
  | none => some value

def putBody (slot : Option Body) (value : Body) : Option Body :=
  match slot with
  | some current => if value.key ≤ current.key then slot else some value
  | none => some value

/-- The merged state of a cloud container. -/
@[ext] structure CloudState where
  nodes : Std.ExtTreeMap NodeId Node
  title : Option (Stamp ×ₗ String)
  deriving DecidableEq

namespace CloudState

def new : CloudState where
  nodes := ∅
  title := none

/-- Change the registers of a node, which appears if it was not there. -/
def onNode (state : CloudState) (id : NodeId) (change : Node -> Node) : CloudState :=
  { state with
    nodes := state.nodes.alter id fun slot => some (change (slot.getD .empty)) }

end CloudState

/-! ## Applying operations -/

def checkCreateKind (create : CloudCreate) : Result CloudNodeKind := do
  match ← present (CloudNodeKind.tryFrom create.kind) (.invalidField "kind") with
  | .folder =>
      require (create.blob.isNone && create.thumb.isNone) (.invalidField "kind")
      return .folder
  | .file =>
      let blob ← present create.blob (.invalidField "blob")
      checkBlob blob
      checkThumbOption create.thumb
      return .file
  | .unspecified => .error (.invalidField "kind")

def applyCreate (create : CloudCreate) : Update CloudState Unit := do
  let id ← nodeId create.nodeId
  let parent ← parentId create.parentId
  let stamp ← Stamp.fromPb create.stamp
  checkName create.name
  let kind ← checkCreateKind create
  modify fun state => state.onNode id fun node =>
    { node with
      created := putCreated node.created (stamp, kind)
      place := putMax node.place ⟨stamp, parent, create.name⟩
      body :=
        match create.blob with
        | some blob => putBody node.body (body stamp blob create.thumb create.mtimeMs)
        | none => node.body }

/-- Apply one operation. -/
def apply (op : CloudOp) : Update CloudState Unit := do
  match ← present op.op (.invalidField "op") with
  | .create create => applyCreate create
  | .move move =>
      let id ← nodeId move.nodeId
      let parent ← parentId move.parentId
      let stamp ← Stamp.fromPb move.stamp
      checkName move.name
      modify fun state => state.onNode id fun node =>
        { node with place := putMax node.place ⟨stamp, parent, move.name⟩ }
  | .setBlob setBlob =>
      let id ← nodeId setBlob.nodeId
      let stamp ← Stamp.fromPb setBlob.stamp
      let blob ← present setBlob.blob (.invalidField "blob")
      checkBlob blob
      checkThumbOption setBlob.thumb
      modify fun state => state.onNode id fun node =>
        { node with
          body := putBody node.body (body stamp blob setBlob.thumb setBlob.mtimeMs) }
  | .trash trash =>
      let id ← nodeId trash.nodeId
      let stamp ← Stamp.fromPb trash.stamp
      modify fun state => state.onNode id fun node =>
        { node with trash := putMax node.trash ⟨stamp, trash.trashed, trash.atMs⟩ }
  | .purge purge =>
      let id ← nodeId purge.nodeId
      let _ ← Stamp.fromPb purge.stamp
      modify fun state => state.onNode id fun node =>
        { node with
          purgedAt := some (node.purgedAt.elim purge.atMs (min · purge.atMs)) }
  | .setMeta setMeta =>
      let stamp ← Stamp.fromPb setMeta.stamp
      checkName setMeta.name
      modify fun state =>
        { state with title := putMax state.title (toLex (stamp, setMeta.name)) }
  | .delete _ => throw (.invalidField "op")

def opStamp (op : CloudOp) : Option LwwStamp :=
  match op.op with
  | none => none
  | some (.create create) => create.stamp
  | some (.move move) => move.stamp
  | some (.setBlob setBlob) => setBlob.stamp
  | some (.trash trash) => trash.stamp
  | some (.purge purge) => purge.stamp
  | some (.setMeta setMeta) => setMeta.stamp
  | some (.delete delete) => delete.stamp

/-- The stamps of all operations of a batch. -/
def batchStamps (batch : CloudBatch) : Result (List Stamp) := do
  require (!batch.ops.isEmpty) (.invalidField "ops")
  batch.ops.mapM fun op => Stamp.fromPb (opStamp op)

/-- Apply operations one by one, skip the malformed ones, and count the rest. -/
def applyOps : List CloudOp -> CloudState -> Nat × CloudState
  | [], state => (0, state)
  | op :: ops, state =>
      match (apply op).exec state with
      | (.ok _, later) =>
          let (count, final) := applyOps ops later
          (count + 1, final)
      | (.error _, later) => applyOps ops later

/-- Apply a batch of one device; a stamp of another device refuses all of it. -/
def applyBatch (batch : CloudBatch) (authorDevice : String) : Update CloudState Nat := do
  let stamps ← batchStamps batch
  require (stamps.all fun stamp => stamp.deviceId == authorDevice) .contextMismatch
  modifyGet (applyOps batch.ops)

/-- The blob that an operation brings. -/
def opBlob (op : CloudOp) : Option CloudBlobRef :=
  match op.op with
  | some (.create create) => create.blob
  | some (.setBlob setBlob) => setBlob.blob
  | _ => none

/-- Apply a batch of somebody else, whose blobs have to be uploads of the author. -/
def applyBatchFrom (batch : CloudBatch) (author : Author) : Update CloudState Nat := do
  require
    (batch.ops.all fun op =>
      (opBlob op).all fun blob => author.names.any (· == blob.uploader))
    .contextMismatch
  applyBatch batch author.deviceId

end Parvane.Cloud
