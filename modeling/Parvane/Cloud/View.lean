import Parvane.Cloud.State
import Mathlib.Data.List.MinMax

/-!
# The visible tree of a cloud container

The tree is computed from the registers alone.  A node whose parent is unknown or
not a folder is shown at the root; of a cycle of moves the node that was moved
last is shown at the root.  Names that clash outside the trash get numbers, the
node that was created first keeps the plain name.
-/

namespace Parvane.Cloud

open Wire Domain

/-- Parents of the existing nodes, no parent being the root. -/
abbrev Parents := Std.ExtTreeMap NodeId (Option NodeId)

/-- The state of a node in the walk along parents. -/
inductive Color
  | onPath
  | settled
  deriving DecidableEq

namespace CloudState

def «exists» (state : CloudState) (id : NodeId) : Bool :=
  state.nodes[id]?.any fun node => node.created.isSome

def isFolder (state : CloudState) (id : NodeId) : Bool :=
  state.nodes[id]?.any fun node => node.created.any fun created => created.2 = .folder

/-- The parents as the places name them, without detached and own parents. -/
def namedParents (state : CloudState) : Parents :=
  state.nodes.filterMap fun id node =>
    if node.created.isSome then
      some ((node.place.bind Place.parent).filter fun parent =>
        parent ≠ id && state.isFolder parent)
    else none

/-- The order in which the nodes of a cycle compete for the root. -/
def moveKey (state : CloudState) (id : NodeId) : WithBot Stamp ×ₗ NodeId :=
  let stamp : Option Stamp := (state.nodes[id]?.bind Node.place).map Place.stamp
  toLex (stamp, id)

/-- Walk from a node along parents to a settled node or the root.  A node met
twice closes a cycle, whose last moved node goes to the root. -/
def walk (state : CloudState) :
    Nat -> Option NodeId -> List NodeId -> Parents -> Std.ExtTreeMap NodeId Color ->
      List NodeId × Parents × Std.ExtTreeMap NodeId Color
  | 0, _, path, parents, color => (path, parents, color)
  | _ + 1, none, path, parents, color => (path, parents, color)
  | fuel + 1, some id, path, parents, color =>
      match color[id]? with
      | some .settled => (path, parents, color)
      | some .onPath =>
          match (path.dropWhile (· ≠ id)).argmax state.moveKey with
          | some top => (path, parents.insert top none, color)
          | none => (path, parents, color)
      | none =>
          state.walk fuel parents[id]?.join (path ++ [id]) parents
            (color.insert id .onPath)

/-- Settle one node and everything on its way. -/
def settle
    (state : CloudState) (found : Parents × Std.ExtTreeMap NodeId Color)
    (start : NodeId) : Parents × Std.ExtTreeMap NodeId Color :=
  -- every step but the last colours one more node
  let (path, parents, color) :=
    state.walk (found.1.size + 1) (some start) [] found.1 found.2
  (parents, path.foldl (fun color id => color.insert id .settled) color)

/-- Parents after detached nodes and cycles were resolved. -/
def parents (state : CloudState) : Parents :=
  let named := state.namedParents
  (named.keys.foldl state.settle (named, ∅)).1

end CloudState

/-- What became of a node: deleted for good, in the trash by itself or with an
ancestor, and since when. -/
structure Fate where
  purged : Bool
  trashed : Bool
  trashTop : Bool
  trashedAtMs : UInt64
  deriving DecidableEq

namespace CloudState

/-- The nodes from a start up to the root or to a node of known fate, nearest
first, and the fate that they inherit. -/
def chain (parents : Parents) (fates : Std.ExtTreeMap NodeId Fate) :
    Nat -> Option NodeId -> List NodeId -> List NodeId × Fate
  | 0, _, chain => (chain, ⟨false, false, false, 0⟩)
  | _ + 1, none, chain => (chain, ⟨false, false, false, 0⟩)
  | fuel + 1, some id, found =>
      match fates[id]? with
      | some fate => (found, fate)
      | none => chain parents fates fuel parents[id]?.join (found ++ [id])

/-- The fate of a node below one of known fate. -/
def inherit (node : Node) (inherited : Fate) : Fate :=
  let ownTrash := node.trash.filter fun trash => trash.trashed
  { purged := inherited.purged || node.purgedAt.isSome
    trashTop := ownTrash.isSome && !inherited.trashed
    trashed := inherited.trashed || ownTrash.isSome
    trashedAtMs :=
      if inherited.trashed then inherited.trashedAtMs
      else ownTrash.elim 0 Trash.atMs }

/-- The fates of all existing nodes. -/
def fates (state : CloudState) (parents : Parents) : Std.ExtTreeMap NodeId Fate :=
  parents.keys.foldl
    (fun fates start =>
      let (chain, inherited) := chain parents fates (parents.size + 1) (some start) []
      (chain.reverse.foldl
        (fun (found : Std.ExtTreeMap NodeId Fate × Fate) id =>
          let fate := inherit (state.nodes[id]?.getD .empty) found.2
          (found.1.insert id fate, fate))
        (fates, inherited)).1)
    ∅

end CloudState

/-- A node of the visible tree. -/
@[ext] structure ViewNode where
  id : NodeId
  kind : CloudNodeKind
  parent : Option NodeId
  name : String
  blob : Option CloudBlobRef
  thumb : Option CloudThumb
  mtimeMs : UInt64
  trashed : Bool
  trashTop : Bool
  trashedAtMs : UInt64
  deriving DecidableEq

/-- Put a number before the extension of a name. -/
def numberedName (name : String) (n : Nat) : String :=
  let letters := name.toList
  let extension := (letters.reverse.takeWhile (· ≠ '.')).reverse
  let stem := letters.take (letters.length - extension.length - 1)
  if extension.length < letters.length && !stem.isEmpty && !extension.isEmpty then
    String.ofList stem ++ " (" ++ toString n ++ ")" ++ String.ofList ('.' :: extension)
  else name ++ " (" ++ toString n ++ ")"

/-- The first numbered name, from the given number on, that is not in use. -/
def freeName (name : String) (used : List String) : Nat -> Nat -> String
  | 0, n => numberedName name n
  | fuel + 1, n =>
      let candidate := numberedName name n
      if used.contains candidate then freeName name used fuel (n + 1)
      else candidate

/-- Give numbers to the later ones of equal names among siblings. -/
def renameSiblings (raw : List String) :
    List Nat -> List String -> List ViewNode -> List ViewNode
  | [], _, nodes => nodes
  | index :: indices, taken, nodes =>
      match nodes[index]? with
      | none => renameSiblings raw indices taken nodes
      | some node =>
          if taken.contains node.name then
            let shown :=
              freeName node.name (raw ++ taken) (raw.length + taken.length) 2
            renameSiblings raw indices (shown :: taken)
              (nodes.set index { node with name := shown })
          else renameSiblings raw indices (node.name :: taken) nodes

namespace CloudState

/-- The existing nodes that were not deleted for good, with their own names. -/
def liveNodes (state : CloudState) : List ViewNode :=
  let parents := state.parents
  let fates := state.fates parents
  parents.toList.filterMap fun (id, parent) => do
    let fate ← fates[id]?
    let node ← state.nodes[id]?
    let (_, kind) ← node.created
    if fate.purged then none
    else
      let contents := node.body.filter fun _ => kind = .file
      some {
        id := id
        kind := kind
        parent := parent
        name := node.place.elim "" Place.name
        blob := contents.map Body.blob
        thumb := contents.bind Body.thumb
        mtimeMs := node.body.elim 0 Body.mtimeMs
        trashed := fate.trashed
        trashTop := fate.trashTop
        trashedAtMs := fate.trashedAtMs }

/-- The order in which siblings claim their names. -/
def claimKey (state : CloudState) (node : ViewNode) : WithBot Stamp ×ₗ NodeId :=
  let stamp : Option Stamp := (state.nodes[node.id]?.bind Node.created).map Prod.fst
  toLex (stamp, node.id)

/-- Number the clashing names among the children of one node. -/
def nameChildren
    (state : CloudState) (nodes : List ViewNode) (parent : Option NodeId) : List ViewNode :=
  let siblings := nodes.zipIdx.filter fun (node, _) =>
    !node.trashed && node.parent = parent
  let claims := siblings.mergeSort fun first second =>
    state.claimKey first.1 ≤ state.claimKey second.1
  renameSiblings (siblings.map fun (node, _) => node.name) (claims.map Prod.snd) [] nodes

/-- The visible tree. -/
def view (state : CloudState) : List ViewNode :=
  let nodes := state.liveNodes
  let folders := ((nodes.filter fun node => !node.trashed).map ViewNode.parent).dedup
  folders.foldl state.nameChildren nodes

end CloudState

end Parvane.Cloud
