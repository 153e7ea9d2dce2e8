import Parvane.Cloud.Restored

/-!
# The contents of nodes that were deleted for good

The device that uploaded the contents of a file erases them once the file was deleted for good, by
itself or with a folder above it.  A file that is moved out of the deleted folder afterwards is
visible again, and so may be another file of the same contents.
-/

namespace Parvane.Cloud

open Wire Domain Ancestry

/-- Contents for the device of the uploader to erase. -/
@[ext] structure PurgedBlob where
  fileId : String
  uploader : String
  deriving DecidableEq

namespace PurgedBlob

/-- The order of comparison. -/
def key (blob : PurgedBlob) : String ×ₗ String :=
  toLex (blob.fileId, blob.uploader)

end PurgedBlob

/-- The contents of a file and its picture; both count as uploads of one user. -/
def Body.purgedBlobs (body : Body) : List PurgedBlob :=
  ⟨body.blob.fileId, body.blob.uploader⟩ ::
    body.thumb.elim [] fun thumb => [⟨thumb.fileId, body.blob.uploader⟩]

namespace CloudState

/-- The contents of the nodes that were deleted for good. -/
def purgedBlobs (state : CloudState) : List PurgedBlob :=
  let fates := state.fates state.parents
  let found := fates.toList.flatMap fun (id, fate) =>
    if fate.purged then (state.nodes[id]?.bind Node.body).elim [] Body.purgedBlobs else []
  found.dedup.mergeSort fun first second => first.key ≤ second.key

/-- The node was deleted for good, by itself or with a folder above it. -/
def Erased (state : CloudState) (id : NodeId) : Prop :=
  ∃ fate, (state.fates state.parents)[id]? = some fate ∧ fate.purged = true

/-- The node has these contents or this picture. -/
def Carries (state : CloudState) (id : NodeId) (blob : PurgedBlob) : Prop :=
  ∃ body, state.nodes[id]?.bind Node.body = some body ∧ blob ∈ body.purgedBlobs

theorem mem_purgedBlobs {state : CloudState} {blob : PurgedBlob} :
    blob ∈ state.purgedBlobs ↔ ∃ id, state.Erased id ∧ state.Carries id blob := by
  simp only [purgedBlobs, List.mem_mergeSort, List.mem_dedup, List.mem_flatMap, Prod.exists,
    Std.ExtTreeMap.mem_toList_iff_getElem?_eq_some]
  refine exists_congr fun id => ?_
  constructor
  · rintro ⟨fate, found, inside⟩
    split at inside
    · next purged =>
        refine ⟨⟨fate, found, purged⟩, ?_⟩
        cases held : state.nodes[id]?.bind Node.body with
        | none => simp [held] at inside
        | some body => exact ⟨body, held, by simpa [held] using inside⟩
    · cases inside
  · rintro ⟨⟨fate, found, purged⟩, body, held, inside⟩
    refine ⟨fate, found, ?_⟩
    rw [if_pos purged, held]
    exact inside

/-! ## The way to the deleted folder -/

/-- The parent that the walks find. -/
def parentOf (state : CloudState) (id : NodeId) : Option NodeId :=
  state.parents[id]?.join

theorem parentOf_eq (state : CloudState) : state.parentOf = state.parent := by
  funext id
  exact join_getElem?_parents state id

/-- The node itself was deleted for good. -/
def purgedItself (state : CloudState) (id : NodeId) : Bool :=
  (state.nodes[id]?.bind Node.purgedAt).isSome

/-- The node is no more in any deleted folder that it was in: on the way up to each of them
some node has another parent. -/
def MovedOut (earlier later : CloudState) (id : NodeId) : Prop :=
  ∀ before folder rest, Lineage earlier.parentOf (some id) (before ++ folder :: rest) ->
    earlier.purgedItself folder = true ->
      ∃ one ∈ before, later.parentOf one ≠ earlier.parentOf one

/-- A visible node is on no way to a deleted folder. -/
theorem not_purgedItself_of_isLive {state : CloudState} {shownNode : ViewNode}
    (live : state.IsLive shownNode) {path : List NodeId}
    (lineage : Lineage state.parentOf (some shownNode.id) path) :
    ∀ folder ∈ path, state.purgedItself folder = false := by
  obtain ⟨id, node, created, way, -, -, above, alive, rfl⟩ := live
  rw [parentOf_eq] at lineage
  cases lineage.unique above
  rw [purged_fateAlong, List.any_eq_false] at alive
  exact fun folder member => Bool.not_eq_true _ ▸ alive folder member

theorem IsLive.not_erased {state : CloudState} {shownNode : ViewNode}
    (live : state.IsLive shownNode) : ¬ state.Erased shownNode.id := by
  rintro ⟨fate, found, purged⟩
  obtain ⟨id, node, created, path, held, known, lineage, alive, rfl⟩ := live
  rw [(fated_fates state).1 _ fate found path lineage, alive] at purged
  cases purged

theorem exists_live_of_mem_view {state : CloudState} {shownNode : ViewNode}
    (visible : shownNode ∈ state.view) :
    ∃ live name, state.IsLive live ∧ shownNode = { live with name := name } := by
  have looks := map_view (fun node => { node with name := "" }) (fun _ _ => rfl) state
  obtain ⟨live, member, same⟩ := List.mem_map.1 (looks ▸ List.mem_map_of_mem visible)
  refine ⟨live, shownNode.name, mem_liveNodes.1 member, ?_⟩
  exact congrArg (fun node => { node with name := shownNode.name }) same.symm

end CloudState

/-- The uploads that a visible node shows. -/
def ViewNode.fileIds (node : ViewNode) : List String :=
  (node.blob.map CloudBlobRef.fileId).toList ++ (node.thumb.map CloudThumb.fileId).toList

/-- What a visible node shows it has. -/
theorem CloudState.carries_of_mem_view {state : CloudState} {shownNode : ViewNode}
    (visible : shownNode ∈ state.view) {fileId : String} (shows : fileId ∈ shownNode.fileIds) :
    ∃ uploader, state.Carries shownNode.id ⟨fileId, uploader⟩ := by
  obtain ⟨_, name, ⟨id, node, created, path, held, -, -, -, rfl⟩, rfl⟩ :=
    exists_live_of_mem_view visible
  cases body : node.body.filter fun _ => created.2 = .file with
  | none => simp [ViewNode.fileIds, shown, body] at shows
  | some contents =>
      have has := (Option.filter_eq_some_iff.1 body).1
      refine ⟨contents.blob.uploader, contents, by simp [shown, held, has], ?_⟩
      simp only [ViewNode.fileIds, shown, body] at shows
      cases thumb : contents.thumb <;> simpa [thumb, Body.purgedBlobs] using shows

/-- A later state remembers what was deleted for good. -/
theorem Below.purgedItself {lower upper : CloudState}
    (below : Below lower upper) {id : NodeId}
    (purged : lower.purgedItself id = true) : upper.purgedItself id = true := by
  rw [CloudState.purgedItself] at purged ⊢
  cases held : upper.nodes[id]? with
  | none => simp [below.none id held] at purged
  | some node =>
      have absorbed := congrArg Node.purgedAt (below.absorb id node held)
      cases found : lower.nodes[id]? with
      | none => simp [found] at purged
      | some old =>
          rw [found, Option.bind_some] at purged
          rw [found, Option.getD_some, Node.absorb] at absorbed
          cases since : node.purgedAt with
          | some at_ => simp [since]
          | none =>
              rw [since] at absorbed
              simp [show old.purgedAt = .none from absorbed] at purged

/-- A node that was deleted for good is visible later only when it was moved out of the deleted
folders, and never when it was deleted by itself. -/
theorem movedOut_of_visible {ops more : List CloudOp} {shownNode : ViewNode}
    (visible : shownNode ∈ (reached (ops ++ more)).view) :
    (reached ops).MovedOut (reached (ops ++ more)) shownNode.id := by
  intro before folder rest lineage purged
  by_contra unmoved
  push Not at unmoved
  obtain ⟨live, name, isLive, rfl⟩ := CloudState.exists_live_of_mem_view visible
  obtain ⟨path, way⟩ := CloudState.exists_lineage (reached (ops ++ more)) (some live.id)
  rw [← CloudState.parentOf_eq] at way
  have later := (below_of_subset (List.subset_append_left ops more)).purgedItself purged
  have alive := CloudState.not_purgedItself_of_isLive isLive way folder
    (lineage.mem_of_agree way unmoved)
  rw [later] at alive
  cases alive

theorem CloudState.MovedOut.not_purgedItself {earlier later : CloudState} {id : NodeId}
    (movedOut : earlier.MovedOut later id) : earlier.purgedItself id = false := by
  by_contra purged
  obtain ⟨path, lineage⟩ := CloudState.exists_lineage earlier (some id)
  rw [← CloudState.parentOf_eq] at lineage
  cases lineage with
  | step rest =>
      obtain ⟨one, member, -⟩ := movedOut [] id _ (.step rest) (Bool.not_eq_false _ ▸ purged)
      cases member

/-! ## Contents that are needed again -/

/-- No node that was deleted for good is visible.  An upload that was to be erased is shown later
only by another node than those it was erased with, or by one of them that has left the deleted
folders; a node that was deleted by itself has not. -/
theorem purged_blobs_needed_only_after_move (ops more : List CloudOp) :
    (∀ shownNode ∈ (reached ops).view, ¬ (reached ops).Erased shownNode.id) ∧
    ∀ blob ∈ (reached ops).purgedBlobs,
      (∃ id, (reached ops).Erased id ∧ (reached ops).Carries id blob) ∧
      ∀ shownNode ∈ (reached (ops ++ more)).view, blob.fileId ∈ shownNode.fileIds ->
        (∃ uploader, (reached (ops ++ more)).Carries shownNode.id ⟨blob.fileId, uploader⟩) ∧
        ∀ id, (reached ops).Erased id -> (reached ops).Carries id blob ->
          id ≠ shownNode.id ∨
            ((reached ops).purgedItself id = false ∧
              (reached ops).MovedOut (reached (ops ++ more)) id) := by
  refine ⟨fun shownNode visible erased => ?_, fun blob returned => ?_⟩
  · obtain ⟨live, name, isLive, rfl⟩ := CloudState.exists_live_of_mem_view visible
    exact isLive.not_erased erased
  · refine ⟨CloudState.mem_purgedBlobs.1 returned, fun shownNode visible shows => ?_⟩
    refine ⟨CloudState.carries_of_mem_view visible shows, fun id _ _ => ?_⟩
    by_cases same : id = shownNode.id
    · have movedOut := same ▸ movedOut_of_visible visible
      exact .inr ⟨movedOut.not_purgedItself, movedOut⟩
    · exact .inl same

/-- The contents of the sample files. -/
def sampleBlob (fileId : String) : CloudBlobRef where
  fileId := fileId
  key := List.replicate 32 0
  size := 1
  chunks := 1
  mime := ""
  sha256 := []
  nonce := List.replicate 12 0
  capability := List.replicate 32 0
  uploader := "alice@local"

/-- The creation of a file in the sample folder. -/
def sampleFile (id : UInt8) (fileId : String) : CloudOp where
  op := some (.create {
    nodeId := List.replicate 16 id
    kind := 2
    parentId := List.replicate 16 1
    name := "f"
    blob := some (sampleBlob fileId)
    stamp := some ⟨3, "d1"⟩
    thumb := none
    mtimeMs := 0 })

/-- The file leaves the sample folder. -/
def sampleLeave : CloudOp where
  op := some (.move {
    nodeId := List.replicate 16 2
    parentId := []
    name := "f"
    stamp := some ⟨4, "d1"⟩ })

/-- A folder with a file, deleted for good. -/
def sampleErasure : List CloudOp :=
  [sampleCreate, sampleFile 2 "f1", samplePurge]

/-- The file at the root. -/
def sampleShown : ViewNode where
  id := ⟨List.replicate 16 2, rfl⟩
  kind := .file
  parent := none
  name := "f"
  blob := some (sampleBlob "f1")
  thumb := none
  mtimeMs := 0
  trashed := false
  trashTop := false
  trashedAtMs := 0

theorem purged_blobs_needed_only_after_move_sample :
    (reached sampleErasure).purgedItself sampleShown.id = false ∧
      (reached sampleErasure).MovedOut (reached (sampleErasure ++ [sampleLeave]))
        sampleShown.id := by
  have all := (purged_blobs_needed_only_after_move sampleErasure [sampleLeave]).2
    ⟨"f1", "alice@local"⟩ (by decide +kernel)
  have each := (all.2 sampleShown (by decide +kernel) (by decide +kernel)).2 sampleShown.id
    ⟨⟨true, false, false, 0⟩, by decide +kernel, rfl⟩
    ⟨body ⟨3, "d1"⟩ (sampleBlob "f1") none 0, by decide +kernel, by decide +kernel⟩
  exact each.resolve_left fun other => other rfl

/-- The contents were to be erased with the folder, and the file that has them is visible after
it left the folder.  Of two files with the same contents one is visible when the other is
deleted. -/
theorem purged_blobs_shown_again :
    ((reached sampleErasure).purgedBlobs = [⟨"f1", "alice@local"⟩] ∧
      sampleShown ∈ (reached (sampleErasure ++ [sampleLeave])).view ∧
      "f1" ∈ sampleShown.fileIds) ∧
    (reached (sampleFile 3 "f1" :: sampleErasure ++ [sampleLeave])).purgedBlobs =
        [⟨"f1", "alice@local"⟩] ∧
      sampleShown ∈ (reached (sampleFile 3 "f1" :: sampleErasure ++ [sampleLeave])).view := by
  decide +kernel

end Parvane.Cloud
