import Parvane.Cloud.Ancestors

/-!
# A part of the nodes with the same visible tree

Nodes that were deleted for good may be forgotten together with everything below them.  A state
that knows only a part of the nodes shows the same tree, if the part is closed upwards and holds
all visible nodes.
-/

namespace Parvane.Cloud

open Domain Ancestry

namespace CloudState

/-- One state knows some of the nodes of another, with those above them. -/
structure Forgets (whole part : CloudState) : Prop where
  created : ∀ id, part.exists id = true ->
    part.nodes[id]?.bind Node.created = whole.nodes[id]?.bind Node.created
  place : ∀ id, part.exists id = true ->
    part.nodes[id]?.bind Node.place = whole.nodes[id]?.bind Node.place
  purgedAt : ∀ id, part.exists id = true ->
    part.nodes[id]?.bind Node.purgedAt = whole.nodes[id]?.bind Node.purgedAt
  closed : ∀ id parent, part.exists id = true -> whole.parent id = some parent ->
    part.exists parent = true
  visible : ∀ id path, whole.exists id = true -> Lineage whole.parent (some id) path ->
    (whole.fateAlong path).purged = false -> part.nodes[id]? = whole.nodes[id]?

theorem exists_eq (state : CloudState) (id : NodeId) :
    state.exists id = (state.nodes[id]?.bind Node.created).isSome := by
  rw [CloudState.exists]
  cases state.nodes[id]? <;> rfl

theorem isFolder_eq (state : CloudState) (id : NodeId) :
    state.isFolder id =
      (state.nodes[id]?.bind Node.created).any fun created => created.2 = .folder := by
  rw [isFolder]
  cases state.nodes[id]? <;> rfl

namespace Forgets

variable {whole part : CloudState} (forgets : Forgets whole part)

include forgets

theorem «exists» {id : NodeId} (known : part.exists id = true) : whole.exists id = true := by
  rw [exists_eq, ← forgets.created id known, ← exists_eq, known]

theorem isFolder {id : NodeId} :
    part.isFolder id = true ↔ whole.isFolder id = true ∧ part.exists id = true := by
  by_cases known : part.exists id = true
  · rw [isFolder_eq, forgets.created id known, ← isFolder_eq, and_iff_left known]
  · exact iff_of_false (fun folder => known (exists_of_isFolder folder)) fun both => known both.2

theorem namedParent {id parent : NodeId} (known : part.exists id = true) :
    part.namedParent id = some parent ↔
      whole.namedParent id = some parent ∧ part.exists parent = true := by
  have places (state : CloudState) : (state.nodes[id]?.bind fun node => node.place.bind Place.parent) =
      (state.nodes[id]?.bind Node.place).bind Place.parent := by
    cases state.nodes[id]? <;> rfl
  rw [CloudState.namedParent, CloudState.namedParent, if_pos known, if_pos (forgets.exists known),
    places, places, forgets.place id known, Option.filter_eq_some_iff, Option.filter_eq_some_iff,
    Bool.and_eq_true, Bool.and_eq_true, forgets.isFolder, and_assoc, and_assoc]

theorem parent {id : NodeId} (known : part.exists id = true) : part.parent id = whole.parent id := by
  refine resolve_eq_of_closed { id | part.exists id = true } whole.moveKey_injective
    (fun one member parent => forgets.namedParent member) (fun one missing => ?_)
    (fun one member => ?_) (fun one member parent above => forgets.closed one parent member above)
    known
  · rw [CloudState.namedParent]
    exact if_neg missing
  · rw [moveKey, moveKey, forgets.place one member]

theorem lineage {start : Option NodeId} {path : List NodeId}
    (lineage : Lineage whole.parent start path) (known : ∀ id ∈ start, part.exists id = true) :
    Lineage part.parent start path ∧ ∀ id ∈ path, part.exists id = true := by
  induction lineage with
  | root => exact ⟨.root, by simp⟩
  | @step id path _ inductionHypothesis =>
      have here := known id rfl
      obtain ⟨above, all⟩ :=
        inductionHypothesis fun parent above => forgets.closed id parent here above
      exact ⟨.step ((forgets.parent here).symm ▸ above), List.forall_mem_cons.2 ⟨here, all⟩⟩

end Forgets

/-- A node is deleted for good when one on its way to the root is. -/
theorem purged_fateAlong (state : CloudState) (path : List NodeId) :
    (state.fateAlong path).purged =
      path.any fun id => (state.nodes[id]?.bind Node.purgedAt).isSome := by
  induction path with
  | nil => rfl
  | cons id path inductionHypothesis =>
      have own : (state.nodes[id]?.getD .empty).purgedAt = state.nodes[id]?.bind Node.purgedAt := by
        cases state.nodes[id]? <;> rfl
      rw [List.any_cons, ← inductionHypothesis, ← own, Bool.or_comm]
      rfl

/-! ## The visible nodes -/

/-- What is shown of a node. -/
def shown (id : NodeId) (node : Node) (kind : CloudNodeKind) (parent : Option NodeId)
    (fate : Fate) : ViewNode where
  id := id
  kind := kind
  parent := parent
  name := node.place.elim "" Place.name
  blob := (node.body.filter fun _ => kind = .file).map Body.blob
  thumb := (node.body.filter fun _ => kind = .file).bind Body.thumb
  mtimeMs := node.body.elim 0 Body.mtimeMs
  trashed := fate.trashed
  trashTop := fate.trashTop
  trashedAtMs := fate.trashedAtMs

/-- What is shown of an existing node, unless it was deleted for good. -/
def liveNode (state : CloudState) (id : NodeId) (parent : Option NodeId) : Option ViewNode := do
  let fate ← (state.fates state.parents)[id]?
  let node ← state.nodes[id]?
  let (_, kind) ← node.created
  if fate.purged then none else some (shown id node kind parent fate)

theorem liveNodes_eq (state : CloudState) :
    state.liveNodes =
      state.parents.toList.filterMap fun (id, parent) => state.liveNode id parent := rfl

theorem liveNode_eq_some
    {state : CloudState} {id : NodeId} {parent : Option NodeId} {shownNode : ViewNode} :
    state.liveNode id parent = some shownNode ↔
      ∃ fate node created, (state.fates state.parents)[id]? = some fate ∧
        state.nodes[id]? = some node ∧ node.created = some created ∧ fate.purged = false ∧
        shownNode = shown id node created.2 parent fate := by
  simp only [liveNode, Option.bind_eq_bind, Option.bind_eq_some_iff]
  constructor
  · rintro ⟨fate, found, node, held, created, known, isShown⟩
    split at isShown
    · cases isShown
    · next live =>
        cases isShown
        exact ⟨fate, node, created, found, held, known, Bool.not_eq_true _ ▸ live, rfl⟩
  · rintro ⟨fate, node, created, found, held, known, live, rfl⟩
    exact ⟨fate, found, node, held, created, known, by rw [live]; rfl⟩

/-- The node is visible, and this is what is shown of it before names are told apart. -/
def IsLive (state : CloudState) (shownNode : ViewNode) : Prop :=
  ∃ id node created path, state.nodes[id]? = some node ∧ node.created = some created ∧
    Lineage state.parent (some id) path ∧ (state.fateAlong path).purged = false ∧
    shownNode = shown id node created.2 (state.parent id) (state.fateAlong path)

theorem mem_liveNodes {state : CloudState} {shownNode : ViewNode} :
    shownNode ∈ state.liveNodes ↔ state.IsLive shownNode := by
  simp only [liveNodes_eq, List.mem_filterMap, liveNode_eq_some]
  constructor
  · rintro ⟨⟨id, parent⟩, member, fate, node, created, found, held, known, live, rfl⟩
    rw [Std.ExtTreeMap.mem_toList_iff_getElem?_eq_some, getElem?_parents] at member
    split at member
    · next exists_ =>
        cases member
        obtain ⟨path, lineage⟩ := exists_lineage state (some id)
        cases found.symm.trans (getElem?_fates exists_ lineage)
        exact ⟨id, node, created, path, held, known, lineage, live, rfl⟩
    · cases member
  · rintro ⟨id, node, created, path, held, known, lineage, live, rfl⟩
    have exists_ : state.exists id = true := by
      rw [exists_eq, held, Option.bind_some, known, Option.isSome_some]
    refine ⟨(id, state.parent id), ?_, state.fateAlong path, node, created,
      getElem?_fates exists_ lineage, held, known, live, rfl⟩
    rw [Std.ExtTreeMap.mem_toList_iff_getElem?_eq_some, getElem?_parents, if_pos exists_]

/-- The visible nodes stand in the order of their identifiers. -/
theorem liveNodes_sorted (state : CloudState) :
    state.liveNodes.Pairwise fun first second => compare first.id second.id = .lt := by
  rw [liveNodes_eq]
  refine Std.ExtTreeMap.ordered_keys_toList.filterMap _ fun first second before one isOne other
    isOther => ?_
  obtain ⟨_, _, _, -, -, -, -, rfl⟩ := liveNode_eq_some.1 isOne
  obtain ⟨_, _, _, -, -, -, -, rfl⟩ := liveNode_eq_some.1 isOther
  exact before

namespace Forgets

variable {whole part : CloudState} (forgets : Forgets whole part)

include forgets

theorem fateAlong {id : NodeId} {path : List NodeId}
    (known : whole.exists id = true)
    (lineage : Lineage whole.parent (some id) path)
    (live : (whole.fateAlong path).purged = false) :
    part.fateAlong path = whole.fateAlong path := by
  have nodes : ∀ one ∈ path, part.nodes[one]? = whole.nodes[one]? := by
    intro one member
    obtain ⟨before, rest, rfl⟩ := List.append_of_mem member
    refine forgets.visible one (one :: rest)
      (exists_of_mem_lineage lineage (by simpa using known) one member) lineage.of_append ?_
    rw [purged_fateAlong, List.any_append, Bool.or_eq_false_iff] at live
    rw [purged_fateAlong]
    exact live.2
  rw [CloudState.fateAlong, CloudState.fateAlong]
  refine List.foldr_ext _ _ _ fun one member fate => ?_
  rw [nodes one member]

theorem purged {path : List NodeId} (all : ∀ id ∈ path, part.exists id = true) :
    (part.fateAlong path).purged = (whole.fateAlong path).purged := by
  rw [purged_fateAlong, purged_fateAlong, Bool.eq_iff_iff, List.any_eq_true, List.any_eq_true]
  refine exists_congr fun id => and_congr_right fun member => ?_
  rw [forgets.purgedAt id (all id member)]

theorem isLive {shownNode : ViewNode} : part.IsLive shownNode ↔ whole.IsLive shownNode := by
  constructor
  · rintro ⟨id, node, created, path, held, known, lineage, live, rfl⟩
    have exists_ : part.exists id = true := by
      rw [exists_eq, held, Option.bind_some, known, Option.isSome_some]
    obtain ⟨path', above⟩ := exists_lineage whole (some id)
    obtain ⟨sameWay, all⟩ := forgets.lineage above (by simpa using exists_)
    cases lineage.unique sameWay
    have wholeLive : (whole.fateAlong path).purged = false := forgets.purged all ▸ live
    have same := forgets.visible id path (forgets.exists exists_) above wholeLive
    refine ⟨id, node, created, path, same ▸ held, known, above, wholeLive, ?_⟩
    rw [forgets.parent exists_, forgets.fateAlong (forgets.exists exists_) above wholeLive]
  · rintro ⟨id, node, created, path, held, known, lineage, live, rfl⟩
    have exists_ : whole.exists id = true := by
      rw [exists_eq, held, Option.bind_some, known, Option.isSome_some]
    have same := forgets.visible id path exists_ lineage live
    have partExists : part.exists id = true := by
      rw [exists_eq, same, ← exists_eq, exists_]
    have fate := forgets.fateAlong exists_ lineage live
    refine ⟨id, node, created, path, same ▸ held, known,
      (forgets.lineage lineage (by simpa using partExists)).1, fate ▸ live, ?_⟩
    rw [forgets.parent partExists, fate]

theorem liveNodes : part.liveNodes = whole.liveNodes := by
  have nodup (state : CloudState) : state.liveNodes.Nodup := by
    refine state.liveNodes_sorted.imp fun before same => ?_
    rw [same] at before
    exact lt_irrefl _ (compare_lt_iff_lt.1 before)
  refine List.Perm.eq_of_pairwise (fun first second _ _ before after => ?_)
    part.liveNodes_sorted whole.liveNodes_sorted
    ((List.perm_ext_iff_of_nodup (nodup part) (nodup whole)).2 fun node => ?_)
  · exact absurd (compare_lt_iff_lt.1 before) (compare_lt_iff_lt.1 after).not_gt
  · rw [mem_liveNodes, mem_liveNodes, forgets.isLive]

end Forgets

end CloudState

/-! ## Names -/

/-- Telling names apart changes nothing but names. -/
theorem map_renameSiblings {look : ViewNode -> α}
    (blind : ∀ node name, look { node with name := name } = look node)
    (raw : List String) (indices : List Nat) (taken : List String) (nodes : List ViewNode) :
    (renameSiblings raw indices taken nodes).map look = nodes.map look := by
  induction indices generalizing taken nodes with
  | nil => rfl
  | cons index indices inductionHypothesis =>
      rw [renameSiblings]
      cases found : nodes[index]? with
      | none => exact inductionHypothesis taken nodes
      | some node =>
          by_cases clash : taken.contains node.name
          · have same : (nodes.map look)[index]? = some (look node) := by
              rw [List.getElem?_map, found]
              rfl
            simp only [clash, if_true, inductionHypothesis, List.map_set, blind]
            apply List.ext_getElem?
            intro position
            rw [List.getElem?_set]
            split
            · next here =>
                cases here
                obtain ⟨within, -⟩ := List.getElem?_eq_some_iff.1 same
                rw [if_pos within, same]
            · rfl
          · simp only [clash]
            exact inductionHypothesis _ nodes

namespace CloudState

theorem ids_nameChildren (state : CloudState) (nodes : List ViewNode) (parent : Option NodeId) :
    (state.nameChildren nodes parent).map ViewNode.id = nodes.map ViewNode.id :=
  map_renameSiblings (fun _ _ => rfl) _ _ _ _

/-- The visible tree shows the visible nodes with names of its own. -/
theorem map_view
    (look : ViewNode -> α)
    (blind : ∀ node name, look { node with name := name } = look node)
    (state : CloudState) : state.view.map look = state.liveNodes.map look := by
  have run (folders : List (Option NodeId)) (nodes : List ViewNode) :
      (folders.foldl state.nameChildren nodes).map look = nodes.map look := by
    induction folders generalizing nodes with
    | nil => rfl
    | cons folder folders inductionHypothesis =>
        rw [List.foldl_cons, inductionHypothesis]
        exact map_renameSiblings blind _ _ _ _
  exact run _ _

/-- The creations of the siblings decide who keeps a name. -/
theorem nameChildren_congr {first second : CloudState} {nodes : List ViewNode}
    (same : ∀ id ∈ nodes.map ViewNode.id, first.nodes[id]? = second.nodes[id]?)
    (parent : Option NodeId) :
    first.nameChildren nodes parent = second.nameChildren nodes parent := by
  have keys {node : ViewNode} {index : Nat} (member : (node, index) ∈ nodes.zipIdx) :
      first.claimKey node = second.claimKey node := by
    rw [claimKey, claimKey, same node.id
      (List.mem_map_of_mem (List.fst_mem_of_mem_zipIdx member))]
  have claims {siblings : List (ViewNode × Nat)} (inside : siblings ⊆ nodes.zipIdx) :
      siblings.mergeSort (fun one other => first.claimKey one.1 ≤ first.claimKey other.1) =
        siblings.mergeSort fun one other => second.claimKey one.1 ≤ second.claimKey other.1 := by
    have sorted := List.map_mergeSort (f := id)
      (r := fun one other : ViewNode × Nat =>
        decide (first.claimKey one.1 ≤ first.claimKey other.1))
      (s := fun one other : ViewNode × Nat =>
        decide (second.claimKey one.1 ≤ second.claimKey other.1)) (l := siblings)
      fun one oneMember other otherMember => by
        rw [keys (inside oneMember), keys (inside otherMember)]
        rfl
    rwa [List.map_id, List.map_id] at sorted
  unfold nameChildren
  simp only [claims (List.filter_subset_self _)]

/-- A state that forgets nothing visible shows the same tree. -/
theorem Forgets.view {whole part : CloudState} (forgets : Forgets whole part) :
    part.view = whole.view := by
  have nodes : ∀ id ∈ whole.liveNodes.map ViewNode.id, part.nodes[id]? = whole.nodes[id]? := by
    intro id member
    obtain ⟨_, isShown, rfl⟩ := List.mem_map.1 member
    obtain ⟨id, node, created, path, held, known, lineage, live, rfl⟩ := mem_liveNodes.1 isShown
    refine forgets.visible id path ?_ lineage live
    rw [exists_eq, held, Option.bind_some, known, Option.isSome_some]
  have run (folders : List (Option NodeId)) {shownNodes : List ViewNode}
      (ids : shownNodes.map ViewNode.id = whole.liveNodes.map ViewNode.id) :
      folders.foldl part.nameChildren shownNodes =
        folders.foldl whole.nameChildren shownNodes := by
    induction folders generalizing shownNodes with
    | nil => rfl
    | cons folder folders inductionHypothesis =>
        rw [List.foldl_cons, List.foldl_cons, nameChildren_congr (ids ▸ nodes) folder]
        exact inductionHypothesis ((ids_nameChildren whole shownNodes folder).trans ids)
  simp only [CloudState.view, forgets.liveNodes]
  exact run _ rfl

end CloudState

end Parvane.Cloud
