import Parvane.Cloud.Visible
import Std.Data.String.ToNat

/-!
# The names of siblings

Siblings with one name are told apart by numbers.  The number goes up until the name is not in
use, which happens after as many attempts as there are names; no two siblings outside the trash
are shown under one name, and of those with one name the oldest keeps it.
-/

namespace Parvane.Cloud

open Domain

/-! ## Numbers -/

theorem numberedName_injective (name : String) : Function.Injective (numberedName name) := by
  intro first second same
  have digits (before after : String)
      (same : before ++ toString first ++ after = before ++ toString second ++ after) :
      first = second := by
    have letters := congrArg String.toList same
    simp only [String.toList_append, List.append_cancel_right_eq, List.append_cancel_left_eq]
      at letters
    exact Nat.repr_inj.1 (String.toList_inj.1 letters)
  simp only [numberedName] at same
  split at same
  · simp only [String.append_assoc] at same
    exact digits (String.ofList _ ++ " (") _ (by simpa only [String.append_assoc] using same)
  · exact digits (name ++ " (") ")" same

/-- A free number is among as many numbers as there are names in use, and one more. -/
theorem exists_free (name : String) (used : List String) (start : Nat) :
    ∃ n, start ≤ n ∧ n ≤ start + used.length ∧ numberedName name n ∉ used := by
  by_contra none
  push Not at none
  have all : (List.range' start (used.length + 1)).map (numberedName name) ⊆ used := by
    intro candidate member
    obtain ⟨n, inRange, rfl⟩ := List.mem_map.1 member
    obtain ⟨low, high⟩ := List.mem_range'_1.1 inRange
    exact none n low (by omega)
  have distinct : ((List.range' start (used.length + 1)).map (numberedName name)).Nodup :=
    List.Nodup.map (numberedName_injective name) List.nodup_range'
  have few := (distinct.subperm all).length_le
  simp at few

/-- The search ends at the first free number. -/
theorem freeName_eq {name : String} {used : List String} {fuel start n : Nat}
    (low : start ≤ n) (high : n ≤ start + fuel) (free : numberedName name n ∉ used)
    (first : ∀ m, start ≤ m -> m < n -> numberedName name m ∈ used) :
    freeName name used fuel start = numberedName name n := by
  induction fuel generalizing start with
  | zero =>
      obtain rfl : start = n := by omega
      rfl
  | succ fuel inductionHypothesis =>
      rw [freeName]
      rcases low.eq_or_lt with rfl | less
      · simp [free]
      · have taken := first start le_rfl less
        simp only [List.contains_iff_mem, taken, if_true]
        exact inductionHypothesis less (by omega) fun m later => first m (by omega)

/-- The loop over numbers ends, at the first number whose name is not in use. -/
theorem numbering_ends (name : String) (used : List String) :
    ∃ n, 2 ≤ n ∧ numberedName name n ∉ used ∧
      (∀ m, 2 ≤ m -> m < n -> numberedName name m ∈ used) ∧
      freeName name used used.length 2 = numberedName name n := by
  obtain ⟨some, someLow, someHigh, someFree⟩ := exists_free name used 2
  have found : ∃ n, 2 ≤ n ∧ numberedName name n ∉ used := ⟨some, someLow, someFree⟩
  classical
  obtain ⟨low, free⟩ := Nat.find_spec found
  have first : ∀ m, 2 ≤ m -> m < Nat.find found -> numberedName name m ∈ used := by
    intro m atLeast before
    by_contra unused
    exact Nat.find_min found before ⟨atLeast, unused⟩
  have high : Nat.find found ≤ 2 + used.length :=
    (Nat.find_min' found ⟨someLow, someFree⟩).trans someHigh
  exact ⟨_, low, free, first, freeName_eq low high free first⟩

theorem freeName_not_mem (name : String) (used : List String) :
    freeName name used used.length 2 ∉ used := by
  obtain ⟨n, -, free, -, found⟩ := numbering_ends name used
  rw [found]
  exact free

/-! ## Siblings -/

/-- What the numbering does to the nodes at the given places, in the order of their claims. -/
structure Renamed
    (raw : List String) (indices : List Nat) (taken : List String)
    (nodes result : List ViewNode) : Prop where
  others : ∀ index ∉ indices, result[index]? = nodes[index]?
  free : ∀ index ∈ indices, ∀ found, result[index]? = some found -> found.name ∉ taken
  distinct : ∀ first ∈ indices, ∀ second ∈ indices, ∀ one other,
    result[first]? = some one -> result[second]? = some other -> one.name = other.name ->
      first = second
  keeps : ∀ before index after node, indices = before ++ index :: after ->
    nodes[index]? = some node -> node.name ∈ raw -> node.name ∉ taken ->
      (∀ earlier ∈ before, ∀ other, nodes[earlier]? = some other -> other.name ≠ node.name) ->
        result[index]? = some node

/-- One name is given, then the others are. -/
theorem Renamed.cons {raw taken : List String} {index : Nat} {indices : List Nat}
    {nodes nodes' result : List ViewNode} {node : ViewNode} {shown : String}
    (later : Renamed raw indices (shown :: taken) nodes' result)
    (fresh : index ∉ indices)
    (held : nodes[index]? = some node)
    (here : nodes'[index]? = some { node with name := shown })
    (elsewhere : ∀ other, other ≠ index -> nodes'[other]? = nodes[other]?)
    (unused : shown ∉ taken) (generated : shown = node.name ∨ shown ∉ raw)
    (kept : node.name ∈ raw -> node.name ∉ taken -> shown = node.name) :
    Renamed raw (index :: indices) taken nodes result := by
  have atIndex : result[index]? = some { node with name := shown } :=
    (later.others index fresh).trans here
  have apart {other : Nat} (member : other ∈ indices) : other ≠ index :=
    fun same => fresh (same ▸ member)
  refine ⟨fun other outside => ?_, fun other member found otherAt => ?_,
    fun first firstMember second secondMember one other oneAt otherAt same => ?_, ?_⟩
  · rw [List.mem_cons, not_or] at outside
    rw [later.others other outside.2, elsewhere other outside.1]
  · rcases List.mem_cons.1 member with rfl | inRest
    · cases atIndex.symm.trans otherAt
      exact unused
    · exact fun used => later.free other inRest found otherAt (List.mem_cons_of_mem _ used)
  · have notShown {place : Nat} (member : place ∈ indices) {found : ViewNode}
        (foundAt : result[place]? = some found) : found.name ≠ shown :=
      fun equal => later.free place member found foundAt (equal ▸ List.mem_cons_self)
    rcases List.mem_cons.1 firstMember with rfl | firstInRest
    · rcases List.mem_cons.1 secondMember with rfl | secondInRest
      · rfl
      · cases atIndex.symm.trans oneAt
        exact absurd same.symm (notShown secondInRest otherAt)
    · rcases List.mem_cons.1 secondMember with rfl | secondInRest
      · cases atIndex.symm.trans otherAt
        exact absurd same (notShown firstInRest oneAt)
      · exact later.distinct first firstInRest second secondInRest one other oneAt otherAt same
  · intro before place after own split ownHeld inRaw notTaken earlier
    cases before with
    | nil =>
        cases split
        cases held.symm.trans ownHeld
        rw [atIndex, kept inRaw notTaken]
    | cons first before =>
        cases split
        have inRest : place ∈ before ++ place :: after := by simp
        rw [← elsewhere place (apart inRest)] at ownHeld
        refine later.keeps before place after own rfl ownHeld inRaw ?_ ?_
        · rw [List.mem_cons, not_or]
          refine ⟨fun equal => ?_, notTaken⟩
          rcases generated with same | outside
          · exact earlier index List.mem_cons_self node held (same.symm.trans equal.symm)
          · exact outside (equal ▸ inRaw)
        · intro other member found foundHeld
          have inAll : other ∈ before ++ place :: after := List.mem_append_left _ member
          rw [elsewhere other (apart inAll)] at foundHeld
          exact earlier other (List.mem_cons_of_mem _ member) found foundHeld

theorem renameSiblings_renamed {raw : List String} {indices : List Nat}
    (nodup : indices.Nodup)
    {taken : List String} {nodes : List ViewNode}
    (valid : ∀ index ∈ indices, index < nodes.length) :
    Renamed raw indices taken nodes (renameSiblings raw indices taken nodes) := by
  induction indices generalizing taken nodes with
  | nil =>
      refine ⟨fun _ _ => rfl, by simp, by simp, fun before index after node split => ?_⟩
      cases before <;> cases split
  | cons index indices inductionHypothesis =>
      obtain ⟨fresh, nodup⟩ := List.nodup_cons.1 nodup
      obtain ⟨within, valid⟩ := List.forall_mem_cons.1 valid
      have held : nodes[index]? = some nodes[index] := List.getElem?_eq_getElem within
      rw [renameSiblings, held]
      by_cases clash : nodes[index].name ∈ taken
      · simp only [List.contains_iff_mem, clash, if_true]
        have unused := freeName_not_mem nodes[index].name (raw ++ taken)
        rw [List.length_append, List.mem_append, not_or] at unused
        refine Renamed.cons (inductionHypothesis nodup (by simpa using valid)) fresh held ?_ ?_
          unused.2 (.inr unused.1) fun _ notTaken => absurd clash notTaken
        · rw [List.getElem?_set_self within]
        · intro other different
          rw [List.getElem?_set_ne different.symm]
      · simp only [List.contains_iff_mem, clash, if_false]
        exact Renamed.cons (inductionHypothesis nodup valid) fresh held held (fun _ _ => rfl) clash
          (.inl rfl) fun _ _ => rfl

/-- Outside the trash, below the given parent. -/
def Sibling (parent : Option NodeId) (node : ViewNode) : Prop :=
  node.trashed = false ∧ node.parent = parent

namespace CloudState

/-- The places of the siblings in the order of their claims. -/
def claimed (state : CloudState) (nodes : List ViewNode) (parent : Option NodeId) :
    List (ViewNode × Nat) :=
  (nodes.zipIdx.filter fun (node, _) => !node.trashed && node.parent = parent).mergeSort
    fun first second => state.claimKey first.1 ≤ state.claimKey second.1

variable {state : CloudState} {nodes : List ViewNode} {parent : Option NodeId}

theorem mem_claimed {node : ViewNode} {index : Nat} :
    (node, index) ∈ state.claimed nodes parent ↔
      nodes[index]? = some node ∧ Sibling parent node := by
  rw [claimed, List.mem_mergeSort, List.mem_filter, List.mem_zipIdx_iff_getElem?]
  simp [Sibling]

theorem nodup_claimed (state : CloudState) (nodes : List ViewNode) (parent : Option NodeId) :
    ((state.claimed nodes parent).map Prod.snd).Nodup := by
  have permuted : (state.claimed nodes parent).Perm
      (nodes.zipIdx.filter fun (node, _) => !node.trashed && node.parent = parent) :=
    List.mergeSort_perm _ _
  refine (permuted.map Prod.snd).nodup_iff.2 ((List.filter_sublist.map Prod.snd).nodup ?_)
  rw [List.zipIdx_map_snd]
  exact List.nodup_range'

theorem mem_places {index : Nat} :
    index ∈ (state.claimed nodes parent).map Prod.snd ↔
      ∃ node, nodes[index]? = some node ∧ Sibling parent node := by
  simp only [List.mem_map, Prod.exists, exists_eq_right, mem_claimed]

theorem claimed_sorted (state : CloudState) (nodes : List ViewNode) (parent : Option NodeId) :
    (state.claimed nodes parent).Pairwise fun first second =>
      state.claimKey first.1 ≤ state.claimKey second.1 := by
  have sorted : ((nodes.zipIdx.filter fun (node, _) =>
        !node.trashed && node.parent = parent).mergeSort fun first second =>
          decide (state.claimKey first.1 ≤ state.claimKey second.1)).Pairwise
      fun first second =>
        decide (state.claimKey first.1 ≤ state.claimKey second.1) = true := by
    apply List.pairwise_mergeSort
    · intro first second third one two
      exact decide_eq_true ((of_decide_eq_true one).trans (of_decide_eq_true two))
    · intro first second
      simp [le_total]
  exact sorted.imp fun less => of_decide_eq_true less

theorem nameChildren_renamed (state : CloudState) (nodes : List ViewNode)
    (parent : Option NodeId) :
    ∃ raw, (∀ node ∈ nodes, Sibling parent node -> node.name ∈ raw) ∧
      Renamed raw ((state.claimed nodes parent).map Prod.snd) [] nodes
        (state.nameChildren nodes parent) := by
  refine ⟨_, ?_, renameSiblings_renamed (nodup_claimed state nodes parent) fun index member => ?_⟩
  · intro node member sibling
    obtain ⟨index, held⟩ := List.mem_iff_getElem?.1 member
    refine List.mem_map.2 ⟨(node, index), List.mem_filter.2 ⟨?_, ?_⟩, rfl⟩
    · exact List.mem_zipIdx_iff_getElem?.2 held
    · simpa [Sibling] using sibling
  · obtain ⟨node, held, -⟩ := mem_places.1 member
    exact (List.getElem?_eq_some_iff.1 held).1

/-- The numbering changes no place in the tree. -/
theorem exists_of_nameChildren {index : Nat} {node : ViewNode} {other : Option NodeId}
    (held : (state.nameChildren nodes other)[index]? = some node) :
    ∃ old, nodes[index]? = some old ∧ ∀ parent, Sibling parent old ↔ Sibling parent node := by
  have looks : (state.nameChildren nodes other).map (fun node => (node.trashed, node.parent)) =
      nodes.map fun node => (node.trashed, node.parent) :=
    map_renameSiblings (fun _ _ => rfl) _ _ _ _
  have here := congrArg (fun looks => looks[index]?) looks
  simp only [List.getElem?_map, held, Option.map_some] at here
  obtain ⟨old, oldHeld, same⟩ := Option.map_eq_some_iff.1 here.symm
  obtain ⟨trashed, under⟩ := Prod.mk.inj same
  exact ⟨old, oldHeld, fun parent => by rw [Sibling, Sibling, trashed, under]⟩

/-- What the numbering of the siblings below one parent gives. -/
structure Told (state : CloudState) (parent : Option NodeId) (nodes result : List ViewNode) :
    Prop where
  distinct : ∀ (first second : Nat) one other, result[first]? = some one ->
    result[second]? = some other -> Sibling parent one -> Sibling parent other ->
      one.name = other.name -> first = second
  keeps : ∀ (index : Nat) node, nodes[index]? = some node -> Sibling parent node ->
    (∀ other ∈ nodes, Sibling parent other -> other.name = node.name ->
      state.claimKey node ≤ state.claimKey other) -> result[index]? = some node

theorem told_nameChildren (distinctIds : (nodes.map ViewNode.id).Nodup) :
    state.Told parent nodes (state.nameChildren nodes parent) := by
  obtain ⟨raw, inRaw, renamed⟩ := nameChildren_renamed state nodes parent
  have placed {index : Nat} {node : ViewNode}
      (held : (state.nameChildren nodes parent)[index]? = some node)
      (sibling : Sibling parent node) : index ∈ (state.claimed nodes parent).map Prod.snd := by
    obtain ⟨old, oldHeld, same⟩ := exists_of_nameChildren held
    exact mem_places.2 ⟨old, oldHeld, (same parent).2 sibling⟩
  constructor
  · intro first second one other oneAt otherAt oneSibling otherSibling same
    exact renamed.distinct first (placed oneAt oneSibling) second (placed otherAt otherSibling)
      one other oneAt otherAt same
  · intro index node held sibling oldest
    have member : (node, index) ∈ state.claimed nodes parent := mem_claimed.2 ⟨held, sibling⟩
    obtain ⟨before, after, split⟩ := List.append_of_mem member
    have places : (state.claimed nodes parent).map Prod.snd =
        before.map Prod.snd ++ index :: after.map Prod.snd := by
      rw [split]
      simp
    refine renamed.keeps _ index _ node places held
      (inRaw node (List.mem_of_getElem? held) sibling) List.not_mem_nil ?_
    intro earlier earlierMember other otherHeld same
    obtain ⟨⟨found, place⟩, inBefore, here⟩ := List.mem_map.1 earlierMember
    cases here
    have inClaims := List.mem_append_left ((node, index) :: after) inBefore
    rw [← split] at inClaims
    obtain ⟨foundHeld, foundSibling⟩ := mem_claimed.1 inClaims
    cases foundHeld.symm.trans otherHeld
    have claims := claimed_sorted state nodes parent
    rw [split] at claims
    have older := (List.pairwise_append.1 claims).2.2 _ inBefore _ List.mem_cons_self
    have younger := oldest _ (List.mem_of_getElem? foundHeld) foundSibling same
    have sameId := (Prod.mk.inj (toLex.injective (older.antisymm younger))).2
    have samePlace : place = index := by
      refine (List.getElem?_inj ?_ distinctIds).1 ?_
      · rw [List.length_map]
        exact (List.getElem?_eq_some_iff.1 foundHeld).1
      · rw [List.getElem?_map, List.getElem?_map, foundHeld, held, Option.map_some,
          Option.map_some, sameId]
    have apart := places ▸ nodup_claimed state nodes parent
    exact (List.nodup_append.1 apart).2.2 _ earlierMember _ List.mem_cons_self samePlace

/-- The siblings below a parent are the same in both lists. -/
def SameSiblings (parent : Option NodeId) (nodes result : List ViewNode) : Prop :=
  ∀ (index : Nat) node, Sibling parent node ->
    (result[index]? = some node ↔ nodes[index]? = some node)

theorem sameSiblings_nameChildren {other : Option NodeId} (different : other ≠ parent) :
    SameSiblings parent nodes (state.nameChildren nodes other) := by
  obtain ⟨raw, -, renamed⟩ := nameChildren_renamed state nodes other
  intro index node sibling
  have elsewhere {old : ViewNode} (held : nodes[index]? = some old) (below : Sibling parent old) :
      index ∉ (state.claimed nodes other).map Prod.snd := by
    intro member
    obtain ⟨found, foundHeld, foundSibling⟩ := mem_places.1 member
    cases foundHeld.symm.trans held
    exact different (foundSibling.2.symm.trans below.2)
  constructor
  · intro held
    obtain ⟨old, oldHeld, same⟩ := exists_of_nameChildren held
    rw [← renamed.others index (elsewhere oldHeld ((same parent).2 sibling)), held]
  · intro held
    rw [renamed.others index (elsewhere held sibling), held]

theorem sameSiblings_foldl {folders : List (Option NodeId)}
    (outside : parent ∉ folders) :
    SameSiblings parent nodes (folders.foldl state.nameChildren nodes) := by
  induction folders generalizing nodes with
  | nil => exact fun _ _ _ => Iff.rfl
  | cons folder folders inductionHypothesis =>
      obtain ⟨different, outside⟩ := not_or.1 (mt List.mem_cons.2 outside)
      intro index node sibling
      rw [List.foldl_cons, inductionHypothesis outside index node sibling]
      exact sameSiblings_nameChildren (Ne.symm different) index node sibling

theorem ids_foldl (folders : List (Option NodeId)) :
    (folders.foldl state.nameChildren nodes).map ViewNode.id = nodes.map ViewNode.id := by
  induction folders generalizing nodes with
  | nil => rfl
  | cons folder folders inductionHypothesis =>
      rw [List.foldl_cons, inductionHypothesis, ids_nameChildren]

/-- The siblings below one parent are numbered once. -/
theorem told_foldl {folders : List (Option NodeId)}
    (nodup : folders.Nodup) (inside : parent ∈ folders)
    (distinctIds : (nodes.map ViewNode.id).Nodup) :
    state.Told parent nodes (folders.foldl state.nameChildren nodes) := by
  obtain ⟨before, after, rfl⟩ := List.append_of_mem inside
  obtain ⟨-, afterNodup, apart⟩ := List.nodup_append.1 nodup
  have before_same : SameSiblings parent nodes (before.foldl state.nameChildren nodes) :=
    sameSiblings_foldl fun member => apart parent member parent List.mem_cons_self rfl
  rw [List.foldl_append, List.foldl_cons]
  have told : state.Told parent (before.foldl state.nameChildren nodes)
      (state.nameChildren (before.foldl state.nameChildren nodes) parent) :=
    told_nameChildren (by rwa [ids_foldl])
  have after_same : SameSiblings parent
      (state.nameChildren (before.foldl state.nameChildren nodes) parent)
      (after.foldl state.nameChildren
        (state.nameChildren (before.foldl state.nameChildren nodes) parent)) :=
    sameSiblings_foldl (List.nodup_cons.1 afterNodup).1
  constructor
  · intro first second one other oneAt otherAt oneSibling otherSibling same
    exact told.distinct first second one other ((after_same first one oneSibling).1 oneAt)
      ((after_same second other otherSibling).1 otherAt) oneSibling otherSibling same
  · intro index node held sibling oldest
    rw [after_same index node sibling]
    refine told.keeps index node ((before_same index node sibling).2 held) sibling ?_
    intro other member otherSibling same
    obtain ⟨place, otherHeld⟩ := List.mem_iff_getElem?.1 member
    exact oldest other (List.mem_of_getElem? ((before_same place other otherSibling).1 otherHeld))
      otherSibling same

/-! ## The visible tree -/

/-- The name that the place of a node gives it. -/
def ownName (state : CloudState) (id : NodeId) : String :=
  (state.nodes[id]?.bind Node.place).elim "" Place.name

theorem name_of_mem_liveNodes {node : ViewNode} (member : node ∈ state.liveNodes) :
    node.name = state.ownName node.id := by
  obtain ⟨id, held, created, path, stored, -, -, -, rfl⟩ := mem_liveNodes.1 member
  simp only [ownName, shown, stored, Option.bind_some]

theorem nodup_ids_liveNodes (state : CloudState) : (state.liveNodes.map ViewNode.id).Nodup := by
  refine List.pairwise_map.2 (state.liveNodes_sorted.imp fun before same => ?_)
  cases before.symm.trans (compare_eq_iff_eq.2 same)

theorem told_view {node : ViewNode}
    (member : node ∈ state.view)
    (outside : node.trashed = false) : state.Told node.parent state.liveNodes state.view := by
  have looks := map_view (fun node => (node.trashed, node.parent)) (fun _ _ => rfl) state
  have here : (node.trashed, node.parent) ∈
      state.liveNodes.map fun node => (node.trashed, node.parent) :=
    looks ▸ List.mem_map_of_mem member
  obtain ⟨live, liveMember, same⟩ := List.mem_map.1 here
  obtain ⟨trashed, parent⟩ := Prod.mk.inj same
  refine told_foldl (List.nodup_dedup _) (List.mem_dedup.2 (List.mem_map.2 ⟨live, ?_, parent⟩))
    state.nodup_ids_liveNodes
  exact List.mem_filter.2 ⟨liveMember, by rw [trashed, outside]; rfl⟩

/-- A node is shown where it stands among the visible nodes, possibly under another name. -/
theorem exists_live_of_view {index : Nat} {node : ViewNode}
    (held : state.view[index]? = some node) :
    ∃ live, state.liveNodes[index]? = some live ∧ node = { live with name := node.name } := by
  have looks := map_view (fun node => { node with name := "" }) (fun _ _ => rfl) state
  have here := congrArg (fun looks => looks[index]?) looks
  simp only [List.getElem?_map, held, Option.map_some] at here
  obtain ⟨live, liveHeld, same⟩ := Option.map_eq_some_iff.1 here.symm
  exact ⟨live, liveHeld, congrArg (fun shown => { shown with name := node.name }) same.symm⟩

theorem exists_view_of_live {live : ViewNode} (member : live ∈ state.liveNodes) :
    ∃ node ∈ state.view, node = { live with name := node.name } := by
  have looks := map_view (fun node => { node with name := "" }) (fun _ _ => rfl) state
  obtain ⟨node, shown, same⟩ := List.mem_map.1
    (looks ▸ List.mem_map_of_mem member : { live with name := "" } ∈ state.view.map _)
  exact ⟨node, shown, congrArg (fun shown => { shown with name := node.name }) same⟩

/-- The oldest of the siblings with one name. -/
def IsOldest (state : CloudState) (node : ViewNode) : Prop :=
  ∀ other ∈ state.view, Sibling node.parent other ->
    state.ownName other.id = state.ownName node.id -> state.claimKey node ≤ state.claimKey other

/-- Outside the trash no two siblings are shown under one name; a name that only one of them has
is kept, and of several with one name the oldest keeps it; and the numbers of the others are
found. -/
theorem shown_names (state : CloudState) :
    (∀ first ∈ state.view, ∀ second ∈ state.view, first.trashed = false ->
      second.trashed = false -> first.parent = second.parent -> first.name = second.name ->
        first = second) ∧
    (∀ node ∈ state.view, node.trashed = false ->
      (∀ other ∈ state.view, Sibling node.parent other -> other.id ≠ node.id ->
        state.ownName other.id ≠ state.ownName node.id) -> node.name = state.ownName node.id) ∧
    (∀ node ∈ state.view, node.trashed = false -> state.IsOldest node ->
      node.name = state.ownName node.id) ∧
    ∀ name used, ∃ n, 2 ≤ n ∧ numberedName name n ∉ used ∧
      (∀ m, 2 ≤ m -> m < n -> numberedName name m ∈ used) ∧
      freeName name used used.length 2 = numberedName name n := by
  have oldestKeeps (node : ViewNode) (member : node ∈ state.view) (outside : node.trashed = false)
      (oldest : state.IsOldest node) : node.name = state.ownName node.id := by
    obtain ⟨index, held⟩ := List.mem_iff_getElem?.1 member
    obtain ⟨live, liveHeld, same⟩ := exists_live_of_view held
    have liveMember := List.mem_of_getElem? liveHeld
    have kept := (told_view member outside).keeps index live liveHeld
      (by rw [same] at outside ⊢; exact ⟨outside, rfl⟩) ?_
    · cases kept.symm.trans held
      exact name_of_mem_liveNodes liveMember
    · intro other otherMember otherSibling sameName
      obtain ⟨shownOther, otherShown, otherSame⟩ := exists_view_of_live otherMember
      rw [name_of_mem_liveNodes otherMember, name_of_mem_liveNodes liveMember] at sameName
      have claims := oldest shownOther otherShown
        (by rw [otherSame]; exact otherSibling) (by rw [otherSame, same]; exact sameName)
      rw [otherSame, same] at claims
      exact claims
  refine ⟨?_, fun node member outside alone => ?_, oldestKeeps, numbering_ends⟩
  · intro first firstMember second secondMember firstOutside secondOutside parents names
    obtain ⟨one, oneHeld⟩ := List.mem_iff_getElem?.1 firstMember
    obtain ⟨other, otherHeld⟩ := List.mem_iff_getElem?.1 secondMember
    have places := (told_view firstMember firstOutside).distinct one other first second oneHeld
      otherHeld ⟨firstOutside, rfl⟩ ⟨secondOutside, parents.symm⟩ names
    subst places
    exact Option.some.inj (oneHeld.symm.trans otherHeld)
  · refine oldestKeeps node member outside fun other otherMember sibling names => ?_
    by_cases ids : other.id = node.id
    · rw [claimKey, claimKey, ids]
    · exact absurd names (alone other otherMember sibling ids)

end CloudState

end Parvane.Cloud
