import Parvane.Cloud.Purged

/-!
# The tree behind the visible one

Places may name parents that are unknown or no folders, and moves made on different devices may
run in a cycle.  The walks make a forest of them: every node keeps the parent that its place
names unless there is a reason against it, and of every cycle one node goes to the root.  The
fates that are found walk by walk are the ones that a look at all ancestors gives.
-/

namespace Parvane.Cloud

open Relation Ancestry

namespace CloudState

variable {state : CloudState}

/-! ## Parents -/

/-- The parent that the place of a node names, whatever it is. -/
def placedParent (state : CloudState) (id : NodeId) : Option NodeId :=
  (state.nodes[id]?.bind Node.place).bind Place.parent

/-- Of the cycle of folders that the node is on it was moved last. -/
def MovedLast (state : CloudState) (id : NodeId) : Prop :=
  IsTop state.namedParent state.moveKey id

/-- The place does not decide: it names the node itself or something that is no folder, or the
node breaks a cycle. -/
def Detached (state : CloudState) (id : NodeId) : Prop :=
  (∃ parent, state.placedParent id = some parent ∧ (parent = id ∨ state.isFolder parent = false)) ∨
    state.MovedLast id

theorem namedParent_eq {id : NodeId} (created : state.exists id = true) :
    state.namedParent id =
      (state.placedParent id).filter fun parent => parent ≠ id && state.isFolder parent := by
  rw [namedParent, if_pos created, placedParent]
  cases state.nodes[id]? <;> rfl

theorem getElem?_parents_of_exists {id : NodeId} (created : state.exists id = true) :
    state.parents[id]? = some (state.parent id) := by
  rw [getElem?_parents, if_pos created]

theorem parents_of_detached {id : NodeId}
    (created : state.exists id = true)
    (detached : state.Detached id) : state.parents[id]? = some none := by
  rw [getElem?_parents_of_exists created, Option.some.injEq, parent]
  rcases detached with ⟨other, placed, unfit⟩ | last
  · have root : state.namedParent id = none := by
      rw [namedParent_eq created, placed, Option.filter_some]
      rcases unfit with rfl | noFolder
      · simp
      · simp [noFolder]
    rw [resolve_of_not_isTop fun top => top.1.ne_none root, root]
  · exact resolve_of_isTop last

theorem parents_of_not_detached {id : NodeId}
    (created : state.exists id = true)
    (attached : ¬ state.Detached id) : state.parents[id]? = some (state.placedParent id) := by
  rw [getElem?_parents_of_exists created, Option.some.injEq, parent,
    resolve_of_not_isTop fun top => attached (.inr top), namedParent_eq created]
  cases placed : state.placedParent id with
  | none => rfl
  | some other =>
      have fit : other ≠ id ∧ state.isFolder other = true := by
        refine ⟨fun same => ?_, ?_⟩
        · exact attached (.inl ⟨other, placed, .inl same⟩)
        · rw [← Bool.not_eq_false]
          exact fun noFolder => attached (.inl ⟨other, placed, .inr noFolder⟩)
      simp [fit]

theorem finite_namedParents (state : CloudState) : {id | state.namedParent id ≠ none}.Finite := by
  refine state.parents.keys.finite_toSet.subset fun id above => ?_
  obtain ⟨parent, named⟩ := Option.ne_none_iff_exists'.1 above
  exact (mem_keys_parents state id).2 (namedParent_exists named).1

/-- On a cycle only the breaking node is at the root. -/
theorem movedLast_iff {id : NodeId} (cycle : OnCycle state.namedParent id) :
    state.MovedLast id ↔ state.parents[id]? = some none := by
  obtain ⟨parent, named⟩ := Option.ne_none_iff_exists'.1 cycle.ne_none
  have created := (namedParent_exists named).1
  constructor
  · exact fun last => parents_of_detached created (.inr last)
  · intro root
    by_contra notLast
    rw [getElem?_parents_of_exists created, CloudState.parent,
      resolve_of_not_isTop notLast, named] at root
    cases root

/-- The parents make a forest.  From every created node the way upwards ends at the root; a
node is at the root if its place does not decide and has the parent that its place names
otherwise; and exactly one node of every cycle of places breaks it. -/
theorem parents_forest (state : CloudState) :
    (∀ id, state.exists id = true ->
      ∃ steps, (fun one : Option NodeId => one.bind state.parentOf)^[steps] (some id) = none) ∧
    (∀ id, state.exists id = true ->
      (state.Detached id -> state.parents[id]? = some none) ∧
        (¬ state.Detached id -> state.parents[id]? = some (state.placedParent id))) ∧
    ∀ id, OnCycle state.namedParent id ->
      ∃! top, TransGen (Step state.namedParent) id top ∧ state.parents[top]? = some none := by
  refine ⟨fun id _ => ?_, fun id created => ⟨?_, ?_⟩, fun id cycle => ?_⟩
  · obtain ⟨path, lineage⟩ := exists_lineage state (some id)
    rw [← parentOf_eq] at lineage
    exact ⟨path.length, lineage.iterate⟩
  · exact parents_of_detached created
  · exact parents_of_not_detached created
  · obtain ⟨top, ⟨above, last⟩, only⟩ :=
      existsUnique_isTop state.finite_namedParents state.moveKey_injective cycle
    have onCycle {other : NodeId} (above : TransGen (Step state.namedParent) id other) :
        OnCycle state.namedParent other := cycle.above above.to_reflTransGen
    refine ⟨top, ⟨above, (movedLast_iff (onCycle above)).1 last⟩, ?_⟩
    rintro other ⟨otherAbove, root⟩
    exact only other ⟨otherAbove, (movedLast_iff (onCycle otherAbove)).2 root⟩

/-! ## Fates -/

/-- The node itself is in the trash. -/
def trashedItself (state : CloudState) (id : NodeId) : Bool :=
  (state.nodes[id]?.bind Node.trash).any Trash.trashed

/-- A node and everything above it. -/
def Within (state : CloudState) (id one : NodeId) : Prop :=
  ReflTransGen (Step state.parentOf) id one

/-- Everything above a node. -/
def Inside (state : CloudState) (id one : NodeId) : Prop :=
  TransGen (Step state.parentOf) id one

/-- The fate of a node, told from all that is above it. -/
structure PlainFate (state : CloudState) (id : NodeId) (fate : Fate) : Prop where
  purged : fate.purged = true ↔ ∃ one, state.Within id one ∧ state.purgedItself one = true
  trashed : fate.trashed = true ↔ ∃ one, state.Within id one ∧ state.trashedItself one = true
  trashTop : fate.trashTop = true ↔
    state.trashedItself id = true ∧ ∀ one, state.Inside id one -> state.trashedItself one = false
  trashedAt : fate.trashed = true -> ∃ top trash, state.Within id top ∧
    state.nodes[top]?.bind Node.trash = some trash ∧ trash.trashed = true ∧
    (∀ one, state.Inside top one -> state.trashedItself one = false) ∧
    fate.trashedAtMs = trash.atMs
  untrashedAt : fate.trashed = false -> fate.trashedAtMs = 0

theorem trash_getD (state : CloudState) (id : NodeId) :
    (state.nodes[id]?.getD .empty).trash = state.nodes[id]?.bind Node.trash := by
  cases state.nodes[id]? <;> rfl

theorem isSome_ownTrash (state : CloudState) (id : NodeId) :
    ((state.nodes[id]?.getD .empty).trash.filter fun trash => trash.trashed).isSome =
      state.trashedItself id := by
  rw [trash_getD, trashedItself]
  cases state.nodes[id]?.bind Node.trash with
  | none => rfl
  | some trash => cases trashed : trash.trashed <;> simp [trashed]

/-- A node is in the trash when one on its way to the root is. -/
theorem trashed_fateAlong (state : CloudState) (path : List NodeId) :
    (state.fateAlong path).trashed = path.any state.trashedItself := by
  induction path with
  | nil => rfl
  | cons id path inductionHypothesis =>
      rw [List.any_cons, ← inductionHypothesis, ← isSome_ownTrash, Bool.or_comm]
      rfl

theorem trashTop_fateAlong (state : CloudState) (id : NodeId) (path : List NodeId) :
    (state.fateAlong (id :: path)).trashTop =
      (state.trashedItself id && !path.any state.trashedItself) := by
  rw [← isSome_ownTrash, ← trashed_fateAlong]
  rfl

theorem trashedAtMs_cons (state : CloudState) (id : NodeId) (path : List NodeId) :
    (state.fateAlong (id :: path)).trashedAtMs =
      if path.any state.trashedItself then (state.fateAlong path).trashedAtMs
      else ((state.nodes[id]?.bind Node.trash).filter fun trash => trash.trashed).elim 0
        Trash.atMs := by
  rw [← trashed_fateAlong, ← trash_getD]
  rfl

/-- The time in the trash is that of the topmost node on the way that is in it. -/
theorem trashedAtMs_fateAlong {path : List NodeId}
    (inTrash : path.any state.trashedItself = true) :
    ∃ before top above trash, path = before ++ top :: above ∧
      state.nodes[top]?.bind Node.trash = some trash ∧ trash.trashed = true ∧
      above.any state.trashedItself = false ∧
      (state.fateAlong path).trashedAtMs = trash.atMs := by
  induction path with
  | nil => cases inTrash
  | cons id path inductionHypothesis =>
      rw [trashedAtMs_cons]
      by_cases higher : path.any state.trashedItself = true
      · obtain ⟨before, top, above, trash, split, held, trashed, none, atMs⟩ :=
          inductionHypothesis higher
        refine ⟨id :: before, top, above, trash, by rw [split]; rfl, held, trashed, none, ?_⟩
        rw [if_pos higher, atMs]
      · rw [List.any_cons, Bool.or_eq_true] at inTrash
        have own := inTrash.resolve_right higher
        rw [trashedItself, Option.any_eq_true] at own
        obtain ⟨trash, held, trashed⟩ := own
        refine ⟨[], id, path, trash, rfl, held, trashed, Bool.eq_false_iff.2 higher, ?_⟩
        rw [if_neg higher, held, Option.filter_some, if_pos trashed]
        rfl

theorem trashedAtMs_of_not_trashed {path : List NodeId}
    (outside : path.any state.trashedItself = false) : (state.fateAlong path).trashedAtMs = 0 := by
  cases path with
  | nil => rfl
  | cons id path =>
      rw [List.any_cons, Bool.or_eq_false_iff] at outside
      rw [trashedAtMs_cons, if_neg (Bool.eq_false_iff.1 outside.2), ← trash_getD]
      have none := isSome_ownTrash state id
      rw [outside.1, Option.isSome_eq_false_iff, Option.isNone_iff_eq_none] at none
      rw [none]
      rfl

/-- The fate of a way is the plain one of its first node. -/
theorem plainFate_fateAlong {id : NodeId} {path : List NodeId}
    (lineage : Lineage state.parentOf (some id) path) :
    state.PlainFate id (state.fateAlong path) := by
  have within {one : NodeId} : one ∈ path ↔ state.Within id one :=
    ⟨fun member => lineage.above rfl member, fun above => Lineage.mem_of_above above lineage⟩
  refine ⟨?_, ?_, ?_, fun inTrash => ?_, fun outside => ?_⟩
  · rw [purged_fateAlong, List.any_eq_true]
    simp only [within]
    rfl
  · rw [trashed_fateAlong, List.any_eq_true]
    simp only [within]
  · cases lineage with
    | @step _ rest above =>
        rw [trashTop_fateAlong, Bool.and_eq_true, Bool.not_eq_true', List.any_eq_false]
        simp only [(Lineage.step above).mem_tail_iff, Bool.not_eq_true]
        rfl
  · rw [trashed_fateAlong] at inTrash
    obtain ⟨before, top, above, trash, rfl, held, trashed, none, atMs⟩ :=
      trashedAtMs_fateAlong inTrash
    refine ⟨top, trash, within.1 (by simp), held, trashed, fun one higher => ?_, atMs⟩
    rw [List.any_eq_false] at none
    exact Bool.not_eq_true _ ▸ none one (lineage.of_append.mem_tail_iff.2 higher)
  · rw [trashed_fateAlong] at outside
    exact trashedAtMs_of_not_trashed outside

/-- The fates that are found are the plain ones, whatever the order of the walks, and there is
one for every created node. -/
theorem fates_plain (state : CloudState) :
    (∀ order : List NodeId, ∀ id ∈ order,
      ∃ fate, (state.fatesInOrder state.parents order)[id]? = some fate ∧
        state.PlainFate id fate) ∧
    state.fates state.parents = state.fatesInOrder state.parents state.parents.keys ∧
    ∀ id, state.exists id = true ->
      ∃ fate, (state.fates state.parents)[id]? = some fate ∧ state.PlainFate id fate := by
  have found (order : List NodeId) (id : NodeId) (member : id ∈ order) :
      ∃ fate, (state.fatesInOrder state.parents order)[id]? = some fate ∧
        state.PlainFate id fate := by
    obtain ⟨fated, reached⟩ := fated_fatesInOrder state order
    obtain ⟨fate, here⟩ := Option.isSome_iff_exists.1 (reached id member)
    obtain ⟨path, lineage⟩ := exists_lineage state (some id)
    refine ⟨fate, here, ?_⟩
    rw [fated id fate here path lineage]
    exact plainFate_fateAlong (parentOf_eq state ▸ lineage)
  refine ⟨found, fates_eq_fatesInOrder state state.parents, fun id created => ?_⟩
  exact found state.parents.keys id ((mem_keys_parents state id).2 created)

end CloudState

end Parvane.Cloud
