import Parvane.Cloud.View
import Parvane.Foundation.Ancestry
import Mathlib.Data.List.TakeWhile

/-!
# What the walks along parents compute

The parents of a cloud container are the named ones with every cycle broken at the node that was
moved last.  The fate of a node, and whether it is left out of snapshots, depend on the way from
it to the root.
-/

namespace Parvane.Cloud

open Domain Ancestry

namespace CloudState

variable (state : CloudState)

/-- The parent of a node as its place names it, without detached and own parents. -/
def namedParent (id : NodeId) : Option NodeId :=
  if state.exists id then
    (state.nodes[id]?.bind fun node => node.place.bind Place.parent).filter fun parent =>
      parent ≠ id && state.isFolder parent
  else none

/-- The parent after cycles were broken. -/
noncomputable def parent : NodeId -> Option NodeId :=
  resolve state.namedParent state.moveKey

theorem getElem?_namedParents (id : NodeId) :
    state.namedParents[id]? = if state.exists id then some (state.namedParent id) else none := by
  rw [namedParents, Std.ExtTreeMap.getElem?_filterMap']
  cases held : state.nodes[id]? with
  | none => simp [CloudState.exists, held]
  | some node =>
      cases created : node.created.isSome <;> simp [CloudState.exists, namedParent, held, created]

theorem exists_of_isFolder {state : CloudState} {id : NodeId} (folder : state.isFolder id = true) :
    state.exists id = true := by
  rw [isFolder, Option.any_eq_true] at folder
  obtain ⟨node, held, folder⟩ := folder
  rw [Option.any_eq_true] at folder
  obtain ⟨created, known, -⟩ := folder
  simp [CloudState.exists, held, known]

theorem namedParent_exists {state : CloudState} {id parent : NodeId}
    (named : state.namedParent id = some parent) :
    state.exists id = true ∧ state.exists parent = true := by
  rw [namedParent] at named
  split at named
  · next known =>
      obtain ⟨-, valid⟩ := Option.filter_eq_some_iff.1 named
      simp only [Bool.and_eq_true] at valid
      exact ⟨known, exists_of_isFolder valid.2⟩
  · cases named

theorem moveKey_injective : Function.Injective state.moveKey := by
  intro first second same
  simp only [moveKey, EmbeddingLike.apply_eq_iff_eq] at same
  exact (Prod.mk.inj same).2

/-! ## Breaking cycles -/

/-- What is known between two walks: the parents of the settled nodes are resolved. -/
structure Settled (found : Parents × Std.ExtTreeMap NodeId Color) : Prop where
  color : ∀ id : NodeId, found.2[id]? ≠ some Color.onPath
  closed : ∀ id parent : NodeId, found.2[id]? = some .settled -> state.namedParent id = some parent ->
    found.2[parent]? = some .settled
  settled : ∀ id : NodeId, found.2[id]? = some .settled -> found.1[id]? =
    if state.exists id then some (state.parent id) else none
  others : ∀ id : NodeId, found.2[id]? = none -> found.1[id]? =
    if state.exists id then some (state.namedParent id) else none

/-- What a walk leaves. -/
structure Walked (found : Parents × Std.ExtTreeMap NodeId Color)
    (after : List NodeId × Parents × Std.ExtTreeMap NodeId Color) : Prop where
  fresh : ∀ id ∈ after.1, found.2[id]? = none ∧ state.exists id = true
  closed : ∀ id ∈ after.1, ∀ parent, state.namedParent id = some parent ->
    parent ∈ after.1 ∨ found.2[parent]? = some .settled
  walked : ∀ id ∈ after.1, after.2.1[id]? = some (state.parent id)
  others : ∀ id ∉ after.1, after.2.1[id]? = found.1[id]?
  color : ∀ id, after.2.2[id]? = if id ∈ after.1 then some .onPath else found.2[id]?

variable {state} {found : Parents × Std.ExtTreeMap NodeId Color}

/-- The way that is being walked. -/
structure OnWay (state : CloudState) (found : Parents × Std.ExtTreeMap NodeId Color)
    (next : Option NodeId) (path : List NodeId) (color : Std.ExtTreeMap NodeId Color) : Prop where
  chain : path.IsChain (Step state.namedParent)
  ends : ∀ last ∈ path.getLast?, state.namedParent last = next
  nodup : path.Nodup
  fresh : ∀ id ∈ path, found.2[id]? = none ∧ state.exists id = true
  next : ∀ id ∈ next, state.exists id = true
  color : ∀ id, color[id]? = if id ∈ path then some .onPath else found.2[id]?

variable {path : List NodeId}

theorem OnWay.onward {color : Std.ExtTreeMap NodeId Color} {id : NodeId}
    (way : OnWay state found (some id) path color)
    (unknown : color[id]? = none) :
    OnWay state found (state.namedParent id) (path ++ [id]) (color.insert id .onPath) := by
  have outside : id ∉ path := by
    intro inside
    rw [way.color, if_pos inside] at unknown
    cases unknown
  rw [way.color, if_neg outside] at unknown
  refine ⟨?_, ?_, ?_, ?_, ?_, ?_⟩
  · refine List.isChain_append.2 ⟨way.chain, .singleton _, fun last lastEq first firstEq => ?_⟩
    cases firstEq
    exact way.ends last lastEq
  · intro last lastEq
    rw [List.getLast?_concat] at lastEq
    cases lastEq
    rfl
  · exact List.nodup_append.2 ⟨way.nodup, List.nodup_singleton _,
      fun one inside other equal => List.mem_singleton.1 equal ▸ fun same => outside (same ▸ inside)⟩
  · intro one member
    rcases List.mem_append.1 member with inside | last
    · exact way.fresh one inside
    · cases List.mem_singleton.1 last
      exact ⟨unknown, way.next id rfl⟩
  · exact fun parent named => (namedParent_exists named).2
  · intro one
    rw [Std.ExtTreeMap.getElem?_insert, way.color]
    by_cases same : id = one
    · simp [same]
    · have other : ¬ one = id := fun equal => same equal.symm
      simp [same, other]

/-- A walk ends at the root, or at a settled node. -/
theorem OnWay.stop {next : Option NodeId} {color : Std.ExtTreeMap NodeId Color}
    (settled : Settled state found) (way : OnWay state found next path color)
    (arrives : ∀ id ∈ next, found.2[id]? = some .settled) :
    Walked state found (path, found.1, color) := by
  refine ⟨way.fresh, fun id member parent named => ?_, fun id member => ?_, fun _ _ => rfl,
    way.color⟩
  · exact (mem_or_goal_of_step way.chain way.ends member named).imp_right (arrives parent)
  · obtain ⟨unsettled, known⟩ := way.fresh id member
    have straight : ¬ OnCycle state.namedParent id := by
      cases next with
      | none => exact not_onCycle_of_root way.chain way.ends member
      | some goal =>
          exact not_onCycle_of_closed { id | found.2[id]? = some Color.settled } way.chain
            way.ends (fun one closed parent step => settled.closed one parent closed step)
            (arrives goal rfl) member fun arrived => nomatch unsettled.symm.trans arrived
    rw [settled.others id unsettled, if_pos known, parent, resolve_of_not_onCycle straight]

/-- A walk that comes back to itself closes a cycle. -/
theorem OnWay.close {id top : NodeId} {color : Std.ExtTreeMap NodeId Color}
    (settled : Settled state found)
    (way : OnWay state found (some id) path color)
    (again : id ∈ path)
    (greatest : (path.dropWhile (· ≠ id)).argmax state.moveKey = some top) :
    Walked state found (path, found.1.insert top none, color) := by
  obtain ⟨before, rest, rfl⟩ := List.append_of_mem again
  have first : ∀ one ∈ before, decide (one ≠ id) = true := fun one member => decide_eq_true
    ((List.nodup_append.1 way.nodup).2.2 one member id List.mem_cons_self)
  have round : (before ++ id :: rest).dropWhile (· ≠ id) = id :: rest := by
    rw [List.dropWhile_append_of_pos first]
    simp
  rw [round] at greatest
  obtain ⟨atTop, others⟩ := resolve_of_closing state.moveKey_injective way.chain way.ends way.nodup
    (List.argmax_mem greatest) fun one member => List.le_of_mem_argmax member greatest
  refine ⟨way.fresh, fun one member parent named => ?_, fun one member => ?_, fun one missing => ?_,
    way.color⟩
  · rcases mem_or_goal_of_step way.chain way.ends member named with inside | back
    · exact .inl inside
    · cases back
      exact .inl again
  · obtain ⟨unsettled, known⟩ := way.fresh one member
    rw [Std.ExtTreeMap.getElem?_insert]
    split
    · next same =>
        cases compare_eq_iff_eq.1 same
        rw [parent, atTop]
    · next other =>
        have different : one ≠ top := fun same => other (compare_eq_iff_eq.2 same.symm)
        rw [settled.others one unsettled, if_pos known, parent, others one member different]
  · rw [Std.ExtTreeMap.getElem?_insert, if_neg]
    intro same
    cases compare_eq_iff_eq.1 same
    exact missing (List.mem_append_right _ (List.argmax_mem greatest))

theorem walk_spec
    (settled : Settled state found) (fuel : Nat)
    {next : Option NodeId} {color : Std.ExtTreeMap NodeId Color}
    (way : OnWay state found next path color) (enough : found.1.size < path.length + fuel) :
    (∀ id, id ∈ path ∨ next = some id -> id ∈ (state.walk fuel next path found.1 color).1 ∨
        found.2[id]? = some .settled) ∧
      Walked state found (state.walk fuel next path found.1 color) := by
  induction fuel generalizing next path color with
  | zero =>
      have known : path ⊆ found.1.keys := fun id member => by
        obtain ⟨unsettled, known⟩ := way.fresh id member
        rw [Std.ExtTreeMap.mem_keys, Std.ExtTreeMap.mem_iff_isSome_getElem?,
          settled.others id unsettled, if_pos known, Option.isSome_some]
      have few := (way.nodup.subperm known).length_le
      rw [Std.ExtTreeMap.length_keys] at few
      omega
  | succ fuel inductionHypothesis =>
      cases next with
      | none => exact ⟨fun _ reached => reached.imp_right nofun, way.stop settled (by simp)⟩
      | some id =>
          rw [walk]
          have colors := way.color id
          cases colored : color[id]? with
          | none =>
              rw [colored] at colors
              have unsettled : found.2[id]? = none := by
                split at colors
                · cases colors
                · exact colors.symm
              have parents : found.1[id]?.join = state.namedParent id := by
                rw [settled.others id unsettled, way.next id rfl]
                rfl
              have onward := way.onward colored
              rw [← parents] at onward
              obtain ⟨more, walked⟩ := inductionHypothesis onward (by simp; omega)
              refine ⟨fun one reached => more one (.inl ?_), walked⟩
              rcases reached with inside | ⟨⟨⟩⟩
              · exact List.mem_append_left _ inside
              · exact List.mem_append_right _ (List.mem_singleton_self _)
          | some known =>
              rw [colored] at colors
              cases known with
              | settled =>
                  have arrives : found.2[id]? = some .settled := by
                    split at colors
                    · cases colors
                    · exact colors.symm
                  refine ⟨fun one reached => reached.imp_right ?_, way.stop settled ?_⟩
                  · rintro ⟨⟩
                    exact arrives
                  · rintro _ ⟨⟩
                    exact arrives
              | onPath =>
                  have again : id ∈ path := by
                    by_contra outside
                    rw [if_neg outside] at colors
                    exact settled.color id colors.symm
                  have reached (one : NodeId) (reached : one ∈ path ∨ some id = some one) :
                      one ∈ path ∨ found.2[one]? = some .settled := by
                    rcases reached with inside | ⟨⟨⟩⟩
                    · exact .inl inside
                    · exact .inl again
                  cases greatest : (path.dropWhile (· ≠ id)).argmax state.moveKey with
                  | none =>
                      rw [List.argmax_eq_none, List.dropWhile_eq_nil_iff] at greatest
                      exact absurd rfl (of_decide_eq_true (greatest id again))
                  | some top => exact ⟨reached, way.close settled again greatest⟩

theorem getElem?_foldl_settled
    (path : List NodeId) (color : Std.ExtTreeMap NodeId Color) (id : NodeId) :
    (path.foldl (fun color id => color.insert id Color.settled) color)[id]? =
      if id ∈ path then some Color.settled else color[id]? := by
  induction path generalizing color with
  | nil => simp
  | cons first path inductionHypothesis =>
      rw [List.foldl_cons, inductionHypothesis, Std.ExtTreeMap.getElem?_insert]
      by_cases same : first = id
      · simp [same]
      · have other : ¬ id = first := fun equal => same equal.symm
        simp [same, other]

theorem settle_spec
    (settled : Settled state found) {start : NodeId} (known : state.exists start = true) :
    Settled state (state.settle found start) ∧
      ∀ id, id = start ∨ found.2[id]? = some .settled ->
        (state.settle found start).2[id]? = some .settled := by
  have way : OnWay state found (some start) [] found.2 := by
    refine ⟨.nil, by simp, .nil, by simp, ?_, by simp⟩
    rintro _ ⟨⟩
    exact known
  obtain ⟨reached, walked⟩ := walk_spec settled (found.1.size + 1) way (by simp)
  rw [settle]
  generalize state.walk (found.1.size + 1) (some start) [] found.1 found.2 = after at reached walked
  obtain ⟨path, parents, color⟩ := after
  have colors (id : NodeId) :
      (path.foldl (fun color id => color.insert id Color.settled) color)[id]? =
        if id ∈ path then some Color.settled else found.2[id]? := by
    rw [getElem?_foldl_settled, walked.color]
    split <;> rfl
  have nowSettled (id : NodeId) :
      (path.foldl (fun color id => color.insert id Color.settled) color)[id]? = some .settled ↔
        id ∈ path ∨ found.2[id]? = some .settled := by
    rw [colors]
    split <;> simp [*]
  refine ⟨⟨fun id => ?_, fun id parent => ?_, fun id => ?_, fun id => ?_⟩, fun id => ?_⟩
  · rw [colors]
    split
    · simp
    · exact settled.color id
  · rw [nowSettled, nowSettled]
    rintro (inside | before) named
    · exact walked.closed id inside parent named
    · exact .inr (settled.closed id parent before named)
  · rw [nowSettled]
    intro now
    by_cases inside : id ∈ path
    · rw [walked.walked id inside, if_pos (walked.fresh id inside).2]
    · rw [walked.others id inside, settled.settled id (now.resolve_left inside)]
  · rw [colors]
    split
    · exact nofun
    · next outside =>
        intro unsettled
        rw [walked.others id outside, settled.others id unsettled]
  · rw [nowSettled]
    rintro (rfl | before)
    · exact reached id (.inr rfl)
    · exact .inr before

/-- The walk finds the resolved parents of the existing nodes. -/
theorem getElem?_parents (state : CloudState) (id : NodeId) :
    state.parents[id]? = if state.exists id then some (state.parent id) else none := by
  have run (starts : List NodeId) (known : ∀ start ∈ starts, state.exists start = true)
      (found : Parents × Std.ExtTreeMap NodeId Color) (settled : Settled state found) :
      Settled state (starts.foldl state.settle found) ∧
        ∀ id, id ∈ starts ∨ found.2[id]? = some Color.settled ->
          (starts.foldl state.settle found).2[id]? = some Color.settled := by
    induction starts generalizing found with
    | nil => exact ⟨settled, fun id reached => reached.resolve_left (List.not_mem_nil)⟩
    | cons start starts inductionHypothesis =>
        obtain ⟨first, rest⟩ := List.forall_mem_cons.1 known
        obtain ⟨after, reached⟩ := settle_spec settled first
        obtain ⟨final, all⟩ := inductionHypothesis rest _ after
        refine ⟨final, fun id member => all id ?_⟩
        rw [List.mem_cons, or_assoc, or_left_comm] at member
        exact member.imp_right (reached id)
  have known : ∀ start ∈ state.namedParents.keys, state.exists start = true := by
    intro start member
    rw [Std.ExtTreeMap.mem_keys, Std.ExtTreeMap.mem_iff_isSome_getElem?,
      getElem?_namedParents] at member
    split at member
    · next known => exact known
    · cases member
  obtain ⟨settled, all⟩ := run state.namedParents.keys known (state.namedParents, ∅)
    ⟨by simp, by simp, by simp, fun id _ => getElem?_namedParents state id⟩
  rw [parents]
  by_cases known : state.exists id = true
  · refine settled.settled id (all id (.inl ?_))
    rw [Std.ExtTreeMap.mem_keys, Std.ExtTreeMap.mem_iff_isSome_getElem?,
      getElem?_namedParents, if_pos known, Option.isSome_some]
  · rw [if_neg known]
    cases colored : (state.namedParents.keys.foldl state.settle (state.namedParents, ∅)).2[id]? with
    | none => rw [settled.others id colored, if_neg known]
    | some color =>
        cases color with
        | onPath => exact absurd colored (settled.color id)
        | settled => rw [settled.settled id colored, if_neg known]

/-! ## The way to the root -/

theorem parent_exists {state : CloudState} {id parent : NodeId}
    (above : state.parent id = some parent) : state.exists id = true ∧ state.exists parent = true :=
  namedParent_exists (Step.of_resolve above).1

theorem join_getElem?_parents (state : CloudState) (id : NodeId) :
    state.parents[id]?.join = state.parent id := by
  rw [getElem?_parents]
  split
  · rfl
  · next unknown =>
      symm
      rw [Option.join_none, Option.eq_none_iff_forall_ne_some]
      exact fun parent above => unknown (parent_exists above).1

theorem mem_keys_parents (state : CloudState) (id : NodeId) :
    id ∈ state.parents.keys ↔ state.exists id = true := by
  rw [Std.ExtTreeMap.mem_keys, Std.ExtTreeMap.mem_iff_isSome_getElem?, getElem?_parents]
  split <;> simp [*]

theorem straight (state : CloudState) (id : NodeId) : ¬ OnCycle state.parent id := by
  refine not_onCycle_resolve (state.parents.keys.finite_toSet.subset fun id above => ?_) id
  obtain ⟨parent, named⟩ := Option.ne_none_iff_exists'.1 above
  exact (mem_keys_parents state id).2 (namedParent_exists named).1

theorem exists_lineage (state : CloudState) (start : Option NodeId) :
    ∃ path, Lineage state.parent start path := by
  refine Lineage.exists (state.parents.keys.finite_toSet.subset fun id above => ?_)
    state.straight start
  obtain ⟨parent, above⟩ := Option.ne_none_iff_exists'.1 above
  exact (mem_keys_parents state id).2 (parent_exists above).1

theorem exists_of_mem_lineage {start : Option NodeId}
    (lineage : Lineage state.parent start path) (known : ∀ id ∈ start, state.exists id = true) :
    ∀ id ∈ path, state.exists id = true := by
  induction lineage with
  | root => simp
  | step _ inductionHypothesis =>
      exact List.forall_mem_cons.2
        ⟨known _ rfl, inductionHypothesis fun parent above => (parent_exists above).2⟩

/-- The fuel of the walks is enough. -/
theorem length_lineage_le {id : NodeId}
    (lineage : Lineage state.parent (some id) path) : path.length ≤ state.parents.size + 1 := by
  by_cases known : state.exists id = true
  · have within : path ⊆ state.parents.keys := fun one member => (mem_keys_parents state one).2
      (exists_of_mem_lineage lineage (by simpa using known) one member)
    have few := ((lineage.nodup state.straight).subperm within).length_le
    rw [Std.ExtTreeMap.length_keys] at few
    omega
  · cases lineage with
    | step rest =>
        have root : state.parent id = none := by
          rw [Option.eq_none_iff_forall_ne_some]
          exact fun parent above => known (parent_exists above).1
        rw [root] at rest
        cases rest
        simp

/-! ## Fates -/

/-- The fate of the first node of a way to the root. -/
def fateAlong (state : CloudState) (path : List NodeId) : Fate :=
  path.foldr (fun id fate => inherit (state.nodes[id]?.getD .empty) fate) ⟨false, false, false, 0⟩

/-- The fates that are known are those of the ways to the root. -/
def Fated (state : CloudState) (fates : Std.ExtTreeMap NodeId Fate) : Prop :=
  ∀ (id : NodeId) (fate : Fate), fates[id]? = some fate ->
    ∀ path, Lineage state.parent (some id) path -> fate = state.fateAlong path

theorem chain_spec {fates : Std.ExtTreeMap NodeId Fate}
    (fated : Fated state fates) (found : List NodeId)
    {start : Option NodeId} {fuel : Nat} (lineage : Lineage state.parent start path)
    (enough : path.length ≤ fuel) :
    ∃ before rest, path = before ++ rest ∧
      (∀ id ∈ start, id ∈ before ∨ fates[id]?.isSome = true) ∧
      chain state.parents fates fuel start found = (found ++ before, state.fateAlong rest) := by
  induction lineage generalizing fuel found with
  | root => exact ⟨[], [], rfl, nofun, by cases fuel <;> simp [chain, fateAlong]⟩
  | @step id path rest inductionHypothesis =>
      cases fuel with
      | zero => simp at enough
      | succ fuel =>
          rw [chain]
          cases known : fates[id]? with
          | some fate =>
              refine ⟨[], id :: path, rfl, ?_, by simp [fated id fate known _ (.step rest)]⟩
              rintro _ ⟨⟩
              exact .inr (Option.isSome_iff_exists.2 ⟨fate, known⟩)
          | none =>
              obtain ⟨before, later, split, -, run⟩ :=
                inductionHypothesis (found ++ [id]) (Nat.le_of_succ_le_succ enough)
              refine ⟨id :: before, later, by rw [split]; rfl, by simp, ?_⟩
              simp only [join_getElem?_parents, run, List.append_assoc, List.singleton_append]

theorem foldl_inherit_spec {before rest : List NodeId} {fates : Std.ExtTreeMap NodeId Fate}
    (fated : Fated state fates) {start : Option NodeId}
    (lineage : Lineage state.parent start (before ++ rest)) :
    let after := (before.reverse.foldl
        (fun (found : Std.ExtTreeMap NodeId Fate × Fate) id =>
          let fate := inherit (state.nodes[id]?.getD .empty) found.2
          (found.1.insert id fate, fate))
        (fates, state.fateAlong rest)).1
    Fated state after ∧ ∀ id, id ∈ before ∨ fates[id]?.isSome = true -> after[id]?.isSome = true := by
  intro after
  subst after
  induction before using List.reverseRecOn generalizing rest fates with
  | nil => exact ⟨fated, fun id known => known.resolve_left List.not_mem_nil⟩
  | append_singleton before last inductionHypothesis =>
      rw [List.append_assoc, List.singleton_append] at lineage
      have later : Fated state (fates.insert last (state.fateAlong (last :: rest))) := by
        intro id fate known path way
        rw [Std.ExtTreeMap.getElem?_insert] at known
        split at known
        · next same =>
            cases compare_eq_iff_eq.1 same
            cases known
            rw [way.unique lineage.of_append]
        · exact fated id fate known path way
      obtain ⟨correct, all⟩ := inductionHypothesis later lineage
      rw [List.reverse_append]
      refine ⟨correct, fun id known => all id ?_⟩
      rw [List.mem_append, List.mem_singleton, or_assoc] at known
      refine known.imp_right fun known => ?_
      rw [Std.ExtTreeMap.getElem?_insert]
      split
      · rfl
      · next other => exact known.resolve_left fun same => other (compare_eq_iff_eq.2 same.symm)

/-- The fates as the walks from the given nodes find them, one after the other. -/
def fatesInOrder (state : CloudState) (parents : Parents) (order : List NodeId) :
    Std.ExtTreeMap NodeId Fate :=
  order.foldl
    (fun fates start =>
      let (chain, inherited) := chain parents fates (parents.size + 1) (some start) []
      (chain.reverse.foldl
        (fun (found : Std.ExtTreeMap NodeId Fate × Fate) id =>
          let fate := inherit (state.nodes[id]?.getD .empty) found.2
          (found.1.insert id fate, fate))
        (fates, inherited)).1)
    ∅

theorem fates_eq_fatesInOrder (state : CloudState) (parents : Parents) :
    state.fates parents = state.fatesInOrder parents parents.keys :=
  rfl

/-- The walks find fates of ways to the root only, and those of all nodes they start from. -/
theorem fated_fatesInOrder (state : CloudState) (order : List NodeId) :
    Fated state (state.fatesInOrder state.parents order) ∧
      ∀ id ∈ order, (state.fatesInOrder state.parents order)[id]?.isSome = true := by
  have run (starts : List NodeId) (fates : Std.ExtTreeMap NodeId Fate) (fated : Fated state fates) :
      let after := starts.foldl
        (fun fates start =>
          let (chain, inherited) := chain state.parents fates (state.parents.size + 1) (some start) []
          (chain.reverse.foldl
            (fun (found : Std.ExtTreeMap NodeId Fate × Fate) id =>
              let fate := inherit (state.nodes[id]?.getD .empty) found.2
              (found.1.insert id fate, fate))
            (fates, inherited)).1)
        fates
      Fated state after ∧
        ∀ id, id ∈ starts ∨ fates[id]?.isSome = true -> after[id]?.isSome = true := by
    intro after
    subst after
    induction starts generalizing fates with
    | nil => exact ⟨fated, fun id known => known.resolve_left List.not_mem_nil⟩
    | cons start starts inductionHypothesis =>
        obtain ⟨path, lineage⟩ := exists_lineage state (some start)
        obtain ⟨before, rest, split, begins, run⟩ :=
          chain_spec fated [] lineage (length_lineage_le lineage)
        obtain ⟨later, reached⟩ := foldl_inherit_spec fated (split ▸ lineage)
        simp only [List.foldl_cons, run, List.nil_append]
        obtain ⟨correct, all⟩ := inductionHypothesis _ later
        refine ⟨correct, fun id known => all id ?_⟩
        rw [List.mem_cons, or_assoc, or_left_comm] at known
        refine known.imp_right fun known => reached id ?_
        rcases known with rfl | before
        · exact begins id rfl
        · exact .inr before
  obtain ⟨correct, all⟩ := run order ∅ (by simp [Fated])
  exact ⟨correct, fun id member => all id (.inl member)⟩

/-- The walks find fates of ways to the root only, and those of all existing nodes. -/
theorem fated_fates (state : CloudState) :
    Fated state (state.fates state.parents) ∧
      ∀ id, state.exists id = true -> (state.fates state.parents)[id]?.isSome = true := by
  obtain ⟨correct, all⟩ := fated_fatesInOrder state state.parents.keys
  exact ⟨correct, fun id known => all id ((mem_keys_parents state id).2 known)⟩

/-- The fate of an existing node is that of its way to the root. -/
theorem getElem?_fates {id : NodeId}
    (known : state.exists id = true)
    (lineage : Lineage state.parent (some id) path) :
    (state.fates state.parents)[id]? = some (state.fateAlong path) := by
  obtain ⟨fate, found⟩ := Option.isSome_iff_exists.1 ((fated_fates state).2 id known)
  rw [found, (fated_fates state).1 id fate found path lineage]

end CloudState

end Parvane.Cloud
