import Mathlib.Data.Set.Finite.Basic
import Mathlib.Data.Finset.Max
import Mathlib.Data.List.Chain
import Mathlib.Logic.Relation
import Mathlib.Order.WellFoundedSet

/-!
# Parents and cycles

A partial function gives every element at most one parent.  Where the parents run in a cycle,
the greatest element of the cycle loses its parent; after that every way upwards ends.  The
parents that are left depend only on what lies above an element, so that a part of the elements
which is closed upwards may be looked at by itself.
-/

namespace Ancestry

open Relation

variable {α κ : Type*} {next : α -> Option α}

/-- One step upwards. -/
def Step (next : α -> Option α) (one parent : α) : Prop :=
  next one = some parent

/-- The element is above itself. -/
def OnCycle (next : α -> Option α) (one : α) : Prop :=
  TransGen (Step next) one one

theorem Step.unique {one first second : α}
    (toFirst : Step next one first)
    (toSecond : Step next one second) : first = second :=
  Option.some.inj (toFirst.symm.trans toSecond)

/-- Ways upwards from one element do not branch. -/
theorem step_above {one parent other : α}
    (step : Step next one parent)
    (above : TransGen (Step next) one other) : ReflTransGen (Step next) parent other := by
  obtain ⟨between, first, rest⟩ := TransGen.head'_iff.1 above
  exact step.unique first ▸ rest

/-- From everything above an element of a cycle the way leads back to it. -/
theorem OnCycle.back {one other : α}
    (cycle : OnCycle next one)
    (above : ReflTransGen (Step next) one other) : TransGen (Step next) other one := by
  induction above with
  | refl => exact cycle
  | tail _ step inductionHypothesis =>
      rcases (step_above step inductionHypothesis).cases_head with rfl | ⟨between, first, rest⟩
      · exact cycle
      · exact TransGen.head' first rest

theorem OnCycle.above {one other : α}
    (cycle : OnCycle next one)
    (above : ReflTransGen (Step next) one other) : OnCycle next other :=
  (cycle.back above).trans_left above

/-- Everything on a cycle has a parent. -/
theorem OnCycle.ne_none {one : α} (cycle : OnCycle next one) : next one ≠ none := by
  obtain ⟨parent, step, -⟩ := TransGen.head'_iff.1 cycle
  intro root
  cases root.symm.trans step

/-- Where fewer parents have a cycle, it is the whole cycle that there was. -/
theorem OnCycle.of_fewer {fewer : α -> Option α} {one other : α}
    (sub : ∀ one parent, Step fewer one parent -> Step next one parent) (cycle : OnCycle fewer one)
    (above : TransGen (Step next) one other) : TransGen (Step fewer) one other := by
  induction above with
  | single step =>
      obtain ⟨parent, first, -⟩ := TransGen.head'_iff.1 cycle
      exact step.unique (sub _ _ first) ▸ TransGen.single first
  | tail _ step inductionHypothesis =>
      obtain ⟨parent, first, -⟩ :=
        TransGen.head'_iff.1 (cycle.above inductionHypothesis.to_reflTransGen)
      exact step.unique (sub _ _ first) ▸ inductionHypothesis.tail first

section

variable [LinearOrder κ] {key : α -> κ}

/-- The greatest element of a cycle. -/
def IsTop (next : α -> Option α) (key : α -> κ) (one : α) : Prop :=
  OnCycle next one ∧ ∀ other, TransGen (Step next) one other -> key other ≤ key one

open Classical in
/-- The parents when all cycles are broken. -/
noncomputable def resolve (next : α -> Option α) (key : α -> κ) (one : α) : Option α :=
  if IsTop next key one then none else next one

theorem resolve_of_isTop {one : α} (top : IsTop next key one) : resolve next key one = none :=
  if_pos top

theorem resolve_of_not_isTop {one : α} (notTop : ¬ IsTop next key one) :
    resolve next key one = next one :=
  if_neg notTop

theorem resolve_of_not_onCycle {one : α} (straight : ¬ OnCycle next one) :
    resolve next key one = next one :=
  resolve_of_not_isTop fun top => straight top.1

theorem Step.of_resolve {one parent : α} (step : Step (resolve next key) one parent) :
    Step next one parent ∧ ¬ IsTop next key one := by
  rw [Step, resolve] at step
  split at step
  · cases step
  · next notTop => exact ⟨step, notTop⟩

/-- Every cycle of finitely many elements has one greatest element. -/
theorem existsUnique_isTop
    (finite : {one | next one ≠ none}.Finite)
    (injective : Function.Injective key) {one : α} (cycle : OnCycle next one) :
    ∃! top, TransGen (Step next) one top ∧ IsTop next key top := by
  have within : {other | TransGen (Step next) one other} ⊆ {one | next one ≠ none} :=
    fun other above => (cycle.above above.to_reflTransGen).ne_none
  obtain ⟨top, above, greatest⟩ := (finite.subset within).exists_maximalFor key _ ⟨one, cycle⟩
  have isTop : IsTop next key top := by
    refine ⟨cycle.above above.to_reflTransGen, fun other way => ?_⟩
    exact (le_total (key other) (key top)).elim id (greatest (above.trans way))
  refine ⟨top, ⟨above, isTop⟩, ?_⟩
  rintro other ⟨otherAbove, otherTop⟩
  have around : TransGen (Step next) top other :=
    (cycle.back above.to_reflTransGen).trans otherAbove
  have back : TransGen (Step next) other top :=
    (cycle.back otherAbove.to_reflTransGen).trans above
  exact injective ((isTop.2 other around).antisymm (otherTop.2 top back))

/-- No cycles are left, if only finitely many elements have parents. -/
theorem not_onCycle_resolve
    (finite : {one | next one ≠ none}.Finite)
    (one : α) : ¬ OnCycle (resolve next key) one := by
  intro cycle
  have onCycle {other : α} (above : TransGen (Step (resolve next key)) one other) :
      OnCycle (resolve next key) other := cycle.above above.to_reflTransGen
  have within : {other | TransGen (Step (resolve next key)) one other} ⊆
      {one | next one ≠ none} := by
    intro other above
    obtain ⟨parent, first, -⟩ := TransGen.head'_iff.1 (onCycle above)
    exact fun root => nomatch root.symm.trans first.of_resolve.1
  obtain ⟨top, above, greatest⟩ :=
    (finite.subset within).exists_maximalFor key _ ⟨one, cycle⟩
  have topCycle := onCycle above
  obtain ⟨parent, first, -⟩ := TransGen.head'_iff.1 topCycle
  have sub (one parent : α) (step : Step (resolve next key) one parent) : Step next one parent :=
    step.of_resolve.1
  refine first.of_resolve.2 ⟨TransGen.mono sub _ _ topCycle, fun other way => ?_⟩
  refine not_lt.1 fun greater => ?_
  have higher := above.trans (topCycle.of_fewer sub way)
  exact absurd (greatest higher greater.le) greater.not_ge

/-- The resolved parents in a part of the elements that is closed upwards. -/
theorem resolve_eq_of_closed {fewer : α -> Option α} {fewerKey : α -> κ}
    (part : Set α) (injective : Function.Injective key)
    (inside : ∀ one ∈ part, ∀ parent,
      fewer one = some parent ↔ next one = some parent ∧ parent ∈ part)
    (outside : ∀ one ∉ part, fewer one = none) (keys : ∀ one ∈ part, fewerKey one = key one)
    (closed : ∀ one ∈ part, ∀ parent, resolve next key one = some parent -> parent ∈ part) {one : α}
    (member : one ∈ part) : resolve fewer fewerKey one = resolve next key one := by
  have ofStep {one parent : α} (step : Step fewer one parent) :
      one ∈ part ∧ Step next one parent ∧ parent ∈ part := by
    have member : one ∈ part := by
      by_contra missing
      cases (outside one missing).symm.trans step
    exact ⟨member, (inside one member parent).1 step⟩
  have sub (one parent : α) (step : Step fewer one parent) : Step next one parent :=
    (ofStep step).2.1
  have above {one other : α} (way : TransGen (Step fewer) one other) : other ∈ part := by
    obtain ⟨between, -, step⟩ := TransGen.tail'_iff.1 way
    exact (ofStep step).2.2
  by_cases top : IsTop next key one
  · rw [resolve_of_isTop top]
    by_contra root
    have notTop : ¬ IsTop fewer fewerKey one := fun isTop => root (resolve_of_isTop isTop)
    rw [resolve_of_not_isTop notTop] at root
    obtain ⟨parent, step⟩ := Option.ne_none_iff_exists'.1 root
    obtain ⟨-, first, parentMember⟩ := ofStep step
    -- the way from the parent back to the top stays in the part, where nobody else is the top
    have round {other : α} (way : ReflTransGen (Step next) parent other) :
        other ∈ part ∧ TransGen (Step fewer) one other := by
      induction way with
      | refl => exact ⟨parentMember, TransGen.single step⟩
      | @tail between _ way later inductionHypothesis =>
          by_cases again : between = one
          · cases again
            cases first.unique later
            exact ⟨parentMember, TransGen.single step⟩
          · have lower : ¬ IsTop next key between := fun other => by
              have cycle := top.1.back (TransGen.head' first way).to_reflTransGen
              exact again (injective
                ((top.2 between (TransGen.head' first way)).antisymm (other.2 one cycle)))
            have resolved := (resolve_of_not_isTop lower).trans later
            have inPart := closed between inductionHypothesis.1 _ resolved
            exact ⟨inPart, inductionHypothesis.2.tail
              ((inside between inductionHypothesis.1 _).2 ⟨later, inPart⟩)⟩
    refine notTop ⟨(round (step_above first top.1)).2, fun other way => ?_⟩
    rw [keys one member, keys other (above way)]
    exact top.2 other (TransGen.mono sub _ _ way)
  · have fewerNotTop : ¬ IsTop fewer fewerKey one := by
      intro isTop
      refine top ⟨TransGen.mono sub _ _ isTop.1, fun other way => ?_⟩
      have fewerWay := isTop.1.of_fewer sub way
      rw [← keys one member, ← keys other (above fewerWay)]
      exact isTop.2 other fewerWay
    rw [resolve_of_not_isTop fewerNotTop]
    cases toParent : resolve next key one with
    | none =>
        rw [resolve_of_not_isTop top] at toParent
        rw [Option.eq_none_iff_forall_ne_some]
        intro parent step
        cases toParent.symm.trans (sub one parent step)
    | some parent =>
        have parentMember := closed one member parent toParent
        rw [resolve_of_not_isTop top] at toParent
        exact (inside one member parent).2 ⟨toParent, parentMember⟩

end

/-! ## The way to the root -/

/-- The elements from a start up to the root. -/
inductive Lineage (next : α -> Option α) : Option α -> List α -> Prop
  | root : Lineage next none []
  | step {one : α} {path : List α} (rest : Lineage next (next one) path) :
      Lineage next (some one) (one :: path)

namespace Lineage

theorem unique {start : Option α} {first second : List α}
    (one : Lineage next start first)
    (other : Lineage next start second) : first = second := by
  induction one generalizing second with
  | root =>
      cases other
      rfl
  | step _ inductionHypothesis =>
      cases other with
      | step rest => rw [inductionHypothesis rest]

theorem above {start : Option α} {path : List α}
    (lineage : Lineage next start path) {one : α} (starts : start = some one) {other : α}
    (member : other ∈ path) : ReflTransGen (Step next) one other := by
  induction lineage generalizing one with
  | root => cases member
  | @step first path rest inductionHypothesis =>
      cases starts
      rcases List.mem_cons.1 member with rfl | inRest
      · exact .refl
      · cases toParent : next first with
        | none =>
            rw [toParent] at rest
            cases rest
            cases inRest
        | some parent => exact .head toParent (inductionHypothesis toParent inRest)

theorem mem_of_above {one other : α}
    (above : ReflTransGen (Step next) one other)
    {path : List α}
    (lineage : Lineage next (some one) path) : other ∈ path := by
  induction above using ReflTransGen.head_induction_on generalizing path with
  | refl =>
      cases lineage
      exact List.mem_cons_self
  | head step _ inductionHypothesis =>
      cases lineage with
      | step rest =>
          rw [step] at rest
          exact List.mem_cons_of_mem _ (inductionHypothesis rest)

theorem nodup {start : Option α} {path : List α}
    (straight : ∀ one, ¬ OnCycle next one)
    (lineage : Lineage next start path) : path.Nodup := by
  induction lineage with
  | root => exact List.nodup_nil
  | @step one path rest inductionHypothesis =>
      refine List.nodup_cons.2 ⟨fun again => straight one ?_, inductionHypothesis⟩
      cases toParent : next one with
      | none =>
          rw [toParent] at rest
          cases rest
          cases again
      | some parent => exact TransGen.head' toParent (rest.above toParent again)

/-- Without cycles every way upwards ends. -/
theorem «exists»
    (finite : {one | next one ≠ none}.Finite)
    (straight : ∀ one, ¬ OnCycle next one)
    (start : Option α) : ∃ path, Lineage next start path := by
  have order : IsStrictOrder α fun higher lower => TransGen (Step next) lower higher :=
    { irrefl := straight, trans := fun _ _ _ first second => second.trans first }
  cases start with
  | none => exact ⟨[], .root⟩
  | some one =>
      have each (one : α) (member : next one ≠ none) : ∃ path, Lineage next (some one) path := by
        have well := finite.wellFoundedOn (r := fun higher lower => TransGen (Step next) lower higher)
        refine well.induction (P := fun one => ∃ path, Lineage next (some one) path) member
          fun one _ inductionHypothesis => ?_
        cases toParent : next one with
        | none => exact ⟨[one], .step (toParent ▸ .root)⟩
        | some parent =>
            by_cases root : next parent = none
            · exact ⟨[one, parent], .step (toParent ▸ .step (root ▸ .root))⟩
            · obtain ⟨path, lineage⟩ :=
                inductionHypothesis parent root (TransGen.single toParent)
              exact ⟨one :: path, .step (toParent ▸ lineage)⟩
      by_cases root : next one = none
      · exact ⟨[one], .step (root ▸ .root)⟩
      · exact each one root

/-- What is properly above an element comes after it on its way. -/
theorem mem_tail_iff {one : α} {path : List α}
    (lineage : Lineage next (some one) (one :: path))
    {other : α} : other ∈ path ↔ TransGen (Step next) one other := by
  cases lineage with
  | step rest =>
      constructor
      · intro member
        cases toParent : next one with
        | none =>
            rw [toParent] at rest
            cases rest
            cases member
        | some parent => exact .head' toParent (rest.above toParent member)
      · intro above
        obtain ⟨parent, step, more⟩ := TransGen.head'_iff.1 above
        rw [step] at rest
        exact mem_of_above more rest

/-- As many steps as there are elements lead out. -/
theorem iterate {start : Option α} {path : List α}
    (lineage : Lineage next start path) :
    (fun one : Option α => one.bind next)^[path.length] start = none := by
  induction lineage with
  | root => rfl
  | step rest inductionHypothesis =>
      rw [List.length_cons, Function.iterate_succ_apply]
      exact inductionHypothesis

/-- The way from an element of a way. -/
theorem of_append {start : Option α} {before rest : List α} {one : α}
    (lineage : Lineage next start (before ++ one :: rest)) :
    Lineage next (some one) (one :: rest) := by
  induction before generalizing start with
  | nil =>
      cases lineage with
      | step rest => exact .step rest
  | cons first before inductionHypothesis =>
      cases lineage with
      | step rest => exact inductionHypothesis rest

/-- A way passes what another passes, if they agree up to there. -/
theorem mem_of_agree
    {other : α -> Option α} {start : Option α} {before rest path : List α} {one : α}
    (lineage : Lineage next start (before ++ one :: rest))
    (way : Lineage other start path)
    (agree : ∀ below ∈ before, other below = next below) : one ∈ path := by
  induction before generalizing start path with
  | nil =>
      cases lineage
      cases way
      exact List.mem_cons_self
  | cons first before inductionHypothesis =>
      cases lineage with
      | step rest =>
          cases way with
          | step way =>
              rw [agree first List.mem_cons_self] at way
              refine List.mem_cons_of_mem first (inductionHypothesis rest way ?_)
              exact fun below member => agree below (List.mem_cons_of_mem first member)

end Lineage

/-! ## A way that was walked -/

section

variable {path : List α}

/-- The end of a way is above everything on it. -/
theorem above_getLast
    (chain : path.IsChain (Step next))
    {last : α} (ends : last ∈ path.getLast?) {one : α}
    (member : one ∈ path) : ReflTransGen (Step next) one last := by
  induction chain generalizing one with
  | nil => cases member
  | singleton first =>
      cases ends
      cases List.mem_singleton.1 member
      exact .refl
  | @cons_cons first second rest step chain inductionHypothesis =>
      rw [List.getLast?_cons_cons] at ends
      rcases List.mem_cons.1 member with rfl | inRest
      · exact .head step (inductionHypothesis ends List.mem_cons_self)
      · exact inductionHypothesis ends inRest

/-- Everything on a way is above its beginning. -/
theorem above_of_head {first : α}
    (chain : (first :: path).IsChain (Step next))
    {one : α}
    (member : one ∈ first :: path) : ReflTransGen (Step next) first one := by
  induction path generalizing first with
  | nil =>
      cases List.mem_singleton.1 member
      exact .refl
  | cons second rest inductionHypothesis =>
      obtain ⟨step, chain⟩ := List.isChain_cons_cons.1 chain
      rcases List.mem_cons.1 member with rfl | inRest
      · exact .refl
      · exact .head step (inductionHypothesis chain inRest)

section

variable (chain : path.IsChain (Step next))

include chain

/-- One step from a way leads along it, or further on from its end. -/
theorem mem_or_goal_of_step
    {goal : Option α} (ends : ∀ last ∈ path.getLast?, next last = goal) {one parent : α}
    (member : one ∈ path)
    (step : Step next one parent) : parent ∈ path ∨ goal = some parent := by
  induction chain with
  | nil => cases member
  | singleton first =>
      cases List.mem_singleton.1 member
      exact .inr ((ends _ rfl).symm.trans step)
  | @cons_cons first second rest onward chain inductionHypothesis =>
      rw [List.getLast?_cons_cons] at ends
      rcases List.mem_cons.1 member with rfl | inRest
      · exact .inl (step.unique onward ▸ List.mem_cons_of_mem _ List.mem_cons_self)
      · exact (inductionHypothesis ends inRest).imp_left (List.mem_cons_of_mem _)

theorem above_goal
    {goal : α} (ends : ∀ last ∈ path.getLast?, next last = some goal) {one : α}
    (member : one ∈ path) : TransGen (Step next) one goal := by
  obtain ⟨last, lastEq⟩ :=
    Option.isSome_iff_exists.1 (List.getLast?_isSome.2 (List.ne_nil_of_mem member))
  exact .tail' (above_getLast chain lastEq member) (ends last lastEq)

/-- A way that ends at the root is on no cycle. -/
theorem not_onCycle_of_root
    (ends : ∀ last ∈ path.getLast?, next last = none) {one : α}
    (member : one ∈ path) : ¬ OnCycle next one := by
  intro cycle
  obtain ⟨last, lastEq⟩ :=
    Option.isSome_iff_exists.1 (List.getLast?_isSome.2 (List.ne_nil_of_mem member))
  exact (cycle.above (above_getLast chain lastEq member)).ne_none (ends last lastEq)

end

/-- A way that ends in what is closed upwards, and does not meet it before, is on no cycle. -/
theorem not_onCycle_of_closed
    (part : Set α)
    (chain : path.IsChain (Step next))
    {goal : α} (ends : ∀ last ∈ path.getLast?, next last = some goal)
    (closed : ∀ one ∈ part, ∀ parent, Step next one parent -> parent ∈ part) (arrives : goal ∈ part)
    {one : α} (member : one ∈ path)
    (fresh : one ∉ part) : ¬ OnCycle next one := by
  intro cycle
  have back := (cycle.back (above_goal chain ends member).to_reflTransGen).to_reflTransGen
  have within {other : α} (above : ReflTransGen (Step next) goal other) : other ∈ part := by
    induction above with
    | refl => exact arrives
    | tail _ step inductionHypothesis => exact closed _ inductionHypothesis _ step
  exact fresh (within back)

/-- A way that comes back to itself ends in a cycle, which loses one parent. -/
theorem resolve_of_closing [LinearOrder κ] {key : α -> κ}
    (injective : Function.Injective key)
    {before rest : List α} {goal top : α}
    (chain : (before ++ goal :: rest).IsChain (Step next))
    (ends : ∀ last ∈ (before ++ goal :: rest).getLast?, next last = some goal)
    (nodup : (before ++ goal :: rest).Nodup)
    (top_mem : top ∈ goal :: rest) (greatest : ∀ one ∈ goal :: rest, key one ≤ key top) :
    resolve next key top = none ∧
      ∀ one ∈ before ++ goal :: rest, one ≠ top -> resolve next key one = next one := by
  have round : (goal :: rest).IsChain (Step next) := chain.right_of_append
  have closes : ∀ last ∈ (goal :: rest).getLast?, next last = some goal := by
    intro last lastEq
    refine ends last ?_
    rw [List.getLast?_append_of_ne_nil _ (List.cons_ne_nil _ _)]
    exact lastEq
  have within {first other : α} (inRound : first ∈ goal :: rest)
      (above : ReflTransGen (Step next) first other) : other ∈ goal :: rest := by
    induction above with
    | refl => exact inRound
    | tail _ step inductionHypothesis =>
        rcases mem_or_goal_of_step round closes inductionHypothesis step with inside | back
        · exact inside
        · cases back
          exact List.mem_cons_self
  have around {first other : α} (firstMember : first ∈ goal :: rest)
      (member : other ∈ goal :: rest) : TransGen (Step next) first other := by
    have along : ReflTransGen (Step next) goal other := above_of_head round member
    exact (above_goal round closes firstMember).trans_left along
  refine ⟨resolve_of_isTop ⟨around top_mem top_mem, fun other above => ?_⟩, ?_⟩
  · exact greatest other (within top_mem above.to_reflTransGen)
  · intro one member different
    rcases List.mem_append.1 member with inBefore | inRound
    · refine resolve_of_not_onCycle fun turns => ?_
      have back := turns.back (above_goal chain ends member).to_reflTransGen
      have again := within List.mem_cons_self back.to_reflTransGen
      exact (List.nodup_append.1 nodup).2.2 one inBefore one again rfl
    · refine resolve_of_not_isTop fun isTop => different ?_
      exact injective ((greatest one inRound).antisymm (isTop.2 top (around inRound top_mem)))

end

end Ancestry
