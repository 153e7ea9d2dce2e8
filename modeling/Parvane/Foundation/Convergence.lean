import Mathlib.Data.List.Basic
import Mathlib.Data.Prod.Lex
import Mathlib.Data.Set.Function
import Std.Data.ExtTreeMap.Lemmas

/-!
# Folds that forget order and repetition

A replica applies a stream of operations one by one.  It converges when the
final state depends only on which operations occurred.  The condition is local:
any two admissible steps commute, and a step taken twice equals the step taken
once.  Both are only asked of states satisfying an invariant that the steps
preserve, because merge functions are rarely total orders on malformed states.
-/

namespace Convergence

/-- Two lists hold the same elements, in whatever order and multiplicity. -/
def SameMembers (first second : List α) : Prop :=
  ∀ element, element ∈ first ↔ element ∈ second

namespace SameMembers

theorem refl (list : List α) : SameMembers list list :=
  fun _ => Iff.rfl

theorem symm {first second : List α}
    (same : SameMembers first second) : SameMembers second first :=
  fun element => (same element).symm

theorem forall_mem {first second : List α}
    (same : SameMembers first second) {property : α -> Prop}
    (holds : ∀ element ∈ first, property element) : ∀ element ∈ second, property element :=
  fun element member => holds element ((same element).2 member)

end SameMembers

/-- A part of a state that takes what some operations carry for it. -/
theorem foldl_part {step : σ -> α -> σ} {partStep : τ -> β -> τ}
    (part : σ -> τ) (view : α -> Option β)
    (part_step : ∀ state operation, part (step state operation) =
      (view operation).elim (part state) (partStep (part state)))
    (operations : List α) (state : σ) :
    part (operations.foldl step state) =
      (operations.filterMap view).foldl partStep (part state) := by
  induction operations generalizing state with
  | nil => rfl
  | cons operation operations inductionHypothesis =>
      rw [List.foldl_cons, inductionHypothesis, part_step, List.filterMap_cons]
      cases view operation <;> rfl

theorem foldl_optional
    (step : σ -> α -> σ) (view : β -> Option α) (operations : List β) (state : σ) :
    operations.foldl (fun state operation => (view operation).elim state (step state)) state =
      (operations.filterMap view).foldl step state :=
  foldl_part id view (fun _ _ => rfl) operations state

/-- Steps that commute and absorb their own repetition, on the states of an
invariant and for the admissible operations. -/
structure CommutesOn
    (step : σ -> α -> σ) (Invariant : σ -> Prop) (Admissible : α -> Prop) : Prop where
  preserves : ∀ state operation,
    Invariant state -> Admissible operation -> Invariant (step state operation)
  comm : ∀ state first second,
    Invariant state -> Admissible first -> Admissible second ->
      step (step state first) second = step (step state second) first
  absorbs : ∀ state operation,
    Invariant state -> Admissible operation ->
      step (step state operation) operation = step state operation

namespace CommutesOn

variable {step : σ -> α -> σ} {Invariant : σ -> Prop} {Admissible : α -> Prop}
  (commutes : CommutesOn step Invariant Admissible)

include commutes

/-- A step may be moved from the front of a run to its end. -/
theorem foldl_step
    (operations : List α) (state : σ)
    (operation : α) (holds : Invariant state) (operationAdmissible : Admissible operation)
    (admissible : ∀ other ∈ operations, Admissible other) :
    operations.foldl step (step state operation) =
      step (operations.foldl step state) operation := by
  induction operations generalizing state with
  | nil => rfl
  | cons head operations inductionHypothesis =>
      have headAdmissible := admissible head List.mem_cons_self
      rw [List.foldl_cons, List.foldl_cons,
        commutes.comm state operation head holds
          operationAdmissible headAdmissible]
      exact inductionHypothesis (step state head)
        (commutes.preserves state head holds headAdmissible)
        fun other member => admissible other (List.mem_cons_of_mem _ member)

/-- An operation that already occurred changes nothing when it comes again. -/
theorem step_foldl_of_mem
    (operations : List α) (state : σ)
    (operation : α) (holds : Invariant state) (admissible : ∀ other ∈ operations, Admissible other)
    (member : operation ∈ operations) :
    step (operations.foldl step state) operation =
      operations.foldl step state := by
  induction operations generalizing state with
  | nil => cases member
  | cons head operations inductionHypothesis =>
      have headAdmissible := admissible head List.mem_cons_self
      have tailAdmissible : ∀ other ∈ operations, Admissible other :=
        fun other tailMember =>
          admissible other (List.mem_cons_of_mem _ tailMember)
      rw [List.foldl_cons]
      rcases List.mem_cons.1 member with rfl | tailMember
      · rw [← commutes.foldl_step operations (step state operation) operation
            (commutes.preserves state operation holds headAdmissible)
            headAdmissible tailAdmissible,
          commutes.absorbs state operation holds headAdmissible]
      · exact inductionHypothesis (step state head)
          (commutes.preserves state head holds headAdmissible)
          tailAdmissible tailMember

/-- Replaying operations that all occurred before changes nothing. -/
theorem foldl_foldl_of_subset
    (operations replayed : List α) (state : σ)
    (holds : Invariant state) (admissible : ∀ other ∈ operations, Admissible other)
    (subset : ∀ other ∈ replayed, other ∈ operations) :
    replayed.foldl step (operations.foldl step state) =
      operations.foldl step state := by
  induction replayed with
  | nil => rfl
  | cons head replayed inductionHypothesis =>
      rw [List.foldl_cons,
        commutes.step_foldl_of_mem operations state head holds admissible
          (subset head List.mem_cons_self)]
      exact inductionHypothesis
        fun other member => subset other (List.mem_cons_of_mem _ member)

/-- Two runs may be taken in either order. -/
theorem foldl_foldl_comm
    (first second : List α) (state : σ)
    (holds : Invariant state) (firstAdmissible : ∀ other ∈ first, Admissible other)
    (secondAdmissible : ∀ other ∈ second, Admissible other) :
    second.foldl step (first.foldl step state) =
      first.foldl step (second.foldl step state) := by
  induction second generalizing state with
  | nil => rfl
  | cons head second inductionHypothesis =>
      have headAdmissible := secondAdmissible head List.mem_cons_self
      rw [List.foldl_cons, List.foldl_cons,
        ← commutes.foldl_step first state head holds
          headAdmissible firstAdmissible]
      exact inductionHypothesis (step state head)
        (commutes.preserves state head holds headAdmissible)
        fun other member =>
          secondAdmissible other (List.mem_cons_of_mem _ member)

/-- The final state of a run depends only on which operations occurred. -/
theorem foldl_eq_of_sameMembers
    {first second : List α} (state : σ)
    (holds : Invariant state) (admissible : ∀ operation ∈ first, Admissible operation)
    (same : SameMembers first second) : first.foldl step state = second.foldl step state := by
  have secondAdmissible := same.forall_mem admissible
  calc first.foldl step state
      = second.foldl step (first.foldl step state) :=
        (commutes.foldl_foldl_of_subset first second state holds admissible
          fun other member => (same other).2 member).symm
    _ = first.foldl step (second.foldl step state) :=
        commutes.foldl_foldl_comm first second state holds
          admissible secondAdmissible
    _ = second.foldl step state :=
        commutes.foldl_foldl_of_subset second first state holds
          secondAdmissible fun other member => (same other).1 member

/-- Operations that are read through a view of them. -/
theorem comap
    (view : β -> α) :
    CommutesOn (fun state operation => step state (view operation))
      Invariant (fun operation => Admissible (view operation)) where
  preserves _ _ holds admissible :=
    commutes.preserves _ _ holds admissible
  comm _ _ _ holds firstAdmissible secondAdmissible :=
    commutes.comm _ _ _ holds firstAdmissible secondAdmissible
  absorbs _ _ holds admissible :=
    commutes.absorbs _ _ holds admissible

/-- Fewer operations are admissible. -/
theorem mono
    {Narrower : α -> Prop} (narrows : ∀ operation, Narrower operation -> Admissible operation) :
    CommutesOn step Invariant Narrower where
  preserves _ _ holds admissible :=
    commutes.preserves _ _ holds (narrows _ admissible)
  comm _ _ _ holds firstAdmissible secondAdmissible :=
    commutes.comm _ _ _ holds (narrows _ firstAdmissible)
      (narrows _ secondAdmissible)
  absorbs _ _ holds admissible :=
    commutes.absorbs _ _ holds (narrows _ admissible)

/-- Operations that may carry nothing for this part of the state. -/
theorem optional
    (view : β -> Option α) :
    CommutesOn (fun state operation => (view operation).elim state (step state))
      Invariant
      (fun operation => ∀ carried ∈ view operation, Admissible carried) := by
  refine ⟨?_, ?_, ?_⟩
  · intro state operation holds admissible
    cases carries : view operation with
    | none => exact holds
    | some carried => exact commutes.preserves _ _ holds (admissible _ carries)
  · intro state first second holds firstAdmissible secondAdmissible
    cases firstCarries : view first with
    | none => rfl
    | some firstCarried =>
        cases secondCarries : view second with
        | none => rfl
        | some secondCarried =>
            exact commutes.comm _ _ _ holds
              (firstAdmissible _ firstCarries) (secondAdmissible _ secondCarries)
  · intro state operation holds admissible
    cases carries : view operation with
    | none => rfl
    | some carried => exact commutes.absorbs _ _ holds (admissible _ carries)

/-- A step that agrees with a converging one wherever it is used. -/
theorem congr {otherStep : σ -> α -> σ}
    (agree : ∀ state operation, Invariant state -> Admissible operation ->
      otherStep state operation = step state operation) :
    CommutesOn otherStep Invariant Admissible where
  preserves state operation holds admissible := by
    rw [agree state operation holds admissible]
    exact commutes.preserves state operation holds admissible
  comm state first second holds firstAdmissible secondAdmissible := by
    rw [agree state first holds firstAdmissible, agree state second holds secondAdmissible,
      agree _ second (commutes.preserves state first holds firstAdmissible) secondAdmissible,
      agree _ first (commutes.preserves state second holds secondAdmissible) firstAdmissible]
    exact commutes.comm state first second holds firstAdmissible secondAdmissible
  absorbs state operation holds admissible := by
    rw [agree state operation holds admissible,
      agree _ operation (commutes.preserves state operation holds admissible) admissible]
    exact commutes.absorbs state operation holds admissible

/-- A state that comes into being with the first operation. -/
theorem defaulted
    (initial : σ) :
    CommutesOn (fun slot operation => some (step (slot.getD initial) operation))
      (fun slot => Invariant (slot.getD initial)) Admissible where
  preserves _ _ holds admissible :=
    commutes.preserves _ _ holds admissible
  comm _ _ _ holds firstAdmissible secondAdmissible :=
    congrArg some (commutes.comm _ _ _ holds firstAdmissible secondAdmissible)
  absorbs _ _ holds admissible :=
    congrArg some (commutes.absorbs _ _ holds admissible)

end CommutesOn

/-! ## Keyed stores -/

/-- Pairs compared by their first and then by their second parts. -/
instance lawfulEqOrdLexProd [Ord κ] [Ord ι] [Std.LawfulEqOrd κ] [Std.LawfulEqOrd ι] :
    Std.LawfulEqOrd (κ ×ₗ ι) where
  compare_self := by
    intro pair
    simp [Prod.Lex.compare_def, compareLex, compareOn]
  eq_of_compare := by
    intro first second equal
    simp only [Prod.Lex.compare_def, compareLex, compareOn, Ordering.then_eq_eq,
      Std.LawfulEqOrd.compare_eq_iff_eq] at equal
    exact Prod.ext equal.1 equal.2

/-- Write one operation into the slot of a keyed store that it addresses, if it
addresses one. -/
def alterAt [Ord κ] [Std.TransOrd κ]
    (target : α -> Option κ) (slotStep : Option ν -> α -> Option ν) (store : Std.ExtTreeMap κ ν)
    (operation : α) : Std.ExtTreeMap κ ν :=
  match target operation with
  | none => store
  | some key => store.alter key fun slot => slotStep slot operation

variable [Ord κ] [Std.TransOrd κ] [Std.LawfulEqOrd κ]

/-- A slot changes only when the operation addresses its key. -/
theorem getElem?_alterAt [DecidableEq κ]
    (target : α -> Option κ) (slotStep : Option ν -> α -> Option ν) (store : Std.ExtTreeMap κ ν)
    (operation : α) (key : κ) :
    (alterAt target slotStep store operation)[key]? =
      if target operation = some key then slotStep store[key]? operation
      else store[key]? := by
  unfold alterAt
  cases addressed : target operation with
  | none => simp
  | some other =>
      rw [Std.ExtTreeMap.getElem?_alter]
      by_cases same : other = key
      · subst same
        simp
      · simp [same]

/-- Slots that converge one by one make the whole store converge. -/
theorem alterAt_commutesOn {target : α -> Option κ} {slotStep : Option ν -> α -> Option ν}
    (SlotInvariant : κ -> Option ν -> Prop) {Admissible : α -> Prop}
    (slots : ∀ key, CommutesOn slotStep (SlotInvariant key)
      fun operation => Admissible operation ∧ target operation = some key) :
    CommutesOn (alterAt target slotStep)
      (fun store : Std.ExtTreeMap κ ν => ∀ key, SlotInvariant key store[key]?)
      Admissible := by
  classical
  refine ⟨?_, ?_, ?_⟩
  · intro store operation holds admissible key
    rw [getElem?_alterAt]
    split
    · next addressed =>
        exact (slots key).preserves _ _ (holds key) ⟨admissible, addressed⟩
    · exact holds key
  · intro store first second holds firstAdmissible secondAdmissible
    apply Std.ExtTreeMap.ext_getElem?
    intro key
    simp only [getElem?_alterAt]
    by_cases firstAddressed : target first = some key <;>
      by_cases secondAddressed : target second = some key
    · simp only [firstAddressed, secondAddressed, if_true]
      exact (slots key).comm _ _ _ (holds key)
        ⟨firstAdmissible, firstAddressed⟩ ⟨secondAdmissible, secondAddressed⟩
    · simp [firstAddressed, secondAddressed]
    · simp [firstAddressed, secondAddressed]
    · simp [firstAddressed, secondAddressed]
  · intro store operation holds admissible
    apply Std.ExtTreeMap.ext_getElem?
    intro key
    simp only [getElem?_alterAt]
    by_cases addressed : target operation = some key
    · simp only [addressed, if_true]
      exact (slots key).absorbs _ _ (holds key) ⟨admissible, addressed⟩
    · simp [addressed]

/-! ## Runs from a fixed state -/

/-- Runs of admissible operations from one state end in the same state whenever
the same operations occurred in them. -/
def ConvergesFrom
    (step : σ -> α -> σ) (initial : σ) (Admissible : α -> Prop) : Prop :=
  ∀ first second : List α, SameMembers first second ->
    (∀ operation ∈ first, Admissible operation) ->
      first.foldl step initial = second.foldl step initial

theorem CommutesOn.convergesFrom
    {step : σ -> α -> σ} {Invariant : σ -> Prop} {Admissible : α -> Prop}
    (commutes : CommutesOn step Invariant Admissible) {initial : σ} (holds : Invariant initial) :
    ConvergesFrom step initial Admissible :=
  fun _ _ same admissible =>
    commutes.foldl_eq_of_sameMembers initial holds admissible same

theorem SameMembers.filter {first second : List α}
    (same : SameMembers first second) (keep : α -> Bool) :
    SameMembers (first.filter keep) (second.filter keep) := by
  intro element
  simp only [List.mem_filter, same _]

theorem SameMembers.map {first second : List α}
    (same : SameMembers first second) (view : α -> β) :
    SameMembers (first.map view) (second.map view) := by
  intro element
  simp only [List.mem_map, same _]

namespace ConvergesFrom

variable {step : σ -> α -> σ} {initial : σ} {Admissible : α -> Prop}

/-- A part of a state that evolves by itself. -/
theorem project
    (part : σ -> τ) {partStep : τ -> α -> τ}
    (converges : ConvergesFrom partStep (part initial) Admissible)
    (part_step : ∀ state operation,
      partStep (part state) operation = part (step state operation))
    {first second : List α} (same : SameMembers first second)
    (admissible : ∀ operation ∈ first, Admissible operation) :
    part (first.foldl step initial) = part (second.foldl step initial) := by
  rw [← List.foldl_hom part part_step, ← List.foldl_hom part part_step]
  exact converges first second same admissible

section

variable (converges : ConvergesFrom step initial Admissible)

include converges

/-- A step that agrees with a converging one on admissible operations. -/
theorem congr {otherStep : σ -> α -> σ}
    (agree : ∀ state operation, Admissible operation ->
      otherStep state operation = step state operation) :
    ConvergesFrom otherStep initial Admissible := by
  have folds (operations : List α) (state : σ)
      (admissible : ∀ operation ∈ operations, Admissible operation) :
      operations.foldl otherStep state = operations.foldl step state := by
    induction operations generalizing state with
    | nil => rfl
    | cons operation operations inductionHypothesis =>
        rw [List.foldl_cons, List.foldl_cons,
          agree state operation (admissible operation List.mem_cons_self)]
        exact inductionHypothesis _
          fun other member => admissible other (List.mem_cons_of_mem _ member)
  intro first second same admissible
  rw [folds first initial admissible,
    folds second initial (same.forall_mem admissible)]
  exact converges first second same admissible

/-- Fewer operations are admissible. -/
theorem mono
    {Narrower : α -> Prop} (narrows : ∀ operation, Narrower operation -> Admissible operation) :
    ConvergesFrom step initial Narrower :=
  fun first second same admissible =>
    converges first second same
      fun operation member => narrows operation (admissible operation member)

/-- Operations seen through a view. -/
theorem comap
    (view : β -> α) :
    ConvergesFrom (fun state operation => step state (view operation)) initial
      (fun operation => Admissible (view operation)) := by
  intro first second same admissible
  have folds (operations : List β) :
      operations.foldl (fun state operation => step state (view operation)) initial =
        (operations.map view).foldl step initial :=
    List.foldl_map.symm
  rw [folds, folds]
  apply converges _ _ (same.map view)
  intro operation member
  obtain ⟨original, inside, rfl⟩ := List.mem_map.1 member
  exact admissible original inside

/-- Operations that may carry nothing for this part of the state. -/
theorem optional
    (view : β -> Option α) :
    ConvergesFrom (fun state operation => (view operation).elim state (step state))
      initial (fun operation => ∀ carried ∈ view operation, Admissible carried) := by
  intro first second same admissible
  rw [foldl_optional, foldl_optional]
  apply converges
  · intro carried
    simp only [List.mem_filterMap, same _]
  · intro carried member
    obtain ⟨operation, inside, carries⟩ := List.mem_filterMap.1 member
    exact admissible operation inside carried carries

end

theorem foldl_defaulted
    (operations : List α) (slot : Option σ) :
    operations.foldl
        (fun slot operation => some (step (slot.getD initial) operation)) slot =
      if operations = [] then slot
      else some (operations.foldl step (slot.getD initial)) := by
  induction operations generalizing slot with
  | nil => rfl
  | cons operation operations inductionHypothesis =>
      rw [List.foldl_cons, inductionHypothesis, if_neg (List.cons_ne_nil _ _)]
      by_cases empty : operations = []
      · subst empty
        rfl
      · rw [if_neg empty]
        rfl

/-- A state that comes into being with the first operation. -/
theorem defaulted
    (converges : ConvergesFrom step initial Admissible) :
    ConvergesFrom (fun slot operation => some (step (slot.getD initial) operation))
      none Admissible := by
  intro first second same admissible
  rw [foldl_defaulted, foldl_defaulted, Option.getD_none,
    converges first second same admissible]
  have empty_iff : first = [] ↔ second = [] := by
    simp only [List.eq_nil_iff_forall_not_mem, same _]
  simp only [empty_iff]

theorem getElem?_foldl_alterAt [DecidableEq κ]
    (target : α -> Option κ) (slotStep : Option ν -> α -> Option ν) (operations : List α)
    (store : Std.ExtTreeMap κ ν) (key : κ) :
    (operations.foldl (alterAt target slotStep) store)[key]? =
      (operations.filter fun operation => target operation = some key).foldl
        slotStep store[key]? := by
  induction operations generalizing store with
  | nil => rfl
  | cons operation operations inductionHypothesis =>
      rw [List.foldl_cons, inductionHypothesis, getElem?_alterAt]
      by_cases addressed : target operation = some key
      · simp [addressed]
      · simp [addressed]

/-- Slots that converge one by one make the whole store converge. -/
theorem alterAt {target : α -> Option κ} {slotStep : Option ν -> α -> Option ν}
    (slots : ∀ key, ConvergesFrom slotStep none
      fun operation => Admissible operation ∧ target operation = some key) :
    ConvergesFrom (Convergence.alterAt target slotStep)
      (∅ : Std.ExtTreeMap κ ν) Admissible := by
  classical
  intro first second same admissible
  apply Std.ExtTreeMap.ext_getElem?
  intro key
  rw [getElem?_foldl_alterAt, getElem?_foldl_alterAt, Std.ExtTreeMap.getElem?_empty]
  apply slots key _ _ (same.filter _)
  intro operation member
  obtain ⟨inside, addressed⟩ := List.mem_filter.1 member
  exact ⟨admissible operation inside, of_decide_eq_true addressed⟩

end ConvergesFrom

end Convergence
