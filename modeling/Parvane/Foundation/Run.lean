import Mathlib.Data.List.Basic
import Mathlib.Data.List.Induction

/-!
# Runs of a labelled transition system

A step leads from a state to a next one and carries a label.  A run is a sequence of
steps; its labels form a list.
-/

/-- The steps of a run, one after the other. -/
inductive Run {σ ι : Type} (step : σ -> ι -> σ -> Prop) : σ -> List ι -> σ -> Prop
  | nil (state : σ) : Run step state [] state
  | cons {state next final : σ} {label : ι} {labels : List ι}
      (first : step state label next)
      (rest : Run step next labels final) :
      Run step state (label :: labels) final

namespace Run

variable {σ ι : Type} {step : σ -> ι -> σ -> Prop} {holds : σ -> Prop}

variable {state final : σ}

/-- What every step keeps, every run keeps. -/
theorem invariant {labels : List ι}
    (run : Run step state labels final)
    (keeps : ∀ state next, ∀ label ∈ labels, step state label next -> holds state -> holds next)
    (initially : holds state) : holds final := by
  induction run with
  | nil state => exact initially
  | cons first rest inductionHypothesis =>
      apply inductionHypothesis
      · intro state next label member
        exact keeps state next label (List.mem_cons_of_mem _ member)
      · exact keeps _ _ _ List.mem_cons_self first initially

theorem append {state middle final : σ} {labels others : List ι}
    (first : Run step state labels middle)
    (second : Run step middle others final) : Run step state (labels ++ others) final := by
  induction first with
  | nil state => exact second
  | cons one rest inductionHypothesis => exact .cons one (inductionHypothesis second)

/-- A run can be cut anywhere. -/
theorem exists_of_append {labels others : List ι}
    (run : Run step state (labels ++ others) final) :
    ∃ middle, Run step state labels middle ∧ Run step middle others final := by
  induction labels generalizing state with
  | nil => exact ⟨state, .nil state, run⟩
  | cons label labels inductionHypothesis =>
      cases run with
      | cons first rest =>
          obtain ⟨middle, left, right⟩ := inductionHypothesis rest
          exact ⟨middle, .cons first left, right⟩

/-- The last step of a kind, if there is one. -/
theorem exists_last {labels : List ι}
    (run : Run step state labels final) (kind : ι -> Bool) :
    (∀ label ∈ labels, kind label = false) ∨
      ∃ before label after earlier later, labels = before ++ label :: after ∧
        Run step state before earlier ∧ step earlier label later ∧ Run step later after final ∧
        kind label = true ∧ ∀ other ∈ after, kind other = false := by
  induction run with
  | nil state => exact .inl (by simp)
  | @cons state next final label labels first rest inductionHypothesis =>
      rcases inductionHypothesis with none | ⟨before, last, after, earlier, later, rfl, run, found⟩
      · by_cases isKind : kind label = true
        · exact .inr ⟨[], label, labels, state, next, rfl, .nil state, first, rest, isKind, none⟩
        · refine .inl fun other member => ?_
          rcases List.mem_cons.1 member with rfl | member
          · exact Bool.eq_false_iff.2 isKind
          · exact none other member
      · exact .inr ⟨label :: before, last, after, earlier, later, rfl, .cons first run, found⟩

/-- Any two states of a run are related exactly if the two ends of every step are. -/
theorem related_iff {related : σ -> σ -> Prop}
    (refl : ∀ state, related state state)
    (trans : ∀ first second third, related first second -> related second third ->
      related first third)
    (start : σ) (labels : List ι) :
    (∀ before during after earlier later, labels = before ++ (during ++ after) ->
        Run step start before earlier -> Run step earlier during later -> related earlier later) ↔
      ∀ before label after earlier later, labels = before ++ label :: after ->
        Run step start before earlier -> step earlier label later -> related earlier later := by
  constructor
  · intro all before label after earlier later split run one
    exact all before [label] after earlier later split run (.cons one (.nil later))
  · intro each before during after earlier later split run more
    induction more generalizing before with
    | nil state => exact refl state
    | @cons state next final label rest first more inductionHypothesis =>
        have here := each before label (rest ++ after) state next split run first
        refine trans state next final here (inductionHypothesis (before ++ [label]) ?_ ?_)
        · rw [split, List.append_assoc]
          rfl
        · exact run.append (.cons first (.nil next))

/-- A run can be computed where the steps can. -/
theorem of_foldlM {next : σ -> ι -> Option σ}
    (sound : ∀ state label later, next state label = some later -> step state label later)
    {labels : List ι}
    (computed : labels.foldlM next state = some final) : Run step state labels final := by
  induction labels generalizing state with
  | nil =>
      cases computed
      exact .nil final
  | cons label labels inductionHypothesis =>
      rw [List.foldlM_cons] at computed
      obtain ⟨later, first, rest⟩ := Option.bind_eq_some_iff.1 computed
      exact .cons (sound state label later first) (inductionHypothesis rest)

end Run

/-!
## Properties of a history

A history is a list that grows at its end.  Here a property of an entry may speak of the
entries before it, which no later entry changes.
-/

namespace History

variable {α : Type} {proper : List α -> α -> Prop} {past : List α} {last : α}

/-- Every entry is proper after those before it. -/
def Each (proper : List α -> α -> Prop) (entries : List α) : Prop :=
  ∀ before entry after, entries = before ++ entry :: after -> proper before entry

/-- A history that ends with an entry is cut there or before. -/
theorem concat_eq_split {before after : List α} {entry : α} :
    past ++ [last] = before ++ entry :: after ↔
      (before = past ∧ entry = last ∧ after = []) ∨
        ∃ rest, after = rest ++ [last] ∧ past = before ++ entry :: rest := by
  constructor
  · intro split
    rcases List.eq_nil_or_concat after with rfl | ⟨rest, final, rfl⟩
    · obtain ⟨same, equal⟩ := List.append_singleton_inj.1 split
      exact .inl ⟨same.symm, equal.symm, rfl⟩
    · rw [List.concat_eq_append, ← List.cons_append, ← List.append_assoc] at split
      obtain ⟨same, rfl⟩ := List.append_singleton_inj.1 split
      exact .inr ⟨rest, List.concat_eq_append, same⟩
  · rintro (⟨rfl, rfl, rfl⟩ | ⟨rest, rfl, rfl⟩)
    · rfl
    · rw [List.append_assoc, List.cons_append]

theorem Each.nil : Each proper [] := by
  intro before entry after split
  simp at split

theorem each_concat : Each proper (past ++ [last]) ↔ Each proper past ∧ proper past last := by
  constructor
  · intro each
    constructor
    · intro before entry after split
      apply each before entry (after ++ [last])
      rw [split, List.append_assoc, List.cons_append]
    · exact each past last [] rfl
  · rintro ⟨each, latest⟩ before entry after split
    rcases concat_eq_split.1 split with ⟨rfl, rfl, -⟩ | ⟨rest, -, split⟩
    · exact latest
    · exact each before entry rest split

end History
