import Mathlib.Data.List.Basic

/-!
# Sweeping candidates

Candidates come in blocks, one after another.  They are visited in their order until one of
them is too late; those that are too early are passed over.  When lateness is kept along the
order, all candidates that are neither too early nor too late are visited.
-/

namespace Sweeping

section

variable (late early : α -> Bool) (stops : α -> Bool)

/-- Visit the candidates of a block, and say whether to go on after it.  A visit may stop the
sweep. -/
def collect : List α -> List α × Bool
  | [] => ([], true)
  | candidate :: rest =>
      if late candidate then ([], false)
      else if early candidate then collect rest
      else if stops candidate then ([candidate], false)
      else (candidate :: (collect rest).1, (collect rest).2)

/-- Visit block after block, from the given one on; the sweep may not be done after the given
number of rounds. -/
def sweep (halts : Nat -> Bool) (block : Nat -> List α) : Nat -> Nat -> Option (List α)
  | 0, _ => none
  | rounds + 1, index =>
      if halts index then some []
      else
        let (visited, goesOn) := collect late early stops (block index)
        if goesOn then (sweep halts block rounds (index + 1)).map (visited ++ ·)
        else some visited

end

variable {late early : α -> Bool} {halts : Nat -> Bool} {block : Nat -> List α}
  {before : α -> α -> Prop}

/-- The candidates are in order, and from a late one on all are late. -/
structure InOrder (before : α -> α -> Prop) (late : α -> Bool) (halts : Nat -> Bool)
    (block : Nat -> List α) : Prop where
  within : ∀ index, (block index).Pairwise before
  across : ∀ index next, index < next -> ∀ first ∈ block index, ∀ second ∈ block next,
    before first second
  staysLate : ∀ first second, before first second -> late first = true -> late second = true
  halted : ∀ index next, halts index = true -> index ≤ next -> ∀ candidate ∈ block next,
    late candidate = true

/-- Without stops, the candidates of a block that are neither too early nor too late are
visited. -/
theorem collect_eq
    (staysLate : ∀ first second, before first second -> late first = true -> late second = true)
    {candidates : List α} (inOrder : candidates.Pairwise before) :
    collect late early (fun _ => false) candidates =
      (candidates.filter fun candidate => !late candidate && !early candidate,
        candidates.all fun candidate => !late candidate) := by
  induction candidates with
  | nil => rfl
  | cons candidate rest inductionHypothesis =>
      obtain ⟨first, others⟩ := List.pairwise_cons.1 inOrder
      rw [collect, inductionHypothesis others]
      cases isLate : late candidate with
      | true =>
          have allLate :
              rest.filter (fun candidate => !late candidate && !early candidate) = [] := by
            rw [List.filter_eq_nil_iff]
            intro other member
            rw [staysLate candidate other (first other member) isLate]
            exact Bool.false_ne_true
          simp [isLate, allLate]
      | false => cases isEarly : early candidate <;> simp [isLate, isEarly]

/-- The candidates from a block on that are neither too early nor too late, in order. -/
def Swept (before : α -> α -> Prop) (late early : α -> Bool) (block : Nat -> List α)
    (index : Nat) (visited : List α) : Prop :=
  visited.Pairwise before ∧ ∀ candidate, candidate ∈ visited ↔
    (∃ later ≥ index, candidate ∈ block later) ∧ late candidate = false ∧ early candidate = false

section

variable {index : Nat}

section

variable (inOrder : InOrder before late halts block)

include inOrder

theorem InOrder.swept_halted
    (halted : halts index = true) : Swept before late early block index [] := by
  refine ⟨List.Pairwise.nil, fun candidate => ⟨fun member => absurd member List.not_mem_nil, ?_⟩⟩
  rintro ⟨⟨later, le, member⟩, notLate, -⟩
  rw [inOrder.halted index later halted le candidate member] at notLate
  cases notLate

/-- Behind a late candidate there is nothing to visit. -/
theorem InOrder.swept_last
    {last : α} (member : last ∈ block index)
    (isLate : late last = true) :
    Swept before late early block index
      ((block index).filter fun candidate => !late candidate && !early candidate) := by
  refine ⟨(inOrder.within index).filter _, fun candidate => ?_⟩
  rw [List.mem_filter, Bool.and_eq_true, Bool.not_eq_true', Bool.not_eq_true']
  constructor
  · rintro ⟨inBlock, inTime⟩
    exact ⟨⟨index, Nat.le_refl _, inBlock⟩, inTime⟩
  · rintro ⟨⟨later, le, inLater⟩, inTime⟩
    rcases Nat.eq_or_lt_of_le le with rfl | behind
    · exact ⟨inLater, inTime⟩
    · have after := inOrder.across index later behind last member candidate inLater
      rw [inOrder.staysLate last candidate after isLate] at inTime
      exact absurd inTime.1.symm Bool.false_ne_true

theorem InOrder.swept_next
    {others : List α}
    (swept : Swept before late early block (index + 1) others) :
    Swept before late early block index
      ((block index).filter (fun candidate => !late candidate && !early candidate) ++ others) := by
  obtain ⟨sorted, members⟩ := swept
  constructor
  · rw [List.pairwise_append]
    refine ⟨(inOrder.within index).filter _, sorted, ?_⟩
    intro first firstMember second secondMember
    obtain ⟨⟨later, behind, inLater⟩, -⟩ := (members second).1 secondMember
    exact inOrder.across index later behind first (List.mem_filter.1 firstMember).1 second inLater
  · intro candidate
    rw [List.mem_append, List.mem_filter, Bool.and_eq_true, Bool.not_eq_true', Bool.not_eq_true',
      members]
    constructor
    · rintro (⟨inBlock, both⟩ | ⟨⟨later, behind, inLater⟩, both⟩)
      · exact ⟨⟨index, Nat.le_refl _, inBlock⟩, both⟩
      · exact ⟨⟨later, Nat.le_of_succ_le behind, inLater⟩, both⟩
    · rintro ⟨⟨later, le, inLater⟩, both⟩
      rcases Nat.eq_or_lt_of_le le with rfl | behind
      · exact .inl ⟨inLater, both⟩
      · exact .inr ⟨⟨later, behind, inLater⟩, both⟩

end

end

/-- A sweep that comes to its end visits exactly the candidates that are neither too early nor
too late, in order. -/
theorem InOrder.exists_sweep
    (inOrder : InOrder before late halts block) {index last : Nat} (le : index ≤ last)
    (ends : halts last = true ∨ ∃ candidate ∈ block last, late candidate = true) :
    ∃ rounds visited,
      sweep late early (fun _ => false) halts block rounds index = some visited ∧
        Swept before late early block index visited := by
  obtain ⟨distance, rfl⟩ := Nat.exists_eq_add_of_le le
  clear le
  induction distance generalizing index with
  | zero =>
      cases isHalted : halts index with
      | true =>
          exact ⟨1, [], by rw [sweep, if_pos isHalted], inOrder.swept_halted isHalted⟩
      | false =>
          rw [Nat.add_zero, isHalted] at ends
          obtain ⟨candidate, member, isLate⟩ := ends.resolve_left Bool.false_ne_true
          refine ⟨1, _, ?_, inOrder.swept_last member isLate⟩
          have notAll : (block index).all (fun candidate => !late candidate) = false := by
            rw [List.all_eq_false]
            exact ⟨candidate, member, by simp [isLate]⟩
          rw [sweep, isHalted, collect_eq inOrder.staysLate (inOrder.within index), notAll]
          rfl
  | succ distance inductionHypothesis =>
      cases isHalted : halts index with
      | true =>
          exact ⟨1, [], by rw [sweep, if_pos isHalted], inOrder.swept_halted isHalted⟩
      | false =>
          cases all : (block index).all fun candidate => !late candidate with
          | true =>
              rw [show index + (distance + 1) = index + 1 + distance by omega] at ends
              obtain ⟨rounds, others, swept, correct⟩ := inductionHypothesis ends
              refine ⟨rounds + 1, _, ?_, inOrder.swept_next correct⟩
              rw [sweep, isHalted, collect_eq inOrder.staysLate (inOrder.within index), all]
              simp [swept]
          | false =>
              obtain ⟨candidate, member, isLate⟩ := List.all_eq_false.1 all
              rw [Bool.not_eq_true, Bool.not_eq_false'] at isLate
              refine ⟨1, _, ?_, inOrder.swept_last member isLate⟩
              rw [sweep, isHalted, collect_eq inOrder.staysLate (inOrder.within index), all]
              rfl

/-- More rounds do not change what was visited. -/
theorem sweep_mono {stops : α -> Bool} {rounds more index : Nat} {visited : List α}
    (done : sweep late early stops halts block rounds index = some visited)
    (le : rounds ≤ more) : sweep late early stops halts block more index = some visited := by
  induction rounds generalizing more index visited with
  | zero => cases done
  | succ rounds inductionHypothesis =>
      obtain ⟨more, rfl⟩ := Nat.exists_eq_add_of_le' (Nat.le_trans (Nat.succ_pos rounds) le)
      rw [sweep] at done ⊢
      split
      · next isHalted => rwa [if_pos isHalted] at done
      · next notHalted =>
          rw [if_neg notHalted] at done
          dsimp only at done ⊢
          split
          · next goesOn =>
              rw [if_pos goesOn] at done
              obtain ⟨others, swept, isVisited⟩ := Option.map_eq_some_iff.1 done
              rw [inductionHypothesis swept (Nat.le_of_succ_le_succ le), Option.map_some, isVisited]
          · next stopped => rwa [if_neg stopped] at done

end Sweeping
