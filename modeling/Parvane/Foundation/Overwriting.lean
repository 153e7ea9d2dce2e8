import Parvane.Foundation.Convergence

/-!
# Slots that are overwritten

A strong offer overwrites what a slot holds, a weak offer only fills an empty slot.  What is
held in the end depends on the order of the offers, unless those that may decide agree.
-/

namespace Convergence

variable {α ν : Type}

/-- Make a strong and then a weak offer to a slot. -/
def overwrite (strong weak : α -> Option ν) (slot : Option ν) (offer : α) : Option ν :=
  (strong offer).or (slot.or (weak offer))

/-- All offers of a kind are equal. -/
def Agree (view : α -> Option ν) (offers : List α) : Prop :=
  ∀ first ∈ offers, ∀ second ∈ offers, ∀ one ∈ view first, ∀ other ∈ view second, one = other

theorem agree_none (offers : List α) : Agree (fun _ => (none : Option ν)) offers := by
  intro _ _ _ _ _ isOne
  cases isOne

theorem agree_singleton (view : α -> Option ν) (offer : α) : Agree view [offer] := by
  intro first inFirst second inSecond one isOne other isOther
  cases List.mem_singleton.1 inFirst
  cases List.mem_singleton.1 inSecond
  exact Option.some.inj (isOne.symm.trans isOther)

/-- What agreeing offers offer first does not depend on their order. -/
theorem Agree.findSome?_eq {view : α -> Option ν} {first second : List α}
    (agree : Agree view first)
    (same : SameMembers first second) : first.findSome? view = second.findSome? view := by
  cases found : first.findSome? view with
  | none =>
      symm
      rw [List.findSome?_eq_none_iff] at found ⊢
      exact fun offer member => found offer ((same offer).2 member)
  | some value =>
      obtain ⟨offer, member, offered⟩ := List.exists_of_findSome?_eq_some found
      cases other : second.findSome? view with
      | none =>
          rw [List.findSome?_eq_none_iff.1 other offer ((same offer).1 member)] at offered
          cases offered
      | some otherValue =>
          obtain ⟨otherOffer, inSecond, otherOffered⟩ := List.exists_of_findSome?_eq_some other
          rw [agree offer member otherOffer ((same otherOffer).2 inSecond) value offered otherValue
            otherOffered]

section

variable {strong weak : α -> Option ν}

/-- Without strong offers a slot keeps what it holds, or takes the first weak offer. -/
theorem foldl_overwrite_of_weak {offers : List α}
    (none : ∀ offer ∈ offers, strong offer = none) (slot : Option ν) :
    offers.foldl (overwrite strong weak) slot = slot.or (offers.findSome? weak) := by
  induction offers generalizing slot with
  | nil => simp
  | cons offer offers inductionHypothesis =>
      obtain ⟨first, rest⟩ := List.forall_mem_cons.1 none
      rw [List.foldl_cons, inductionHypothesis rest, overwrite, first, Option.none_or,
        List.findSome?_cons]
      cases slot with
      | some value => rfl
      | none => cases weak offer <;> rfl

/-- Strong offers of one value make the slot hold it. -/
theorem foldl_overwrite_of_strong {offers : List α} {value : ν}
    (only : ∀ offer ∈ offers, ∀ one ∈ strong offer, one = value) {slot : Option ν}
    (offered : slot = some value ∨ ∃ offer ∈ offers, strong offer = some value) :
    offers.foldl (overwrite strong weak) slot = some value := by
  induction offers generalizing slot with
  | nil => simpa using offered
  | cons offer offers inductionHypothesis =>
      obtain ⟨first, rest⟩ := List.forall_mem_cons.1 only
      apply inductionHypothesis rest
      rw [overwrite]
      cases found : strong offer with
      | some one =>
          rw [first one found]
          exact .inl rfl
      | none =>
          rcases offered with rfl | ⟨one, member, isOne⟩
          · exact .inl rfl
          · rcases List.mem_cons.1 member with rfl | later
            · rw [found] at isOne
              cases isOne
            · exact .inr ⟨one, later, isOne⟩

/-- The slot holds the same after the same offers in another order, if the offers that decide
agree. -/
theorem foldl_overwrite_eq {first second : List α} {slot : Option ν}
    (same : SameMembers first second) (strongs : Agree strong first)
    (weaks : slot = none -> (∀ offer ∈ first, strong offer = none) -> Agree weak first) :
    first.foldl (overwrite strong weak) slot = second.foldl (overwrite strong weak) slot := by
  by_cases none : ∀ offer ∈ first, strong offer = none
  · rw [foldl_overwrite_of_weak none,
      foldl_overwrite_of_weak fun offer member => none offer ((same offer).2 member)]
    cases slot with
    | some value => rfl
    | none => rw [(weaks rfl none).findSome?_eq same]
  · push Not at none
    obtain ⟨offer, member, some_⟩ := none
    obtain ⟨value, offered⟩ := Option.ne_none_iff_exists'.1 some_
    have only (offers : List α) (subset : ∀ one ∈ offers, one ∈ first) :
        ∀ other ∈ offers, ∀ one ∈ strong other, one = value :=
      fun other inOffers one isOne => strongs other (subset other inOffers) offer member one isOne
        value offered
    rw [foldl_overwrite_of_strong (only first fun _ => id) (.inr ⟨offer, member, offered⟩),
      foldl_overwrite_of_strong (only second fun one => (same one).2)
        (.inr ⟨offer, (same offer).1 member, offered⟩)]

end

end Convergence
