import Mathlib.Data.List.Induction
import Parvane.State.Snapshot

/-!
# When nothing is left to change

The objects of a list by their keys, what the changes between two such maps are, and why
they are gone once they were made.
-/

namespace Parvane.State

open Wire

variable {κ ν : Type} [Ord κ] [Std.TransOrd κ] {key : ν -> Option κ}

section

/-- The last object of a list takes its key. -/
theorem keyed_append_singleton (key : ν -> Option κ) (items : List ν) (item : ν) :
    keyed key (items ++ [item]) =
      match key item with
      | some found => (keyed key items).insert found item
      | none => keyed key items := by
  unfold keyed
  rw [List.filterMap_append, Std.ExtTreeMap.ofList_eq_insertMany_empty,
    Std.ExtTreeMap.ofList_eq_insertMany_empty, Std.ExtTreeMap.insertMany_append]
  cases isKey : key item with
  | none => simp [isKey]
  | some found => simp [isKey]

/-- Some object has the key. -/
theorem getElem?_keyed_isSome {items : List ν} {found : κ} {item : ν}
    (member : item ∈ items)
    (isKey : key item = some found) : ∃ other, (keyed key items)[found]? = some other := by
  induction items using List.reverseRecOn with
  | nil => cases member
  | append_singleton items last inductionHypothesis =>
      rw [keyed_append_singleton]
      rcases List.mem_append.1 member with earlier | isLast
      · obtain ⟨other, isOther⟩ := inductionHypothesis earlier
        split
        · rw [Std.ExtTreeMap.getElem?_insert]
          split
          · exact ⟨_, rfl⟩
          · exact ⟨other, isOther⟩
        · exact ⟨other, isOther⟩
      · cases List.mem_singleton.1 isLast
        rw [isKey]
        exact ⟨item, Std.ExtTreeMap.getElem?_insert_self⟩

variable [Std.LawfulEqOrd κ]

theorem mem_of_getElem?_keyed {items : List ν} {found : κ} {item : ν}
    (isItem : (keyed key items)[found]? = some item) : item ∈ items ∧ key item = some found := by
  induction items using List.reverseRecOn with
  | nil => simp [keyed] at isItem
  | append_singleton items last inductionHypothesis =>
      rw [keyed_append_singleton] at isItem
      have earlier (isItem : (keyed key items)[found]? = some item) :
          item ∈ items ++ [last] ∧ key item = some found :=
        (inductionHypothesis isItem).imp_left (List.mem_append_left _)
      split at isItem
      · next other isKey =>
        rw [Std.ExtTreeMap.getElem?_insert] at isItem
        split at isItem
        · next same =>
          cases isItem
          rw [← Std.LawfulEqOrd.compare_eq_iff_eq.1 same]
          exact ⟨by simp, isKey⟩
        · exact earlier isItem
      · exact earlier isItem

/-- The objects of a list by their keys, when no two objects have one key. -/
theorem getElem?_keyed_eq {items : List ν} {at_ : κ -> Option ν}
    (listed : ∀ item, item ∈ items ↔ ∃ found, at_ found = some item)
    (named : ∀ found item, at_ found = some item -> key item = some found) (found : κ) :
    (keyed key items)[found]? = at_ found := by
  cases isItem : (keyed key items)[found]? with
  | some item =>
      obtain ⟨member, isKey⟩ := mem_of_getElem?_keyed isItem
      obtain ⟨other, isAt⟩ := (listed item).1 member
      have same := (named other item isAt).symm.trans isKey
      cases same
      exact isAt.symm
  | none =>
      cases isAt : at_ found with
      | none => rfl
      | some item =>
          obtain ⟨other, isOther⟩ :=
            getElem?_keyed_isSome ((listed item).2 ⟨found, isAt⟩) (named found item isAt)
          cases isItem.symm.trans isOther

end

section

variable [Std.LawfulEqOrd κ] {differs : κ -> Option ν -> ν -> Bool} {set : ν -> Op} {remove : κ -> ν -> Op}
  {current want : Std.ExtTreeMap κ ν}

theorem mem_changes {kind : Op} :
    kind ∈ changes differs set remove current want ↔
      (∃ (found : κ) (item : ν), want[found]? = some item ∧
        differs found current[found]? item = true ∧ set item = kind) ∨
      ∃ (found : κ) (item : ν), current[found]? = some item ∧ want[found]? = none ∧
        remove found item = kind := by
  simp only [changes, List.mem_append, List.mem_map, List.mem_filter, Prod.exists,
    Std.ExtTreeMap.mem_toList_iff_getElem?_eq_some, Bool.not_eq_true',
    Std.ExtTreeMap.contains_eq_isSome_getElem?, Option.isSome_eq_false_iff,
    Option.isNone_iff_eq_none, and_assoc]

theorem changes_eq_nil :
    changes differs set remove current want = [] ↔
      (∀ (found : κ) (item : ν), want[found]? = some item ->
        differs found current[found]? item = false) ∧
        ∀ (found : κ) (item : ν), current[found]? = some item -> want[found]? ≠ none := by
  rw [List.eq_nil_iff_forall_not_mem]
  simp only [mem_changes]
  constructor
  · intro none
    refine ⟨fun found item isItem => ?_, fun found item isItem missing => ?_⟩
    · cases isDifferent : differs found current[found]? item with
      | false => rfl
      | true => exact absurd (.inl ⟨found, item, isItem, isDifferent, rfl⟩) (none (set item))
    · exact none (remove found item) (.inr ⟨found, item, isItem, missing, rfl⟩)
  · rintro ⟨same, wanted⟩ kind
      (⟨found, item, isItem, isDifferent, -⟩ | ⟨found, item, isItem, missing, -⟩)
    · rw [same found item isItem] at isDifferent
      cases isDifferent
    · exact wanted found item isItem missing

/-- Once every change was made, and nothing else, there is nothing left to change. -/
theorem changes_settle
    (differs : κ -> Option ν -> ν -> Bool) (current : Std.ExtTreeMap κ ν)
    (write : Op -> Option (κ × Option ν))
    (stored : ν -> ν) (Open : κ -> Prop) {after : Std.ExtTreeMap κ ν}
    (sets : ∀ (found : κ) (item : ν), want[found]? = some item ->
      differs found current[found]? item = true ->
        Open found ∧ write (set item) = some (found, some (stored item)))
    (removes : ∀ (found : κ) (item : ν), current[found]? = some item ->
      Open found ∧ write (remove found item) = some (found, none))
    (written : ∀ found value,
      Open found ->
      (∃ kind ∈ changes differs set remove current want, write kind = some (found, value)) ->
      (∀ kind ∈ changes differs set remove current want, ∀ other,
        write kind = some (found, other) -> other = value) ->
      after[found]? = value)
    (unwritten : ∀ found,
      (∀ kind ∈ changes differs set remove current want, ∀ value,
        write kind ≠ some (found, value)) -> after[found]? = current[found]?)
    {differsAfter : κ -> Option ν -> ν -> Bool}
    (settled : ∀ found item, differsAfter found (some (stored item)) item = false)
    (alike : ∀ (found : κ) (item : ν), differsAfter found current[found]? item =
      differs found current[found]? item) : changes differsAfter set remove after want = [] := by
  -- Every change of a key writes the same value.
  have unique (found kind value) (member : kind ∈ changes differs set remove current want)
      (isWritten : write kind = some (found, value)) :
      (∃ item, want[found]? = some item ∧ differs found current[found]? item = true ∧
          value = some (stored item)) ∨
        ∃ item, current[found]? = some item ∧ want[found]? = none ∧ value = none := by
    rcases mem_changes.1 member with
      ⟨other, item, isItem, isDifferent, rfl⟩ | ⟨other, item, isItem, missing, rfl⟩
    · rw [(sets other item isItem isDifferent).2] at isWritten
      cases isWritten
      exact .inl ⟨item, isItem, isDifferent, rfl⟩
    · rw [(removes other item isItem).2] at isWritten
      cases isWritten
      exact .inr ⟨item, isItem, missing, rfl⟩
  rw [changes_eq_nil]
  refine ⟨fun found item isItem => ?_, fun found item isItem missing => ?_⟩
  · cases isDifferent : differs found current[found]? item with
    | true =>
        obtain ⟨isOpen, isWritten⟩ := sets found item isItem isDifferent
        have member : set item ∈ changes differs set remove current want :=
          mem_changes.2 (.inl ⟨found, item, isItem, isDifferent, rfl⟩)
        rw [written found (some (stored item)) isOpen ⟨_, member, isWritten⟩, settled]
        intro kind member other isOther
        rcases unique found kind other member isOther with
          ⟨second, isSecond, -, rfl⟩ | ⟨second, -, missing, -⟩
        · cases isItem.symm.trans isSecond
          rfl
        · cases isItem.symm.trans missing
    | false =>
        rw [unwritten found, alike, isDifferent]
        intro kind member value isWritten
        rcases unique found kind value member isWritten with
          ⟨second, isSecond, isOther, -⟩ | ⟨second, -, missing, -⟩
        · cases isItem.symm.trans isSecond
          cases isDifferent.symm.trans isOther
        · cases isItem.symm.trans missing
  · cases before : current[found]? with
    | some old =>
        obtain ⟨isOpen, isWritten⟩ := removes found old before
        have member : remove found old ∈ changes differs set remove current want :=
          mem_changes.2 (.inr ⟨found, old, before, missing, rfl⟩)
        rw [written found none isOpen ⟨_, member, isWritten⟩] at isItem
        · cases isItem
        · intro kind member other isOther
          rcases unique found kind other member isOther with
            ⟨second, isSecond, -, -⟩ | ⟨second, -, -, rfl⟩
          · cases missing.symm.trans isSecond
          · rfl
    | none =>
        rw [unwritten found, before] at isItem
        · cases isItem
        · intro kind member value isWritten
          rcases unique found kind value member isWritten with
            ⟨second, isSecond, -, -⟩ | ⟨second, isSecond, -, -⟩
          · cases missing.symm.trans isSecond
          · cases before.symm.trans isSecond

end

end Parvane.State
