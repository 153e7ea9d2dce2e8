import Mathlib.Data.List.Basic

/-!
# The first items of keys

Items are looked up by keys, and only the first item of a key is found and changed.  Changing the
first items of all keys at once leaves the others as they are.
-/

namespace Parvane.Firsts

section

variable {α κ : Type} [DecidableEq κ] {key : α -> κ} {change later : α -> α} {seen : List κ}
  {items others : List α} {item other : α} {wanted : κ} {keep : α -> Bool}

/-- The first item with a key. -/
def lookup (key : α -> κ) (wanted : κ) (items : List α) : Option α :=
  items.find? fun item => key item == wanted

/-- Change the first item of every key that was not seen before. -/
def mapFirsts (key : α -> κ) (change : α -> α) (seen : List κ) (items : List α) : List α :=
  match items with
  | [] => []
  | item :: rest =>
      (if key item ∈ seen then item else change item) ::
        mapFirsts key change (key item :: seen) rest

theorem lookup_cons_self (item : α) (items : List α) :
    lookup key (key item) (item :: items) = some item := by
  unfold lookup
  rw [List.find?_cons, beq_self_eq_true]

theorem lookup_cons_ne (isOther : key item ≠ wanted) :
    lookup key wanted (item :: items) = lookup key wanted items := by
  unfold lookup
  rw [List.find?_cons, beq_false_of_ne isOther]

theorem key_of_lookup (found : lookup key wanted items = some item) : key item = wanted := by
  unfold lookup at found
  exact beq_iff_eq.1 (@List.find?_some _ (fun item => key item == wanted) _ _ found)

/-- What is changed at a place, whether its key was seen or not. -/
theorem key_ite
    (keepsKey : ∀ item, key (change item) = key item)
    (item : α)
    (seen : List κ) : key (if key item ∈ seen then item else change item) = key item := by
  split
  case isTrue => rfl
  case isFalse => exact keepsKey item

theorem mapFirsts_congr
    (same : ∀ item ∈ items, change item = later item) :
    mapFirsts key change seen items = mapFirsts key later seen items := by
  induction items generalizing seen with
  | nil => rfl
  | cons item rest inductionHypothesis =>
      rw [mapFirsts, mapFirsts, same item List.mem_cons_self,
        inductionHypothesis fun other member => same other (List.mem_cons_of_mem _ member)]

theorem mapFirsts_eq_self (same : ∀ item ∈ items, key item ∈ seen ∨ change item = item) :
    mapFirsts key change seen items = items := by
  induction items generalizing seen with
  | nil => rfl
  | cons item rest inductionHypothesis =>
      have tail := @inductionHypothesis (key item :: seen) fun other member =>
        (same other (List.mem_cons_of_mem _ member)).imp_left (List.mem_cons_of_mem _)
      rw [mapFirsts, tail]
      congr 1
      rcases same item List.mem_cons_self with wasSeen | unchanged
      · exact if_pos wasSeen
      · rw [unchanged, ite_self]

/-- Two changes of the first items are one. -/
theorem mapFirsts_mapFirsts (keepsKey : ∀ item, key (change item) = key item) :
    mapFirsts key later seen (mapFirsts key change seen items) =
      mapFirsts key (fun item => later (change item)) seen items := by
  induction items generalizing seen with
  | nil => rfl
  | cons item rest inductionHypothesis =>
      rw [mapFirsts, mapFirsts, key_ite keepsKey, inductionHypothesis, mapFirsts]
      congr 1
      split
      case isTrue => rfl
      case isFalse => rfl

theorem mapFirsts_append :
    mapFirsts key change seen (items ++ others) =
      mapFirsts key change seen items ++
        mapFirsts key change ((items.map key).reverse ++ seen) others := by
  induction items generalizing seen with
  | nil => rfl
  | cons item rest inductionHypothesis =>
      rw [List.cons_append, mapFirsts, inductionHypothesis, mapFirsts, List.map_cons,
        List.reverse_cons, List.append_assoc, List.cons_append, List.singleton_append]

theorem filter_cons_eq_iff (same : keep item = keep other) :
    (item :: items).filter keep = (other :: others).filter keep ↔
      (keep other = true -> item = other) ∧ items.filter keep = others.filter keep := by
  rw [List.filter_cons, List.filter_cons, same]
  cases keep other with
  | false => simp
  | true => simp

/-- The items that are kept are as before exactly when the change leaves the first of them. -/
theorem filter_mapFirsts_eq_iff (keeps : ∀ item, keep (change item) = keep item) :
    (mapFirsts key change seen items).filter keep = items.filter keep ↔
      ∀ wanted ∉ seen, ∀ item, lookup key wanted items = some item -> keep item = true ->
        change item = item := by
  induction items generalizing seen with
  | nil =>
      refine iff_of_true rfl fun wanted _ item found => ?_
      cases found
  | cons head rest inductionHypothesis =>
      have sameKeep : keep (if key head ∈ seen then head else change head) = keep head := by
        split
        case isTrue => rfl
        case isFalse => exact keeps head
      rw [mapFirsts, filter_cons_eq_iff sameKeep, inductionHypothesis]
      constructor
      · rintro ⟨atHead, atRest⟩ wanted isNew item found isKept
        by_cases isHead : key head = wanted
        · subst isHead
          rw [lookup_cons_self] at found
          cases found
          rw [if_neg isNew] at atHead
          exact atHead isKept
        · rw [lookup_cons_ne isHead] at found
          refine atRest wanted ?_ item found isKept
          rw [List.mem_cons, not_or]
          exact ⟨Ne.symm isHead, isNew⟩
      · intro atFirsts
        constructor
        · intro isKept
          split
          case isTrue => rfl
          case isFalse isNew => exact atFirsts (key head) isNew head (lookup_cons_self _ _) isKept
        · intro wanted isNew item found isKept
          rw [List.mem_cons, not_or] at isNew
          refine atFirsts wanted isNew.2 item ?_ isKept
          rw [lookup_cons_ne (Ne.symm isNew.1), found]

/-- What is looked up is what is changed, or the item itself when its key was seen. -/
theorem lookup_mapFirsts
    (keepsKey : ∀ item, key (change item) = key item) :
    lookup key wanted (mapFirsts key change seen items) =
      (lookup key wanted items).map fun item => if wanted ∈ seen then item else change item := by
  induction items generalizing seen with
  | nil => rfl
  | cons head rest inductionHypothesis =>
      have sameKey := key_ite keepsKey head seen
      rw [mapFirsts]
      by_cases isHead : key head = wanted
      · subst isHead
        have found := @lookup_cons_self _ _ _ key
          (if key head ∈ seen then head else change head) (mapFirsts key change (key head :: seen) rest)
        rw [sameKey] at found
        rw [found, lookup_cons_self, Option.map_some]
      · rw [lookup_cons_ne (by rwa [sameKey]), lookup_cons_ne isHead, inductionHypothesis]
        simp only [List.mem_cons, Ne.symm isHead, false_or]

/-- Behind a first item that is not kept, nothing of its key is changed. -/
theorem lookup_filter_mapFirsts
    (keepsKey : ∀ item, key (change item) = key item)
    (keeps : ∀ item, keep (change item) = keep item)
    (unchanged : wanted ∈ seen ∨
      ∀ item, lookup key wanted items = some item -> keep item = false) :
    lookup key wanted ((mapFirsts key change seen items).filter keep) =
      lookup key wanted (items.filter keep) := by
  induction items generalizing seen with
  | nil => rfl
  | cons head rest inductionHypothesis =>
      have sameKey := key_ite keepsKey head seen
      have sameKeep : keep (if key head ∈ seen then head else change head) = keep head := by
        split
        case isTrue => rfl
        case isFalse => exact keeps head
      rw [mapFirsts, List.filter_cons, List.filter_cons, sameKeep]
      by_cases isHead : key head = wanted
      · subst isHead
        have tail := @inductionHypothesis (key head :: seen) (.inl List.mem_cons_self)
        rcases unchanged with wasSeen | dropped
        · rw [if_pos wasSeen]
          split
          case isTrue => rw [lookup_cons_self, lookup_cons_self]
          case isFalse => exact tail
        · rw [dropped head (lookup_cons_self _ _), if_neg Bool.false_ne_true,
            if_neg Bool.false_ne_true, tail]
      · rw [lookup_cons_ne isHead] at unchanged
        have tail := @inductionHypothesis (key head :: seen)
          (unchanged.imp_left (List.mem_cons_of_mem _))
        split
        case isTrue => rw [lookup_cons_ne (by rwa [sameKey]), lookup_cons_ne isHead, tail]
        case isFalse => exact tail

end

end Parvane.Firsts
