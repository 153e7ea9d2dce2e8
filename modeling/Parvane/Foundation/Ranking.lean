import Parvane.Foundation.KeyedList

/-!
# Items in an order

Sorting is stable, and the first items in an order are those with few before them.
-/

/-!
## Stable sorting

Sorting does not change the order of items that are tied.
-/

namespace Parvane
namespace Sorting

variable {α : Type} {le : α -> α -> Bool}

/-- Items that are tied stay as they are. -/
theorem filter_mergeSort
    (transitive : ∀ first second third, le first second -> le second third -> le first third)
    (total : ∀ first second, le first second || le second first) {wanted : α -> Bool}
    (tied : ∀ first second, wanted first = true -> wanted second = true -> le first second)
    (items : List α) : (items.mergeSort le).filter wanted = items.filter wanted := by
  have ordered : (items.filter wanted).Pairwise fun first second => le first second := by
    apply List.Pairwise.imp_of_mem _ (List.pairwise_of_forall fun _ _ => trivial)
    intro first second member otherMember _
    exact tied first second (List.of_mem_filter member) (List.of_mem_filter otherMember)
  have kept := (List.sublist_mergeSort transitive total ordered List.filter_sublist).filter wanted
  rw [List.filter_filter] at kept
  simp only [Bool.and_self] at kept
  refine (kept.eq_of_length ?_).symm
  exact (((List.mergeSort_perm items le).filter wanted).length_eq).symm

/-- The first of the tied items is found in both orders. -/
theorem find?_mergeSort
    (transitive : ∀ first second third, le first second -> le second third -> le first third)
    (total : ∀ first second, le first second || le second first) {wanted : α -> Bool}
    (tied : ∀ first second, wanted first = true -> wanted second = true -> le first second)
    (items : List α) : (items.mergeSort le).find? wanted = items.find? wanted := by
  rw [← List.head?_filter, ← List.head?_filter, filter_mergeSort transitive total tied]

end Sorting
end Parvane

/-!
## The first items in an order

A list is put in the order of a key, and so many items are taken from its front.  An item is
taken exactly if fewer come before it.
-/

namespace Ranking

open Convergence

variable [LinearOrder κ] {key : α -> κ} {items : List α} {item : α}

/-- How many items come before. -/
def before (key : α -> κ) (items : List α) (item : α) : Nat :=
  items.countP fun other => key other < key item

theorem before_perm {others : List α} (same : items.Perm others) :
    before key items item = before key others item :=
  same.countP_eq _

theorem before_cons (first : α) :
    before key (first :: items) item =
      before key items item + if key first < key item then 1 else 0 := by
  rw [before, List.countP_cons, before]
  simp only [decide_eq_true_eq]

/-- In a sorted list the place of an item tells how many come before. -/
theorem mem_take_of_sorted
    (sorted : KeyedList.StrictlySorted key items) (limit : Nat) :
    item ∈ items.take limit ↔ item ∈ items ∧ before key items item < limit := by
  induction items generalizing limit with
  | nil => simp
  | cons first items inductionHypothesis =>
      obtain ⟨least, rest⟩ := List.pairwise_cons.1 sorted
      cases limit with
      | zero => simp
      | succ limit =>
          rw [List.take_succ_cons, List.mem_cons, List.mem_cons, inductionHypothesis rest,
            before_cons]
          constructor
          · rintro (rfl | ⟨member, few⟩)
            · refine ⟨.inl rfl, ?_⟩
              have none : before key items item = 0 := by
                rw [before, List.countP_eq_zero]
                intro other member
                simpa using (least other member).le
              rw [none, if_neg (lt_irrefl _)]
              omega
            · refine ⟨.inr member, ?_⟩
              split <;> omega
          · rintro ⟨rfl | member, few⟩
            · exact .inl rfl
            · rw [if_pos (least item member)] at few
              exact .inr ⟨member, by omega⟩

/-- The keys of a sorted list grow if they are distinct. -/
theorem strictlySorted_insertionSort (distinct : KeyedList.DistinctKeys key items) :
    KeyedList.StrictlySorted key
      (items.insertionSort fun first second => key first ≤ key second) := by
  have permuted := List.perm_insertionSort (fun first second => key first ≤ key second) items
  have sorted := List.pairwise_insertionSort (fun first second => key first ≤ key second) items
  have apart := permuted.symm.pairwise distinct fun different same => different same.symm
  exact (sorted.and apart).imp fun both => lt_of_le_of_ne both.1 both.2

/-- An item is among the first so many exactly if fewer come before it. -/
theorem mem_take_insertionSort
    (distinct : KeyedList.DistinctKeys key items) (limit : Nat) :
    item ∈ (items.insertionSort fun first second => key first ≤ key second).take limit ↔
      item ∈ items ∧ before key items item < limit := by
  rw [mem_take_of_sorted (strictlySorted_insertionSort distinct), List.mem_insertionSort,
    before_perm (List.perm_insertionSort _ _)]

/-- An item does not come before itself. -/
theorem before_lt_length (member : item ∈ items) : before key items item < items.length := by
  apply lt_of_le_of_ne List.countP_le_length
  intro all
  exact lt_irrefl _ (of_decide_eq_true (List.countP_eq_length.1 all item member))

/-- What comes before an item that is among the first is among them too. -/
theorem before_le_of_lt {other : α} (less : key other < key item) :
    before key items other ≤ before key items item := by
  apply List.countP_mono_left
  intro third _ earlier
  exact decide_eq_true ((of_decide_eq_true earlier).trans less)

/-- Strictly sorted lists with the same items are the same. -/
theorem eq_of_strictlySorted {others : List α}
    (sorted : KeyedList.StrictlySorted key items)
    (otherSorted : KeyedList.StrictlySorted key others)
    (same : ∀ item, item ∈ items ↔ item ∈ others) : items = others := by
  have nodup {list : List α} (sorted : KeyedList.StrictlySorted key list) : list.Nodup :=
    sorted.imp fun less equal => less.ne (congrArg key equal)
  have permuted : items.Perm others :=
    (List.perm_ext_iff_of_nodup (nodup sorted) (nodup otherSorted)).2 same
  refine permuted.eq_of_pairwise ?_ sorted otherSorted
  intro first second _ _ less greater
  exact absurd less greater.asymm

end Ranking
