import Parvane.Foundation.Convergence
import Mathlib.Data.List.Sort

/-!
# Lists used as keyed stores

Some records hold a list of entries with distinct keys, kept in the order of the
keys.  New values are merged into the entry of their key or put at the end, and
the list is sorted afterwards.  Such a list is determined by its lookups, so it
converges when its entries do.
-/

namespace Convergence.KeyedList

section

variable [LinearOrder κ] (key : ν -> κ)

/-- The first entry with a key. -/
def lookup (wanted : κ) (list : List ν) : Option ν :=
  list.find? fun entry => key entry = wanted

/-- Merge a value into the first entry of its key, or put it at the end. -/
def upsert (join : ν -> ν -> ν) (fresh : ν -> ν) : List ν -> ν -> List ν
  | [], value => [fresh value]
  | entry :: entries, value =>
      if key entry = key value then join entry value :: entries
      else entry :: upsert join fresh entries value

/-- Put the entries in the order of their keys. -/
def sort (list : List ν) : List ν :=
  list.insertionSort fun first second => key first ≤ key second

/-- Merge values one by one and sort. -/
def mergeAll
    (join : ν -> ν -> ν) (fresh : ν -> ν) (list values : List ν) : List ν :=
  sort key (values.foldl (upsert key join fresh) list)

/-- What merging does to the entry of one key. -/
def slotStep (join : ν -> ν -> ν) (fresh : ν -> ν) (slot : Option ν) (value : ν) : Option ν :=
  match slot with
  | none => some (fresh value)
  | some entry => some (join entry value)

/-- No key occurs twice. -/
def DistinctKeys (list : List ν) : Prop :=
  list.Pairwise fun first second => key first ≠ key second

/-- The keys grow along the list. -/
def StrictlySorted (list : List ν) : Prop :=
  list.Pairwise fun first second => key first < key second

variable {key}

variable {list : List ν}

theorem StrictlySorted.distinctKeys
    (sorted : StrictlySorted key list) : DistinctKeys key list :=
  sorted.imp fun less => less.ne

theorem lookup_eq_some_iff
    (distinct : DistinctKeys key list) {entry : ν} :
    lookup key (key entry) list = some entry ↔ entry ∈ list := by
  induction list with
  | nil => simp [lookup]
  | cons head list inductionHypothesis =>
      obtain ⟨headDistinct, tailDistinct⟩ := List.pairwise_cons.1 distinct
      by_cases same : key head = key entry
      · have notLater : entry ∉ list := fun member => headDistinct entry member same
        simp [lookup, same, notLater, eq_comm]
      · have different : entry ≠ head := fun equal => same (by rw [equal])
        have tail := inductionHypothesis tailDistinct
        simp only [lookup] at tail
        simp [lookup, same, different, tail]

/-- A list with distinct growing keys is determined by its lookups. -/
theorem ext_of_lookup {first second : List ν}
    (firstSorted : StrictlySorted key first) (secondSorted : StrictlySorted key second)
    (lookups : ∀ wanted, lookup key wanted first = lookup key wanted second) : first = second := by
  have members : ∀ entry, entry ∈ first ↔ entry ∈ second := by
    intro entry
    rw [← lookup_eq_some_iff firstSorted.distinctKeys,
      ← lookup_eq_some_iff secondSorted.distinctKeys, lookups]
  have nodup {list : List ν} (sorted : StrictlySorted key list) : list.Nodup :=
    sorted.imp fun less equal => less.ne (congrArg key equal)
  have permuted : first.Perm second :=
    (List.perm_ext_iff_of_nodup (nodup firstSorted) (nodup secondSorted)).2 members
  refine permuted.eq_of_pairwise ?_ firstSorted secondSorted
  intro left right _ _ less greater
  exact absurd less greater.asymm

variable {join : ν -> ν -> ν} {fresh : ν -> ν}

section

variable (key_join : ∀ entry value, key entry = key value -> key (join entry value) = key value)

include key_join

section

variable (key_fresh : ∀ value, key (fresh value) = key value)

include key_fresh

theorem lookup_upsert
    (list : List ν) (value : ν) (wanted : κ) :
    lookup key wanted (upsert key join fresh list value) =
      if key value = wanted then slotStep join fresh (lookup key wanted list) value
      else lookup key wanted list := by
  induction list with
  | nil =>
      by_cases addressed : key value = wanted
      · simp [upsert, lookup, key_fresh, addressed, slotStep]
      · simp [upsert, lookup, key_fresh, addressed]
  | cons head list inductionHypothesis =>
      simp only [lookup] at inductionHypothesis
      by_cases same : key head = key value
      · have joined := key_join head value same
        by_cases addressed : key value = wanted
        · simp [upsert, lookup, same, joined, addressed, slotStep]
        · simp [upsert, lookup, same, joined, addressed]
      · by_cases found : key head = wanted
        · have other : key value ≠ wanted := fun equal => same (found.trans equal.symm)
          rw [upsert, if_neg same, if_neg other]
          simp [lookup, found]
        · simp only [upsert, same, if_false, lookup, List.find?_cons, found, decide_false]
          exact inductionHypothesis

theorem mem_keys_upsert
    {value entry : ν} (member : entry ∈ upsert key join fresh list value) :
    key entry = key value ∨ ∃ old ∈ list, key old = key entry := by
  induction list with
  | nil =>
      rw [upsert, List.mem_singleton] at member
      rw [member]
      exact .inl (key_fresh value)
  | cons head list inductionHypothesis =>
      rw [upsert] at member
      split at member
      · next same =>
          rcases List.mem_cons.1 member with rfl | inTail
          · exact .inl (key_join head value same)
          · exact .inr ⟨entry, List.mem_cons_of_mem _ inTail, rfl⟩
      · rcases List.mem_cons.1 member with rfl | inTail
        · exact .inr ⟨entry, List.mem_cons_self, rfl⟩
        · rcases inductionHypothesis inTail with addressed | ⟨old, oldMember, oldKey⟩
          · exact .inl addressed
          · exact .inr ⟨old, List.mem_cons_of_mem _ oldMember, oldKey⟩

theorem DistinctKeys.upsert
    (distinct : DistinctKeys key list) (value : ν) :
    DistinctKeys key (KeyedList.upsert key join fresh list value) := by
  induction list with
  | nil => exact List.pairwise_singleton _ _
  | cons head list inductionHypothesis =>
      obtain ⟨headDistinct, tailDistinct⟩ := List.pairwise_cons.1 distinct
      rw [KeyedList.upsert]
      split
      · next same =>
          refine List.pairwise_cons.2 ⟨?_, tailDistinct⟩
          intro other member
          rw [key_join head value same, ← same]
          exact headDistinct other member
      · next different =>
          refine List.pairwise_cons.2 ⟨?_, inductionHypothesis tailDistinct⟩
          intro other member
          rcases mem_keys_upsert key_join key_fresh member with addressed | ⟨old, oldMember, oldKey⟩
          · rw [addressed]
            exact different
          · rw [← oldKey]
            exact headDistinct old oldMember

end

end

theorem sort_strictlySorted
    (distinct : DistinctKeys key list) : StrictlySorted key (sort key list) := by
  have permuted : (sort key list).Perm list := List.perm_insertionSort _ _
  have ordered : (sort key list).Pairwise fun first second => key first ≤ key second :=
    List.pairwise_insertionSort _ _
  have stillDistinct : DistinctKeys key (sort key list) :=
    (permuted.pairwise_iff fun different => different.symm).2 distinct
  exact ordered.imp₂ (fun first second => lt_of_le_of_ne) stillDistinct

theorem lookup_sort
    (distinct : DistinctKeys key list) (wanted : κ) :
    lookup key wanted (sort key list) = lookup key wanted list := by
  have permuted : (sort key list).Perm list := List.perm_insertionSort _ _
  have sortedDistinct := (sort_strictlySorted distinct).distinctKeys
  apply Option.ext
  intro entry
  have keyed {other : List ν} (found : lookup key wanted other = some entry) :
      key entry = wanted := by
    simpa using List.find?_some found
  constructor
  · intro found
    have keyEq := keyed found
    rw [← keyEq, lookup_eq_some_iff sortedDistinct] at found
    rw [← keyEq, lookup_eq_some_iff distinct]
    exact permuted.mem_iff.1 found
  · intro found
    have keyEq := keyed found
    rw [← keyEq, lookup_eq_some_iff distinct] at found
    rw [← keyEq, lookup_eq_some_iff sortedDistinct]
    exact permuted.mem_iff.2 found

theorem mergeAll_spec
    (key_join : ∀ entry value, key entry = key value -> key (join entry value) = key value)
    (key_fresh : ∀ value, key (fresh value) = key value)
    (distinct : DistinctKeys key list) (values : List ν) :
    StrictlySorted key (mergeAll key join fresh list values) ∧
      ∀ wanted, lookup key wanted (mergeAll key join fresh list values) =
        (values.filter fun value => key value = wanted).foldl (slotStep join fresh)
          (lookup key wanted list) := by
  have run (values : List ν) (list : List ν) (distinct : DistinctKeys key list) :
      DistinctKeys key (values.foldl (upsert key join fresh) list) ∧
        ∀ wanted, lookup key wanted (values.foldl (upsert key join fresh) list) =
          (values.filter fun value => key value = wanted).foldl (slotStep join fresh)
            (lookup key wanted list) := by
    induction values generalizing list with
    | nil => exact ⟨distinct, fun _ => rfl⟩
    | cons value values inductionHypothesis =>
        obtain ⟨laterDistinct, laterLookup⟩ :=
          inductionHypothesis _ (distinct.upsert key_join key_fresh value)
        refine ⟨laterDistinct, ?_⟩
        intro wanted
        rw [List.foldl_cons, laterLookup, lookup_upsert key_join key_fresh]
        by_cases addressed : key value = wanted
        · simp [addressed]
        · simp [addressed]
  obtain ⟨runDistinct, runLookup⟩ := run values list distinct
  refine ⟨sort_strictlySorted runDistinct, ?_⟩
  intro wanted
  rw [mergeAll, lookup_sort runDistinct, runLookup]

/-- Entries that converge key by key make the list converge. -/
theorem mergeAll_convergesFrom
    (key_join : ∀ entry value, key entry = key value -> key (join entry value) = key value)
    (key_fresh : ∀ value, key (fresh value) = key value)
    {Admissible : ν -> Prop}
    (slots : ∀ wanted, ConvergesFrom (slotStep join fresh) none
      fun value => Admissible value ∧ key value = wanted) :
    ConvergesFrom (mergeAll key join fresh) []
      (fun values => ∀ value ∈ values, Admissible value) := by
  have run (operations : List (List ν)) (list : List ν)
      (sorted : StrictlySorted key list) :
      StrictlySorted key (operations.foldl (mergeAll key join fresh) list) ∧
        ∀ wanted, lookup key wanted (operations.foldl (mergeAll key join fresh) list) =
          (operations.flatten.filter fun value => key value = wanted).foldl
            (slotStep join fresh) (lookup key wanted list) := by
    induction operations generalizing list with
    | nil => exact ⟨sorted, fun _ => rfl⟩
    | cons values operations inductionHypothesis =>
        obtain ⟨headSorted, headLookup⟩ :=
          mergeAll_spec key_join key_fresh sorted.distinctKeys values
        obtain ⟨laterSorted, laterLookup⟩ := inductionHypothesis _ headSorted
        refine ⟨laterSorted, ?_⟩
        intro wanted
        rw [List.foldl_cons, laterLookup, headLookup, List.flatten_cons,
          List.filter_append, List.foldl_append]
  intro first second same admissible
  have empty : StrictlySorted key ([] : List ν) := List.Pairwise.nil
  obtain ⟨firstSorted, firstLookup⟩ := run first [] empty
  obtain ⟨secondSorted, secondLookup⟩ := run second [] empty
  have sameValues : SameMembers first.flatten second.flatten := by
    intro value
    simp only [List.mem_flatten, same _]
  refine ext_of_lookup firstSorted secondSorted fun wanted => ?_
  rw [firstLookup, secondLookup]
  apply slots wanted _ _ (sameValues.filter _)
  intro value member
  obtain ⟨inside, addressed⟩ := List.mem_filter.1 member
  obtain ⟨values, valuesMember, valueMember⟩ := List.mem_flatten.1 inside
  exact ⟨admissible values valuesMember value valueMember, of_decide_eq_true addressed⟩

/-- What holds of entries and values holds of what they are merged to. -/
theorem forall_mem_upsert {Holds : ν -> Prop} {value : ν}
    (holds : ∀ entry ∈ list, Holds entry)
    (joined : ∀ entry ∈ list, key entry = key value -> Holds (join entry value))
    (begun : Holds (fresh value)) : ∀ entry ∈ upsert key join fresh list value, Holds entry := by
  induction list with
  | nil =>
      intro entry member
      rw [upsert, List.mem_singleton] at member
      rw [member]
      exact begun
  | cons head list inductionHypothesis =>
      obtain ⟨headHolds, tailHolds⟩ := List.forall_mem_cons.1 holds
      obtain ⟨headJoined, tailJoined⟩ := List.forall_mem_cons.1 joined
      rw [upsert]
      split
      · next same => exact List.forall_mem_cons.2 ⟨headJoined same, tailHolds⟩
      · exact List.forall_mem_cons.2 ⟨headHolds, inductionHypothesis tailHolds tailJoined⟩

theorem forall_mem_mergeAll {Holds Offered : ν -> Prop} {list values : List ν}
    (joined : ∀ entry value, Holds entry -> Offered value -> key entry = key value ->
      Holds (join entry value))
    (begun : ∀ value, Offered value -> Holds (fresh value))
    (holds : ∀ entry ∈ list, Holds entry) (offered : ∀ value ∈ values, Offered value) :
    ∀ entry ∈ mergeAll key join fresh list values, Holds entry := by
  have run : ∀ entry ∈ values.foldl (upsert key join fresh) list, Holds entry := by
    induction values generalizing list with
    | nil => exact holds
    | cons value values inductionHypothesis =>
        obtain ⟨headOffered, tailOffered⟩ := List.forall_mem_cons.1 offered
        refine inductionHypothesis (forall_mem_upsert holds ?_ (begun value headOffered)) tailOffered
        intro entry member same
        exact joined entry value (holds entry member) headOffered same
  intro entry member
  exact run entry ((List.perm_insertionSort _ _).mem_iff.1 member)

/-- The values of one key, of which there is one at most. -/
theorem foldl_filter_eq_lookup
    (distinct : DistinctKeys key list) (kept : ∀ entry ∈ list, fresh entry = entry) (wanted : κ) :
    (list.filter fun entry => key entry = wanted).foldl (slotStep join fresh) none =
      lookup key wanted list := by
  induction list with
  | nil => rfl
  | cons head list inductionHypothesis =>
      obtain ⟨headDistinct, tailDistinct⟩ := List.pairwise_cons.1 distinct
      obtain ⟨headKept, tailKept⟩ := List.forall_mem_cons.1 kept
      by_cases found : key head = wanted
      · have others : (list.filter fun entry => key entry = wanted) = [] := by
          rw [List.filter_eq_nil_iff]
          intro entry member same
          exact headDistinct entry member (found.trans (of_decide_eq_true same).symm)
        simp [lookup, found, others, slotStep, headKept]
      · rw [List.filter_cons_of_neg (by simpa using found), inductionHypothesis tailDistinct tailKept]
        simp [lookup, found]

/-- A sorted list is merged into an empty one as it is. -/
theorem mergeAll_nil
    (key_join : ∀ entry value, key entry = key value -> key (join entry value) = key value)
    (key_fresh : ∀ value, key (fresh value) = key value)
    (sorted : StrictlySorted key list) (kept : ∀ entry ∈ list, fresh entry = entry) :
    mergeAll key join fresh [] list = list := by
  obtain ⟨merged, lookups⟩ := mergeAll_spec key_join key_fresh
    (List.Pairwise.nil : DistinctKeys key []) list
  refine ext_of_lookup merged sorted fun wanted => ?_
  rw [lookups]
  exact foldl_filter_eq_lookup sorted.distinctKeys kept wanted

end

end Convergence.KeyedList
