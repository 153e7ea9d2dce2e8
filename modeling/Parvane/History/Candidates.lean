import Parvane.History.RowState
import Parvane.Foundation.Greatest

/-!
# The candidates that are kept

The latest of some events is the greatest in the order of stamp and encoding.  While
the row is unknown, the list of candidates holds the latest event of each author, as
long as there are not too many authors.  Which of two events is later does not depend
on the chat written into both of them.
-/

namespace Parvane.History

open Wire State Convergence

/-! ## The latest event -/

section

variable [Message α] (stamp : α -> Stamp)

/-- The order of events. -/
def eventRank (item : α) : (Int64 ×ₗ Bytes) ×ₗ Bytes :=
  valueKey (stamp item) item

theorem eventRank_injective : Function.Injective (eventRank stamp) := by
  intro first second equal
  have bytes : encode first = encode second := congrArg (fun key => (ofLex key).2) equal
  exact encode_injective bytes

theorem latest_eq_foldl (items : List α) :
    latest items stamp = items.foldl (keepGreatest (eventRank stamp)) none := by
  unfold latest
  congr 1
  funext best item
  cases best with
  | none => rfl
  | some current =>
      by_cases newer : valueKey (stamp current) current < valueKey (stamp item) item <;>
        simp [later, keepGreatest_some, eventRank, newer]

theorem isTopOf_latest (items : List α) :
    IsTopOf (eventRank stamp) { item | item ∈ items } (latest items stamp) := by
  rw [latest_eq_foldl]
  exact isTopOf_foldl_keepGreatest _ items

end

/-! ## The latest event of each author -/

/-- The entries of a store, the one of a key put last. -/
theorem toList_erase_append_perm
    (store : Std.ExtTreeMap String α) (wanted : String) :
    ((store.erase wanted).toList ++ store[wanted]?.toList.map fun value => (wanted, value)).Perm
      store.toList := by
  have nodup (store : Std.ExtTreeMap String α) : store.toList.Nodup := by
    refine store.distinct_keys_toList.imp ?_
    rintro first second different rfl
    exact different Std.ReflCmp.compare_self
  rw [List.perm_ext_iff_of_nodup ?_ (nodup store)]
  · rintro ⟨other, value⟩
    simp only [List.mem_append, Std.ExtTreeMap.mem_toList_iff_getElem?_eq_some,
      Std.ExtTreeMap.getElem?_erase, List.mem_map, Option.mem_toList, Prod.mk.injEq]
    by_cases same : other = wanted
    · subst same
      simp
    · have different : wanted ≠ other := fun equal => same equal.symm
      simp [different]
  · refine List.nodup_append.2 ⟨nodup _, ?_, ?_⟩
    · cases store[wanted]? <;> simp
    · rintro ⟨first, value⟩ firstMember ⟨second, other⟩ secondMember equal
      rw [Std.ExtTreeMap.mem_toList_iff_getElem?_eq_some,
        Std.ExtTreeMap.getElem?_erase] at firstMember
      simp only [List.mem_map, Option.mem_toList, Prod.mk.injEq] at secondMember
      obtain ⟨-, -, rfl, -⟩ := secondMember
      cases equal
      simp at firstMember

theorem insertionSort_fst_eq {list : List (String × α)}
    {store : Std.ExtTreeMap String α} (permuted : list.Perm store.toList) :
    list.insertionSort (fun first second => first.1 ≤ second.1) = store.toList := by
  have sorted : store.toList.Pairwise fun first second => first.1 < second.1 :=
    store.ordered_keys_toList.imp fun less => compare_lt_iff_lt.1 less
  have ordered := List.pairwise_insertionSort
    (fun first second : String × α => first.1 ≤ second.1) list
  have same : (list.insertionSort fun first second => first.1 ≤ second.1).Perm store.toList :=
    (List.perm_insertionSort _ _).trans permuted
  refine same.eq_of_pairwise ?_ ordered (sorted.imp fun less => less.le)
  intro first second firstMember secondMember less greater
  have keys : first.1 = second.1 := le_antisymm less greater
  have firstHeld := Std.ExtTreeMap.mem_toList_iff_getElem?_eq_some.1 (same.mem_iff.1 firstMember)
  have secondHeld := Std.ExtTreeMap.mem_toList_iff_getElem?_eq_some.1 secondMember
  rw [keys, secondHeld] at firstHeld
  exact Prod.ext keys (Option.some.inj firstHeld).symm

section

variable [Message α] (items : List α) (key : α -> String) (stamp : α -> Stamp)

theorem getElem?_latestByKey (wanted : String) :
    (latestByKey items key stamp)[wanted]? =
      (items.filter fun item => key item = wanted).foldl
        (keepGreatest (eventRank stamp)) none := by
  have step : latestByKey items key stamp =
      items.foldl (alterAt (fun item => some (key item))
        (fun slot item => keepGreatest (eventRank stamp) slot item)) ∅ := by
    unfold latestByKey
    congr 1
    funext byKey item
    unfold alterAt
    congr 1
    funext slot
    cases slot with
    | none => rfl
    | some current =>
        by_cases newer : valueKey (stamp current) current < valueKey (stamp item) item <;>
          simp [later, keepGreatest_some, eventRank, newer]
  rw [step, ConvergesFrom.getElem?_foldl_alterAt, Std.ExtTreeMap.getElem?_empty]
  simp only [Option.some.injEq]

theorem isTopOf_latestByKey (wanted : String) :
    IsTopOf (eventRank stamp) { item | item ∈ { item | item ∈ items } ∧ key item = wanted }
      (latestByKey items key stamp)[wanted]? := by
  rw [getElem?_latestByKey]
  have top := isTopOf_foldl_keepGreatest (eventRank stamp)
    (items.filter fun item => key item = wanted)
  simpa only [List.mem_filter, decide_eq_true_eq, Set.mem_ofPred_eq] using top

theorem mem_toList_latestByKey {entry : String × α}
    (member : entry ∈ (latestByKey items key stamp).toList) :
    entry.2 ∈ items ∧ key entry.2 = entry.1 := by
  obtain ⟨wanted, value⟩ := entry
  have held := Std.ExtTreeMap.mem_toList_iff_getElem?_eq_some.1 member
  exact (isTopOf_latestByKey items key stamp wanted).mem held

theorem mem_of_mem_reducePending {item : α}
    (member : item ∈ reducePending items key stamp) : item ∈ items := by
  unfold reducePending at member
  obtain ⟨entry, inside, rfl⟩ := List.mem_map.1 member
  rw [List.mem_insertionSort] at inside
  have kept : entry ∈ ((latestByKey items key stamp).erase "").toList ++
      (latestByKey items key stamp)[""]?.toList.map fun value => ("", value) := by
    rcases List.mem_append.1 inside with taken | always
    · exact List.mem_append_left _
        ((List.mem_insertionSort _).1 (List.mem_of_mem_take taken))
    · exact List.mem_append_right _ always
  exact (mem_toList_latestByKey items key stamp
    ((toList_erase_append_perm _ _).mem_iff.1 kept)).1

/-- With few authors nothing is dropped. -/
theorem isTopList_reducePending {authors : List String}
    (few : authors.length ≤ maxPendingAuthors)
    (covered : ∀ item ∈ items, key item = "" ∨ key item ∈ authors) :
    KeyedList.IsTopList key (eventRank stamp) { item | item ∈ items }
      (reducePending items key stamp) := by
  let byKey := latestByKey items key stamp
  have rest_length : (byKey.erase "").toList.length ≤ maxPendingAuthors := by
    have nodup : ((byKey.erase "").toList.map Prod.fst).Nodup := by
      rw [List.Nodup, List.pairwise_map]
      refine (byKey.erase "").distinct_keys_toList.imp ?_
      intro first second different equal
      rw [equal] at different
      exact different Std.ReflCmp.compare_self
    have subset : (byKey.erase "").toList.map Prod.fst ⊆ authors := by
      intro author member
      obtain ⟨⟨wanted, value⟩, inside, rfl⟩ := List.mem_map.1 member
      rw [Std.ExtTreeMap.mem_toList_iff_getElem?_eq_some,
        Std.ExtTreeMap.getElem?_erase] at inside
      split at inside
      · cases inside
      · next different =>
          obtain ⟨valueMember, valueKey⟩ := mem_toList_latestByKey items key stamp
            (Std.ExtTreeMap.mem_toList_iff_getElem?_eq_some.2 inside)
          rcases covered value valueMember with empty | listed
          · rw [empty] at valueKey
            exact absurd (by rw [valueKey]; exact Std.ReflCmp.compare_self) different
          · rw [← valueKey]
            exact listed
    have bounded := (List.subperm_of_subset nodup subset).length_le
    rw [List.length_map] at bounded
    exact bounded.trans few
  have reduced : reducePending items key stamp = byKey.toList.map Prod.snd := by
    unfold reducePending
    refine congrArg (List.map Prod.snd) (insertionSort_fst_eq ?_)
    refine List.Perm.trans (List.Perm.append_right _ ?_) (toList_erase_append_perm byKey "")
    rw [List.take_of_length_le (by rw [List.length_insertionSort]; exact rest_length)]
    exact List.perm_insertionSort _ _
  rw [reduced]
  exact KeyedList.isTopList_values (isTopOf_latestByKey items key stamp)

/-- The candidates that were kept are kept again. -/
theorem reducePending_reducePending :
    reducePending (reducePending items key stamp) key stamp = reducePending items key stamp := by
  let byKey := latestByKey items key stamp
  let rest := ((byKey.erase "").toList.insertionSort fun first second =>
    valueKey (stamp second.2) second.2 ≤ valueKey (stamp first.2) first.2).take maxPendingAuthors
  let out := rest ++ byKey[""]?.toList.map fun value => ("", value)
  let sorted := out.insertionSort fun first second => first.1 ≤ second.1
  have permuted : sorted.Perm out := List.perm_insertionSort _ _
  have kept : sorted.Subperm byKey.toList := by
    refine permuted.subperm.trans (.trans ?_ (toList_erase_append_perm byKey "").subperm)
    exact (List.subperm_append_right _).2
      ((List.take_sublist _ _).subperm.trans (List.perm_insertionSort _ _).subperm)
  have keyEq (entry : String × α) (member : entry ∈ sorted) : key entry.2 = entry.1 :=
    (mem_toList_latestByKey items key stamp (kept.subset member)).2
  have distinct : sorted.Pairwise fun first second => first.1 ≠ second.1 := by
    obtain ⟨part, same, inside⟩ := kept
    refine (same.pairwise_iff fun different => different.symm).1 (.sublist inside ?_)
    exact byKey.distinct_keys_toList.imp fun different equal =>
      different (Std.LawfulEqCmp.compare_eq_iff_eq.2 equal)
  have strict : KeyedList.StrictlySorted key (sorted.map Prod.snd) := by
    rw [KeyedList.StrictlySorted, List.pairwise_map]
    have ordered := (List.pairwise_insertionSort _ out).imp₂ (fun _ _ => lt_of_le_of_ne) distinct
    refine ordered.imp_of_mem fun {first second} firstMember secondMember less => ?_
    rwa [keyEq first firstMember, keyEq second secondMember]
  have few : (rest.map Prod.fst).length ≤ maxPendingAuthors := by
    rw [List.length_map]
    exact List.length_take_le _ _
  refine (isTopList_reducePending (sorted.map Prod.snd) key stamp few ?_).unique
    (eventRank_injective stamp).injOn strict.isTopList
  intro item member
  obtain ⟨entry, inside, rfl⟩ := List.mem_map.1 member
  rw [keyEq entry inside]
  rcases List.mem_append.1 (permuted.mem_iff.1 inside) with own | always
  · exact .inr (List.mem_map_of_mem own)
  · obtain ⟨value, -, rfl⟩ := List.mem_map.1 always
    exact .inl rfl

theorem reducePending_map {form : α -> α} (again : ∀ item, form (form item) = form item) :
    reducePending ((reducePending (items.map form) key stamp).map form) key stamp =
      reducePending (items.map form) key stamp := by
  have same : (reducePending (items.map form) key stamp).map form =
      reducePending (items.map form) key stamp := by
    refine (List.map_congr_left fun item member => ?_).trans (List.map_id _)
    obtain ⟨original, -, rfl⟩ := List.mem_map.1 (mem_of_mem_reducePending _ _ _ member)
    exact again original
  rw [same, reducePending_reducePending]

end

end Parvane.History
