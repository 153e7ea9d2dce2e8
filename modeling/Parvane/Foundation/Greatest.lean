import Parvane.Foundation.KeyedList
import Parvane.Foundation.Register

/-!
# The greatest values of a set

What a register holds is the greatest of the values it was offered, and what a keyed
store holds is the greatest value of each key.  Both are determined by the set of the
values.  Values may be dropped as long as a greater one of the same key stays, so a
set may be replaced by what a register or a store kept of it.
-/

namespace Convergence

/-! ## One value -/

section

variable [LinearOrder κ] (rank : ν -> κ)

/-- The greatest value of a set, or nothing when the set is empty. -/
def IsTopOf (values : Set ν) (slot : Option ν) : Prop :=
  match slot with
  | none => values = ∅
  | some value => value ∈ values ∧ ∀ other ∈ values, rank other ≤ rank value

/-- Few of the values, but always one that is as great. -/
def Cofinal (few many : Set ν) : Prop :=
  few ⊆ many ∧ ∀ value ∈ many, ∃ other ∈ few, rank value ≤ rank other

variable {rank}

variable {values : Set ν} {slot : Option ν}

theorem IsTopOf.mem
    (top : IsTopOf rank values slot) {value : ν}
    (held : value ∈ slot) : value ∈ values := by
  cases held
  exact top.1

/-- The greatest value is determined where no two values share the greatest rank. -/
theorem IsTopOf.unique_of_greatest
    (one : ∀ first ∈ values, ∀ second ∈ values, rank first = rank second ->
      (∀ other ∈ values, rank other ≤ rank first) -> first = second)
    {first second : Option ν} (firstTop : IsTopOf rank values first)
    (secondTop : IsTopOf rank values second) : first = second := by
  cases first with
  | none =>
      cases second with
      | none => rfl
      | some value =>
          have member := secondTop.1
          rw [show values = ∅ from firstTop] at member
          cases member
  | some value =>
      cases second with
      | none =>
          have member := firstTop.1
          rw [show values = ∅ from secondTop] at member
          cases member
      | some other =>
          have ranks := le_antisymm (secondTop.2 value firstTop.1) (firstTop.2 other secondTop.1)
          rw [one value firstTop.1 other secondTop.1 ranks firstTop.2]

theorem IsTopOf.unique
    (rank_injOn : Set.InjOn rank values) {first second : Option ν}
    (firstTop : IsTopOf rank values first)
    (secondTop : IsTopOf rank values second) : first = second := by
  apply IsTopOf.unique_of_greatest _ firstTop secondTop
  exact fun value member other inside ranks _ => rank_injOn member inside ranks

theorem IsTopOf.isSome_iff
    (top : IsTopOf rank values slot) : slot.isSome = true ↔ values.Nonempty := by
  cases slot with
  | none => simp [show values = ∅ from top]
  | some value => simpa using ⟨value, top.1⟩

/-- A value that is offered to a register takes the place of a smaller one. -/
theorem IsTopOf.keepGreatest
    (top : IsTopOf rank values slot)
    (offered : ν) : IsTopOf rank (values ∪ {offered}) (keepGreatest rank slot offered) := by
  cases slot with
  | none =>
      rw [show values = ∅ from top, keepGreatest_none]
      simp [IsTopOf]
  | some current =>
      rw [keepGreatest_some]
      split
      · next less =>
          refine ⟨.inr rfl, ?_⟩
          rintro other (inside | rfl)
          · exact (top.2 other inside).trans less.le
          · exact le_rfl
      · next notLess =>
          refine ⟨.inl top.1, ?_⟩
          rintro other (inside | rfl)
          · exact top.2 other inside
          · exact not_lt.1 notLess

/-- A value that is put into a register, and is as great as the one there, is the
greatest. -/
theorem IsTopOf.put {current next : ν}
    (top : IsTopOf rank values (some current))
    (ordered : rank current ≤ rank next) : IsTopOf rank (values ∪ {next}) (some next) := by
  refine ⟨.inr rfl, ?_⟩
  rintro other (inside | rfl)
  · exact (top.2 other inside).trans ordered
  · exact le_rfl

/-- A register that was offered some values holds the greatest of them. -/
theorem isTopOf_foldl_keepGreatest (rank : ν -> κ) (list : List ν) :
    IsTopOf rank { value | value ∈ list } (list.foldl (keepGreatest rank) none) := by
  have run (list : List ν) (slot : Option ν) (values : Set ν) (top : IsTopOf rank values slot) :
      IsTopOf rank (values ∪ { value | value ∈ list }) (list.foldl (keepGreatest rank) slot) := by
    induction list generalizing slot values with
    | nil => simpa using top
    | cons value list inductionHypothesis =>
        have sets : values ∪ { other | other ∈ value :: list } =
            (values ∪ {value}) ∪ { other | other ∈ list } := by
          ext other
          simp only [Set.mem_union, Set.mem_ofPred_eq, List.mem_cons, Set.mem_singleton_iff,
            or_assoc]
        rw [sets, List.foldl_cons]
        exact inductionHypothesis _ _ (top.keepGreatest value)
  simpa using run list none ∅ rfl

namespace Cofinal

theorem refl (values : Set ν) : Cofinal rank values values :=
  ⟨subset_rfl, fun value member => ⟨value, member, le_rfl⟩⟩

theorem trans {few some many : Set ν}
    (first : Cofinal rank few some)
    (second : Cofinal rank some many) : Cofinal rank few many := by
  refine ⟨first.1.trans second.1, ?_⟩
  intro value member
  obtain ⟨middle, inside, ordered⟩ := second.2 value member
  obtain ⟨kept, keptInside, keptOrdered⟩ := first.2 middle inside
  exact ⟨kept, keptInside, ordered.trans keptOrdered⟩

theorem union {few many fewOther manyOther : Set ν}
    (cofinal : Cofinal rank few many) (otherCofinal : Cofinal rank fewOther manyOther) :
    Cofinal rank (few ∪ fewOther) (many ∪ manyOther) := by
  refine ⟨Set.union_subset_union cofinal.1 otherCofinal.1, ?_⟩
  rintro value (member | member)
  · obtain ⟨other, inside, ordered⟩ := cofinal.2 value member
    exact ⟨other, .inl inside, ordered⟩
  · obtain ⟨other, inside, ordered⟩ := otherCofinal.2 value member
    exact ⟨other, .inr inside, ordered⟩

theorem eq_empty_iff {few many : Set ν}
    (cofinal : Cofinal rank few many) : few = ∅ ↔ many = ∅ := by
  constructor
  · intro empty
    rw [Set.eq_empty_iff_forall_notMem]
    intro value member
    obtain ⟨other, inside, -⟩ := cofinal.2 value member
    rw [empty] at inside
    exact inside
  · intro empty
    have subset := cofinal.1
    rw [empty] at subset
    exact Set.subset_empty_iff.1 subset

theorem isTopOf {few many : Set ν}
    (cofinal : Cofinal rank few many)
    (top : IsTopOf rank few slot) : IsTopOf rank many slot := by
  cases slot with
  | none => exact cofinal.eq_empty_iff.1 top
  | some value =>
      refine ⟨cofinal.1 top.1, ?_⟩
      intro other member
      obtain ⟨kept, inside, ordered⟩ := cofinal.2 other member
      exact ordered.trans (top.2 kept inside)

end Cofinal

/-- What a register holds stands for all that it was offered. -/
theorem IsTopOf.cofinal
    (top : IsTopOf rank values slot) : Cofinal rank { value | value ∈ slot } values := by
  refine ⟨fun value held => top.mem held, ?_⟩
  intro value member
  cases slot with
  | none =>
      rw [show values = ∅ from top] at member
      cases member
  | some kept => exact ⟨kept, rfl, top.2 value member⟩

/-- The greatest value of an image comes from the greatest value. -/
theorem IsTopOf.unmap [LinearOrder ι]
    {imageRank : μ -> ι} (rank : ν -> κ) {view : ν -> μ} (back : μ -> ν)
    (back_view : ∀ value ∈ values, back (view value) = value)
    (reflects : ∀ first ∈ values, ∀ second ∈ values,
      imageRank (view first) ≤ imageRank (view second) -> rank first ≤ rank second)
    {slot : Option μ}
    (top : IsTopOf imageRank (view '' values) slot) :
    slot = (slot.map back).map view ∧ IsTopOf rank values (slot.map back) := by
  cases slot with
  | none => exact ⟨rfl, Set.image_eq_empty.1 top⟩
  | some image =>
      obtain ⟨⟨value, member, rfl⟩, greatest⟩ := top
      rw [Option.map_some, back_view value member]
      refine ⟨rfl, member, ?_⟩
      intro other inside
      exact reflects other inside value member (greatest _ ⟨other, inside, rfl⟩)

/-- The image of the greatest value is the greatest of the image. -/
theorem IsTopOf.image [LinearOrder ι]
    (imageRank : μ -> ι) (view : ν -> μ)
    (preserves : ∀ first ∈ values, ∀ second ∈ values,
      rank first ≤ rank second -> imageRank (view first) ≤ imageRank (view second))
    (top : IsTopOf rank values slot) : IsTopOf imageRank (view '' values) (slot.map view) := by
  cases slot with
  | none => exact Set.image_eq_empty.2 top
  | some value =>
      refine ⟨⟨value, top.1, rfl⟩, ?_⟩
      rintro _ ⟨other, inside, rfl⟩
      exact preserves other inside value top.1 (top.2 other inside)

end

/-! ## One value for each key -/

namespace KeyedList

section

variable [LinearOrder ι] [LinearOrder κ] (key : ν -> ι) (rank : ν -> κ)

/-- The list holds the greatest value of each key, in the order of the keys. -/
def IsTopList (values : Set ν) (list : List ν) : Prop :=
  StrictlySorted key list ∧
    ∀ wanted, IsTopOf rank { value | value ∈ values ∧ key value = wanted }
      (lookup key wanted list)

/-- Few of the values, but always one of the same key that is as great. -/
def KeyCofinal (few many : Set ν) : Prop :=
  few ⊆ many ∧ ∀ value ∈ many, ∃ other ∈ few, key other = key value ∧ rank value ≤ rank other

variable {key rank}

variable {values : Set ν}

theorem IsTopList.unique
    (rank_injOn : Set.InjOn rank values) {first second : List ν}
    (firstTop : IsTopList key rank values first)
    (secondTop : IsTopList key rank values second) : first = second := by
  refine ext_of_lookup firstTop.1 secondTop.1 fun wanted => ?_
  have injOn : Set.InjOn rank { value | value ∈ values ∧ key value = wanted } :=
    rank_injOn.mono fun value member => member.1
  exact (firstTop.2 wanted).unique injOn (secondTop.2 wanted)

theorem IsTopList.mem_iff {list : List ν}
    (top : IsTopList key rank values list) {value : ν} :
    value ∈ list ↔ lookup key (key value) list = some value :=
  (lookup_eq_some_iff top.1.distinctKeys).symm

theorem IsTopList.mem {list : List ν}
    (top : IsTopList key rank values list) {value : ν}
    (member : value ∈ list) : value ∈ values :=
  ((top.2 (key value)).mem (top.mem_iff.1 member)).1

/-- A sorted list holds the greatest of its own values. -/
theorem StrictlySorted.isTopList {list : List ν}
    (sorted : StrictlySorted key list) : IsTopList key rank { value | value ∈ list } list := by
  refine ⟨sorted, fun wanted => ?_⟩
  have found {value : ν} (member : value ∈ list) (keyEq : key value = wanted) :
      lookup key wanted list = some value :=
    keyEq ▸ (lookup_eq_some_iff sorted.distinctKeys).2 member
  cases held : lookup key wanted list with
  | none =>
      refine Set.eq_empty_of_forall_notMem fun value member => ?_
      simp [found member.1 member.2] at held
  | some value =>
      refine ⟨⟨List.mem_of_find?_eq_some held, by simpa using List.find?_some held⟩, ?_⟩
      rintro other ⟨member, keyEq⟩
      rw [found member keyEq] at held
      rw [Option.some.inj held]

/-- Where two sets have the same values of a key, so do their lists. -/
theorem IsTopList.mem_iff_mem
    (rank_injective : Function.Injective rank)
    {first second : Set ν} {firstList secondList : List ν}
    (firstTop : IsTopList key rank first firstList)
    (secondTop : IsTopList key rank second secondList) {value : ν}
    (same : ∀ other, key other = key value -> (other ∈ first ↔ other ∈ second)) :
    value ∈ firstList ↔ value ∈ secondList := by
  have slots : { other | other ∈ first ∧ key other = key value } =
      { other | other ∈ second ∧ key other = key value } :=
    Set.ext fun other => and_congr_left (same other)
  have firstSlot := firstTop.2 (key value)
  rw [slots] at firstSlot
  rw [firstTop.mem_iff, secondTop.mem_iff,
    firstSlot.unique rank_injective.injOn (secondTop.2 (key value))]

theorem IsTopList.keyCofinal {list : List ν}
    (top : IsTopList key rank values list) :
    KeyCofinal key rank { value | value ∈ list } values := by
  refine ⟨fun value member => top.mem member, ?_⟩
  intro value member
  have found := top.2 (key value)
  cases held : lookup key (key value) list with
  | none =>
      rw [held] at found
      have inside : value ∈ { other | other ∈ values ∧ key other = key value } :=
        ⟨member, rfl⟩
      rw [show { other | other ∈ values ∧ key other = key value } = ∅ from found] at inside
      cases inside
  | some kept =>
      rw [held] at found
      obtain ⟨⟨-, sameKey⟩, greatest⟩ := found
      refine ⟨kept, ?_, sameKey, greatest value ⟨member, rfl⟩⟩
      rw [Set.mem_ofPred_eq, top.mem_iff, sameKey]
      exact held

namespace KeyCofinal

omit [LinearOrder ι] in
theorem refl (values : Set ν) : KeyCofinal key rank values values :=
  ⟨subset_rfl, fun value member => ⟨value, member, rfl, le_rfl⟩⟩

omit [LinearOrder ι] in
theorem trans {few some many : Set ν}
    (first : KeyCofinal key rank few some)
    (second : KeyCofinal key rank some many) : KeyCofinal key rank few many := by
  refine ⟨first.1.trans second.1, ?_⟩
  intro value member
  obtain ⟨middle, inside, sameKey, ordered⟩ := second.2 value member
  obtain ⟨kept, keptInside, keptKey, keptOrdered⟩ := first.2 middle inside
  exact ⟨kept, keptInside, keptKey.trans sameKey, ordered.trans keptOrdered⟩

omit [LinearOrder ι] in
theorem union {few many fewOther manyOther : Set ν}
    (cofinal : KeyCofinal key rank few many)
    (otherCofinal : KeyCofinal key rank fewOther manyOther) :
    KeyCofinal key rank (few ∪ fewOther) (many ∪ manyOther) := by
  refine ⟨Set.union_subset_union cofinal.1 otherCofinal.1, ?_⟩
  rintro value (member | member)
  · obtain ⟨other, inside, ordered⟩ := cofinal.2 value member
    exact ⟨other, .inl inside, ordered⟩
  · obtain ⟨other, inside, ordered⟩ := otherCofinal.2 value member
    exact ⟨other, .inr inside, ordered⟩

theorem isTopList {few many : Set ν}
    (cofinal : KeyCofinal key rank few many) {list : List ν}
    (top : IsTopList key rank few list) : IsTopList key rank many list := by
  refine ⟨top.1, fun wanted => ?_⟩
  have slot : Cofinal rank { value | value ∈ few ∧ key value = wanted }
      { value | value ∈ many ∧ key value = wanted } := by
    refine ⟨fun value member => ⟨cofinal.1 member.1, member.2⟩, ?_⟩
    rintro value ⟨member, keyed⟩
    obtain ⟨other, inside, sameKey, ordered⟩ := cofinal.2 value member
    exact ⟨other, ⟨inside, sameKey.trans keyed⟩, ordered⟩
  exact slot.isTopOf (top.2 wanted)

end KeyCofinal

/-- The greatest values of an image come from the greatest values. -/
theorem IsTopList.unmap [LinearOrder ο]
    {imageKey : μ -> ι} {imageRank : μ -> ο} (key : ν -> ι) (rank : ν -> κ) {view : ν -> μ}
    (back : μ -> ν)
    (back_view : ∀ value ∈ values, back (view value) = value)
    (keys : ∀ value ∈ values, imageKey (view value) = key value)
    (reflects : ∀ first ∈ values, ∀ second ∈ values,
      imageRank (view first) ≤ imageRank (view second) -> rank first ≤ rank second)
    {list : List μ}
    (top : IsTopList imageKey imageRank (view '' values) list) :
    list = (list.map back).map view ∧ IsTopList key rank values (list.map back) := by
  have fromView {image : μ} (member : image ∈ list) :
      ∃ value ∈ values, view value = image := top.mem member
  have restored : list = (list.map back).map view := by
    rw [List.map_map]
    nth_rewrite 1 [← List.map_id list]
    apply List.map_congr_left
    intro image member
    obtain ⟨value, inside, rfl⟩ := fromView member
    simp [back_view value inside]
  have key_back {image : μ} (member : image ∈ list) : key (back image) = imageKey image := by
    obtain ⟨value, inside, rfl⟩ := fromView member
    rw [back_view value inside, keys value inside]
  refine ⟨restored, ?_, fun wanted => ?_⟩
  · rw [StrictlySorted, List.pairwise_map]
    refine top.1.imp_of_mem ?_
    intro first second firstMember secondMember less
    rw [key_back firstMember, key_back secondMember]
    exact less
  · have found : lookup key wanted (list.map back) =
        (lookup imageKey wanted list).map back := by
      have looked (list : List μ) (keyed : ∀ image ∈ list, key (back image) = imageKey image) :
          lookup key wanted (list.map back) = (lookup imageKey wanted list).map back := by
        induction list with
        | nil => rfl
        | cons image list inductionHypothesis =>
            have tail := inductionHypothesis
              fun other member => keyed other (List.mem_cons_of_mem _ member)
            simp only [lookup] at tail
            have headKey := keyed image List.mem_cons_self
            by_cases addressed : imageKey image = wanted
            · simp [lookup, headKey, addressed]
            · simp [lookup, headKey, addressed, tail]
      exact looked list fun image member => key_back member
    have slot := top.2 wanted
    have images : { image | image ∈ view '' values ∧ imageKey image = wanted } =
        view '' { value | value ∈ values ∧ key value = wanted } := by
      ext image
      constructor
      · rintro ⟨⟨value, inside, rfl⟩, addressed⟩
        exact ⟨value, ⟨inside, (keys value inside).symm.trans addressed⟩, rfl⟩
      · rintro ⟨value, ⟨inside, addressed⟩, rfl⟩
        exact ⟨⟨value, inside, rfl⟩, (keys value inside).trans addressed⟩
    rw [images] at slot
    rw [found]
    exact (slot.unmap rank back (fun value member => back_view value member.1)
      fun first firstMember second secondMember =>
        reflects first firstMember.1 second secondMember.1).2

end

/-! ### Stores as lists -/

/-- The values of a store whose entries carry their keys, in the order of the keys. -/
theorem isTopList_values [LinearOrder ι]
    [LinearOrder κ]
    {key : ν -> ι} {rank : ν -> κ} {values : Set ν} {store : Std.ExtTreeMap ι ν}
    (tops : ∀ wanted, IsTopOf rank { value | value ∈ values ∧ key value = wanted }
      store[wanted]?) : IsTopList key rank values (store.toList.map Prod.snd) := by
  have keyed {entry : ι × ν} (member : entry ∈ store.toList) : key entry.2 = entry.1 := by
    obtain ⟨wanted, value⟩ := entry
    have held := Std.ExtTreeMap.mem_toList_iff_getElem?_eq_some.1 member
    exact ((tops wanted).mem held).2
  have sorted : StrictlySorted key (store.toList.map Prod.snd) := by
    rw [StrictlySorted, List.pairwise_map]
    refine Std.ExtTreeMap.ordered_keys_toList.imp_of_mem ?_
    intro first second firstMember secondMember less
    rw [keyed firstMember, keyed secondMember]
    exact compare_lt_iff_lt.1 less
  refine ⟨sorted, fun wanted => ?_⟩
  have lookups : lookup key wanted (store.toList.map Prod.snd) = store[wanted]? := by
    apply Option.ext
    intro value
    constructor
    · intro found
      have isKey : key value = wanted := by
        simpa using List.find?_some found
      rw [← isKey, lookup_eq_some_iff sorted.distinctKeys] at found
      obtain ⟨⟨other, inner⟩, member, rfl⟩ := List.mem_map.1 found
      have held := Std.ExtTreeMap.mem_toList_iff_getElem?_eq_some.1 member
      rw [← isKey, keyed member]
      exact held
    · intro held
      have isKey := ((tops wanted).mem held).2
      rw [← isKey, lookup_eq_some_iff sorted.distinctKeys]
      exact List.mem_map.2
        ⟨(wanted, value), Std.ExtTreeMap.mem_toList_iff_getElem?_eq_some.2 held, rfl⟩
  rw [lookups]
  exact tops wanted

end KeyedList

end Convergence
