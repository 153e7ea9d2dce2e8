import Parvane.Engine.Sending
import Parvane.Foundation.Fields

/-!
# Padding to the grid

Layers of a message are padded so that their lengths tell little: a length is one of few
sizes, or a multiple of the greatest.  The padding is a field of its own, whose length is
written before it, so there are sizes that it cannot reach; then the next size is taken.
Of two sizes that follow each other one can be reached.
-/

namespace Parvane.Engine

open Wire Identity

instance : Message SignedDeviceCertificate where
  fields certificate :=
    bytes 1 certificate.certificate ++ bytes 2 certificate.selfSigningSignature ++
      bytes 3 certificate.selfSigningKey ++ bytes 4 certificate.rootSignatureOverSelfSigning ++
      bytes 5 certificate.rootKey
  fields_injective first second equal := by
    have each := select_each [1, 2, 3, 4, 5] equal
    cases first
    cases second
    simpa using each

instance : Message SealedInner where
  fields inner :=
    message 1 inner.sender ++ bytes 2 inner.olmMessage ++ Wire.uint32 3 inner.olmType ++
      bytes 4 inner.padding
  fields_injective first second equal := by
    have each := select_each [1, 2, 3, 4] equal
    cases first
    cases second
    simpa using each

instance : Message GroupEnvelopeInner where
  fields inner :=
    bytes 1 inner.megolmSessionId ++ bytes 2 inner.megolmMessage ++ bytes 3 inner.padding ++
      bytes 4 inner.publicSession
  fields_injective first second equal := by
    have each := select_each [1, 2, 3, 4] equal
    cases first
    cases second
    simpa using each

/-- Pad the inner layer of an envelope to a group. -/
def padGroup (inner : GroupEnvelopeInner) : GroupEnvelopeInner :=
  let length := (encode { inner with padding := [] }).length
  { inner with padding := List.replicate (l2PaddingLen length) 0 }

/-! ## Sizes -/

/-- A size of the grid. -/
def OnGrid (size : Nat) : Prop :=
  size ∈ l2Buckets ∨ 32768 < size ∧ size % 32768 = 0

/-- Each length has the least size of the grid that is great enough. -/
theorem l2Target_cases (length : Nat) :
    length ≤ 512 ∧ l2Target length = 512 ∨
    512 < length ∧ length ≤ 2048 ∧ l2Target length = 2048 ∨
    2048 < length ∧ length ≤ 8192 ∧ l2Target length = 8192 ∨
    8192 < length ∧ length ≤ 32768 ∧ l2Target length = 32768 ∨
    32768 < length ∧ l2Target length = (length + 32767) / 32768 * 32768 := by
  have chain : l2Target length =
      if length ≤ 512 then 512
      else if length ≤ 2048 then 2048
      else if length ≤ 8192 then 8192
      else if length ≤ 32768 then 32768
      else (length + 32767) / 32768 * 32768 := by
    simp only [l2Target, l2Buckets, List.find?_cons, List.find?_nil]
    repeat' split
    all_goals simp_all
  rw [chain]
  repeat' split
  all_goals omega

theorem onGrid_iff (size : Nat) :
    OnGrid size ↔ size = 512 ∨ size = 2048 ∨ size = 8192 ∨ size = 32768 ∨
      (32768 < size ∧ size % 32768 = 0) := by
  simp only [OnGrid, l2Buckets, List.mem_cons, List.not_mem_nil, or_false, or_assoc]

theorem onGrid_l2Target (length : Nat) : OnGrid (l2Target length) := by
  rw [onGrid_iff]
  have := l2Target_cases length
  omega

/-- The target is the least size that is great enough. -/
theorem l2Target_le {length size : Nat}
    (onGrid : OnGrid size)
    (le : length ≤ size) : l2Target length ≤ size := by
  rw [onGrid_iff] at onGrid
  have := l2Target_cases length
  omega

/-! ## Reaching a size -/

/-- The padding takes its tag, its length and its bytes. -/
theorem paddingTo_eq_some {room padding : Nat} :
    paddingTo room = some padding ↔
      1 ≤ padding ∧ varintLen padding ≤ 5 ∧ room = 1 + delimitedLength padding := by
  have sound {padding : Nat} (found : paddingTo room = some padding) :
      1 ≤ padding ∧ varintLen padding ≤ 5 ∧ room = 1 + delimitedLength padding := by
    obtain ⟨size, sizeMem, fits⟩ := List.exists_of_findSome?_eq_some found
    split at fits
    · next holds =>
        cases fits
        have sizeLe : size ≤ 5 := by
          simp only [List.mem_cons, List.not_mem_nil, or_false] at sizeMem
          omega
        rw [delimitedLength]
        rw [varintLen] at holds ⊢
        omega
    · cases fits
  refine ⟨sound, ?_⟩
  rintro ⟨positive, short, exactly⟩
  rw [delimitedLength, ← varintLen] at exactly
  have fits : (paddingTo room).isSome := by
    rw [paddingTo, List.findSome?_isSome_iff]
    refine ⟨varintLen padding, ?_, ?_⟩
    · have := encodeVarint_ne_nil padding
      have atLeast : 1 ≤ varintLen padding := List.length_pos_iff.2 this
      simp only [List.mem_cons, List.not_mem_nil, or_false]
      omega
    · have rest : room - (1 + varintLen padding) = padding := by omega
      rw [if_pos ⟨by omega, by rw [rest]⟩]
      rfl
  obtain ⟨other, found⟩ := Option.isSome_iff_exists.1 fits
  have same : delimitedLength other = delimitedLength padding := by
    have otherExactly := (sound found).2.2
    have padded : delimitedLength padding = varintLen padding + padding := rfl
    omega
  rw [found, delimitedLength_strictMono.injective same]

/-- Only three small sizes and those at the powers cannot be reached. -/
theorem exists_paddingTo {room : Nat}
    (atLeast : 3 ≤ room) (atMost : room ≤ 65538) (first : room ≠ 130)
    (second : room ≠ 16387) : ∃ padding, paddingTo room = some padding := by
  obtain ⟨padding, positive, exactly⟩ :=
    exists_fieldLength atLeast (atMost.trans (by decide)) first second
  have less := lt_delimitedLength padding
  have short : varintLen padding ≤ 5 := by
    rw [varintLen, length_encodeVarint]
    have : Nat.log 128 padding < 5 := Nat.log_lt_of_lt_pow' (by decide) (by omega)
    omega
  exact ⟨padding, paddingTo_eq_some.2 ⟨positive, short, exactly⟩⟩

/-! ## Tries -/

/-- The sizes that are tried one after another. -/
def l2Candidate (base : Nat) : Nat -> Nat
  | 0 => l2Target (base + 3)
  | tries + 1 => l2Target (l2Candidate base tries + 1)

/-- The first size that can be reached is taken. -/
theorem l2PaddingFrom_of_tries {base fuel skip tries padding : Nat}
    (found : paddingTo (l2Candidate base (skip + tries) - base) = some padding)
    (first : ∀ earlier < tries, paddingTo (l2Candidate base (skip + earlier) - base) = none)
    (enough : tries < fuel) : l2PaddingFrom base fuel (l2Candidate base skip) = padding := by
  induction tries generalizing skip fuel with
  | zero =>
      obtain ⟨fuel, rfl⟩ : ∃ before, fuel = before + 1 := ⟨fuel - 1, by omega⟩
      rw [Nat.add_zero] at found
      rw [l2PaddingFrom, found]
  | succ tries inductionHypothesis =>
      obtain ⟨fuel, rfl⟩ : ∃ before, fuel = before + 1 := ⟨fuel - 1, by omega⟩
      have missed := first 0 (Nat.succ_pos tries)
      rw [Nat.add_zero] at missed
      rw [l2PaddingFrom, missed]
      apply @inductionHypothesis fuel (skip + 1)
      · rw [show skip + 1 + tries = skip + (tries + 1) by omega]
        exact found
      · intro earlier less
        rw [show skip + 1 + earlier = skip + (earlier + 1) by omega]
        exact first (earlier + 1) (Nat.succ_lt_succ less)
      · omega

/-- One of the first two sizes is reached, and no lesser one can be. -/
theorem l2PaddingLen_spec (base : Nat) :
    ∃ tries < 4,
      paddingTo (l2Candidate base tries - base) = some (l2PaddingLen base) ∧
      base ≤ l2Candidate base tries ∧ l2Candidate base tries - base ≤ 65538 ∧
      ∀ padding, 1 ≤ padding -> OnGrid (base + (1 + delimitedLength padding)) ->
        l2Candidate base tries ≤ base + (1 + delimitedLength padding) := by
  have room : l2Candidate base 0 = l2Target (base + 3) := rfl
  have next : l2Candidate base 1 = l2Target (l2Target (base + 3) + 1) := rfl
  have atLeast {padding : Nat} (positive : 1 ≤ padding) : 2 ≤ delimitedLength padding :=
    delimitedLength_strictMono.monotone positive
  have least {padding : Nat} (positive : 1 ≤ padding)
      (onGrid : OnGrid (base + (1 + delimitedLength padding))) :
      l2Target (base + 3) ≤ base + (1 + delimitedLength padding) := by
    have := atLeast positive
    exact l2Target_le onGrid (by omega)
  have cases := l2Target_cases (base + 3)
  have nextCases := l2Target_cases (l2Target (base + 3) + 1)
  by_cases reached : ∃ padding, paddingTo (l2Candidate base 0 - base) = some padding
  · obtain ⟨padding, found⟩ := reached
    have result : l2PaddingLen base = padding := by
      apply @l2PaddingFrom_of_tries base 4 0 0 padding found
      · intro earlier less
        omega
      · omega
    exact ⟨0, by omega, result ▸ found, by omega, by omega, fun other => least⟩
  · have missed : paddingTo (l2Candidate base 0 - base) = none := by
      by_contra found
      exact reached (Option.ne_none_iff_exists'.1 found)
    have gap : l2Target (base + 3) - base = 130 ∨ l2Target (base + 3) - base = 16387 := by
      by_contra other
      apply reached
      apply exists_paddingTo <;> omega
    have bounds : 131 ≤ l2Candidate base 1 - base ∧ l2Candidate base 1 - base ≤ 65538 ∧
        l2Candidate base 1 - base ≠ 16387 := by
      omega
    obtain ⟨padding, found⟩ : ∃ padding, paddingTo (l2Candidate base 1 - base) = some padding := by
      apply exists_paddingTo <;> omega
    have result : l2PaddingLen base = padding := by
      apply @l2PaddingFrom_of_tries base 4 0 1 padding found
      · intro earlier less
        obtain rfl : earlier = 0 := by omega
        exact missed
      · omega
    refine ⟨1, by omega, result ▸ found, by omega, by omega, ?_⟩
    intro other positive onGrid
    have firstLe := least positive onGrid
    have different : l2Target (base + 3) ≠ base + (1 + delimitedLength other) := by
      intro equal
      have short : varintLen other ≤ 5 := by
        have less := lt_delimitedLength other
        rw [varintLen, length_encodeVarint]
        have : Nat.log 128 other < 5 := Nat.log_lt_of_lt_pow' (by decide) (by omega)
        omega
      have exactly : l2Candidate base 0 - base = 1 + delimitedLength other := by omega
      have found := paddingTo_eq_some.2 ⟨positive, short, exactly⟩
      rw [missed] at found
      cases found
    have greater : l2Target (base + 3) + 1 ≤ base + (1 + delimitedLength other) := by omega
    rw [next]
    exact l2Target_le onGrid greater

/-! ## Layers -/

/-- What padding does for a message whose encoded length depends on it: the length is on the
grid, no other padding reaches a lesser size of the grid, and a size was found in time. -/
structure LandsOnGrid (lengthWith : Bytes -> Nat) (padding : Bytes) : Prop where
  onGrid : OnGrid (lengthWith padding)
  least : ∀ other : Bytes, 1 ≤ other.length -> OnGrid (lengthWith other) ->
    lengthWith padding ≤ lengthWith other
  atLeast : 1 ≤ padding.length
  atMost : padding.length ≤ 65536
  found : ∃ tries < 4,
    paddingTo (l2Candidate (lengthWith []) tries - lengthWith []) = some padding.length

theorem onGrid_l2Candidate (base tries : Nat) : OnGrid (l2Candidate base tries) := by
  cases tries <;> exact onGrid_l2Target _

/-- Padding lands on the grid in every message that writes it as a field of its own. -/
theorem landsOnGrid {lengthWith : Bytes -> Nat}
    (grows : ∀ padding : Bytes, 1 ≤ padding.length ->
      lengthWith padding = lengthWith [] + (1 + delimitedLength padding.length)) :
    LandsOnGrid lengthWith (List.replicate (l2PaddingLen (lengthWith [])) 0) := by
  obtain ⟨tries, inTime, found, le, room, least⟩ := l2PaddingLen_spec (lengthWith [])
  obtain ⟨positive, -, exactly⟩ := paddingTo_eq_some.1 found
  have length : (List.replicate (l2PaddingLen (lengthWith [])) (0 : UInt8)).length =
      l2PaddingLen (lengthWith []) := List.length_replicate
  have reached : lengthWith (List.replicate (l2PaddingLen (lengthWith [])) 0) =
      l2Candidate (lengthWith []) tries := by
    rw [grows _ (by omega), length]
    omega
  have less := lt_delimitedLength (l2PaddingLen (lengthWith []))
  refine ⟨?_, ?_, by omega, by omega, tries, inTime, by rw [length]; exact found⟩
  · rw [reached]
    exact onGrid_l2Candidate (lengthWith []) tries
  · intro other otherPositive onGrid
    rw [grows other otherPositive] at onGrid ⊢
    rw [reached]
    exact least other.length otherPositive onGrid

/-- Padding of both kinds of layers lands on the grid. -/
theorem padding_lands_on_grid :
    (∀ library : SendingLibrary, (∀ inner, library.encodeSealedInner inner = encode inner) ->
      ∀ inner : SealedInner,
        OnGrid (encode (padL2 library inner)).length ∧
        LandsOnGrid (fun padding => (encode { inner with padding := padding }).length)
          (padL2 library inner).padding) ∧
    (∀ inner : GroupEnvelopeInner,
      OnGrid (encode (padGroup inner)).length ∧
      LandsOnGrid (fun padding => (encode { inner with padding := padding }).length)
        (padGroup inner).padding) := by
  constructor
  · intro library encodes inner
    have lands : LandsOnGrid (fun padding => (encode { inner with padding := padding }).length)
        (padL2 library inner).padding := by
      simp only [padL2, encodes]
      apply landsOnGrid
      intro padding positive
      have grows := @length_encodeFields_between
        (message 1 inner.sender ++ bytes 2 inner.olmMessage ++ Wire.uint32 3 inner.olmType) []
        4 (by decide) padding positive
      rw [List.append_nil, List.append_nil] at grows
      exact grows
    exact ⟨lands.onGrid, lands⟩
  · intro inner
    have lands : LandsOnGrid (fun padding => (encode { inner with padding := padding }).length)
        (padGroup inner).padding := by
      apply landsOnGrid
      intro padding positive
      exact @length_encodeFields_between
        (bytes 1 inner.megolmSessionId ++ bytes 2 inner.megolmMessage)
        (bytes 4 inner.publicSession) 3 (by decide) padding positive
    exact ⟨lands.onGrid, lands⟩

end Parvane.Engine
