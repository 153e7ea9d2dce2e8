import Parvane.Domain.Chain
import Parvane.Engine.Epochs
import Parvane.Group.Chain

/-!
# Forks of a log

A party says how long its log is and what the last hash is.  The other one looks up the
hash it has at that place.  One hash stands for everything before it, so the answer tells
whether the first log is the beginning of the second.
-/

namespace Parvane

open Wire HashChain

/-! ## Groups -/

namespace Engine

open Parvane.Group

variable {library : Group.Library} {ours theirs : List GroupStateEntry} {state other : GroupState}

/-- Different operations have different hashes, as far as the two logs go. -/
def NoCollision (library : Group.Library) (ours theirs : List GroupStateEntry) : Prop :=
  ∀ entry ∈ ours, ∀ twin ∈ theirs, ∀ op ∈ entry.change, ∀ twinOp ∈ twin.change,
    Group.entryHash library op = Group.entryHash library twinOp -> op = twinOp

theorem NoCollision.separates
    (distinct : NoCollision library ours theirs) (recorded : Group.Recorded library ours state)
    (otherRecorded : Group.Recorded library theirs other) :
    Separates (Group.hashOf library) ours theirs := by
  intro entry member twin twinMember same
  obtain ⟨op, stateChange, copied⟩ := recorded.copied entry member
  obtain ⟨twinOp, twinChange, twinCopied⟩ := otherRecorded.copied twin twinMember
  rw [Group.hashOf_eq copied.change, Group.hashOf_eq twinCopied.change] at same
  have sameOp := distinct entry member twin twinMember op copied.change twinOp twinCopied.change
    (FixedBytes.bytes_injective same)
  subst sameOp
  exact copied.entry_eq twinCopied

theorem headHash_eq
    (recorded : Group.Recorded library theirs other) {last : GroupStateEntry}
    (isLast : theirs.getLast? = some last) : other.headHash.bytes = Group.hashOf library last := by
  have known : other.hashes.getLast?.map FixedBytes.bytes = some (Group.hashOf library last) := by
    rw [← List.getLast?_map, recorded.hashes, List.getLast?_map, isLast, Option.map_some]
  obtain ⟨head, headEq, isHash⟩ := Option.map_eq_some_iff.1 known
  rw [GroupState.headHash, headEq, Option.getD_some, isHash]

/-- The answer to a context that another party made, in terms of the two logs. -/
theorem checkContext_contextOf
    (ourLog : Group.LogOf library ours state) (theirLog : Group.LogOf library theirs other)
    (distinct : NoCollision library ours theirs) :
    checkContext state (contextOf other) =
      if other.group ≠ state.group then .wrongGroup
      else if ours.length < theirs.length then .behind
      else if theirs <+: ours then .ok
      else .fork := by
  have recorded := ourLog.recorded
  have otherRecorded := theirLog.recorded
  obtain ⟨last, isLast⟩ := Option.isSome_iff_exists.1
    (List.getLast?_isSome.2 otherRecorded.nonempty)
  have length : (contextOf other).stateVersion.toNat = theirs.length := by
    rw [contextOf, otherRecorded.version]
    exact UInt64.toNat_ofNat_of_lt' otherRecorded.small
  have some := List.length_pos_of_ne_nil otherRecorded.nonempty
  have positive : (contextOf other).stateVersion ≠ 0 := by
    intro zero
    rw [zero] at length
    exact some.ne length
  have isPrefix := prefix_iff_hash_eq recorded.linked otherRecorded.linked
    (distinct.separates recorded otherRecorded) isLast
  have head : (contextOf other).stateHeadHash = Group.hashOf library last :=
    headHash_eq otherRecorded isLast
  have known : state.hashes[theirs.length - 1]?.map FixedBytes.bytes =
      ours[theirs.length - 1]?.map (Group.hashOf library) := by
    rw [← List.getElem?_map, recorded.hashes, List.getElem?_map]
  rw [checkContext, length, if_neg positive, head, recorded.version]
  refine if_congr (by simp [contextOf]) rfl (if_congr Iff.rfl rfl ?_)
  split
  · next hash found =>
      rw [found, Option.map_some] at known
      obtain ⟨entry, entryEq, isHash⟩ := Option.map_eq_some_iff.1 known.symm
      refine if_congr ?_ rfl rfl
      rw [isPrefix, entryEq, ← isHash]
      simp
  · next absent =>
      rw [absent, Option.map_none] at known
      rw [if_neg]
      rw [isPrefix, Option.map_eq_none_iff.1 known.symm]
      simp

end Engine

/-! ## Containers -/

namespace Shared

open Sign Domain

/-- Hand the key of an epoch to another user, with the head of the grant log. -/
def keyShare (access : ContainerAccess) (epoch : UInt64) (key : Key) :
    Result ContainerKeyShare := do
  require (epoch != 0 && epoch ≤ access.epoch) (.invalidField "key_epoch")
  let ref ← containerRef access.container
  return {
    container := some ref
    domain := access.container.domain
    keyEpoch := epoch
    key := key.bytes
    grantVersion := .ofNat access.version
    grantHeadHash := access.headHash.bytes }

variable {library : Domain.Library} {ours theirs : List SignedOp} {access other : ContainerAccess}

/-- Different entries have different hashes, as far as the two logs go. -/
def NoCollision (library : Domain.Library) (ours theirs : List SignedOp) : Prop :=
  ∀ op ∈ ours, ∀ twin ∈ theirs, Domain.entryHash library op = Domain.entryHash library twin ->
    op = twin

section

variable (recorded : Recorded library ours access)

include recorded

theorem exists_containerRef :
    ∃ ref, containerRef access.container = .ok ref ∧ access.container.ref = some ref := by
  obtain ⟨genesis, -, verified, isVerified, same, -⟩ := recorded.container
  simp only [verifyGenesis, bind_eq_ok, pure, Except.pure, Except.ok.injEq] at isVerified
  obtain ⟨_, -, container, -, ref, isRef, _, -, _, -, _, -, _, -, _, -, rfl⟩ := isVerified
  refine ⟨ref, ?_, ?_⟩
  · rw [containerRef, same]
    exact isRef
  · simp only [containerRef, bind_eq_ok, present_eq_ok, pure, Except.pure, Except.ok.injEq] at isRef
    obtain ⟨found, isFound, _, -, rfl⟩ := isRef
    exact same.trans isFound

/-- The key of any epoch so far can be handed out. -/
theorem exists_keyShare
    (key : Key) {epoch : UInt64} (positive : epoch ≠ 0)
    (low : epoch ≤ access.epoch) : ∃ share, keyShare access epoch key = .ok share := by
  obtain ⟨ref, isRef, -⟩ := exists_containerRef recorded
  have inRange : (epoch != 0 && decide (epoch ≤ access.epoch)) = true := by simp [positive, low]
  exact ⟨_, by simp only [keyShare, inRange, isRef]; rfl⟩

/-- Along a log the epochs only go up. -/
theorem epoch_le_of_beginning
    (otherRecorded : Recorded library theirs other)
    (isPrefix : theirs <+: ours) : other.epoch ≤ access.epoch := by
  rw [UInt64.le_iff_toNat_le, recorded.epoch, otherRecorded.epoch]
  obtain ⟨more, rfl⟩ := isPrefix
  have := List.Sublist.countP_le (p := startsEpoch library)
    (List.Sublist.tail (List.sublist_append_left theirs more))
  omega

end

theorem ok_bind (value : α) (next : α -> Result β) :
    ((Except.ok value : Result α) >>= next) = next value :=
  rfl

theorem require_bind (condition : Bool) (error : ProtoError) (next : Unit -> Result α) :
    (require condition error >>= next) = if condition = true then next () else .error error := by
  cases condition <;> rfl

/-- The log of a share decides, once the container and the sender are right. -/
theorem acceptKeyShare_keyShare
    (ourLog : Domain.LogOf library ours access) (theirLog : Domain.LogOf library theirs other)
    (distinct : NoCollision library ours theirs)
    {epoch : UInt64} {key : Key} {share : ContainerKeyShare}
    (shared : keyShare other epoch key = .ok share) (sender : String) (groups : Membership) :
    acceptKeyShare access share sender groups =
      if other.container.ref ≠ access.container.ref ∨
          other.container.domain ≠ access.container.domain then .error .contextMismatch
      else if access.canAdmin sender groups = false then .error .forbidden
      else if ours.length < theirs.length then .error .expired
      else if theirs <+: ours then .ok (epoch, key)
      else .error .brokenChain := by
  have recorded := ourLog.recorded
  have otherRecorded := theirLog.recorded
  obtain ⟨ref, isRef, refEq⟩ := exists_containerRef recorded
  obtain ⟨otherRef, otherIsRef, otherRefEq⟩ := exists_containerRef otherRecorded
  simp only [keyShare, bind_eq_ok, require_eq_ok, Bool.and_eq_true, bne_iff_ne, ne_eq,
    decide_eq_true_eq, otherIsRef, Except.ok.injEq, exists_eq_left', pure, Except.pure] at shared
  obtain ⟨_, ⟨positive, low⟩, rfl⟩ := shared
  have length : (UInt64.ofNat other.version).toNat = other.version :=
    UInt64.toNat_ofNat_of_lt' otherRecorded.small
  have place := otherRecorded.version
  have ourPlace := recorded.version
  have nonempty : theirs ≠ [] := List.ne_nil_of_length_pos (by omega)
  obtain ⟨last, isLast⟩ := Option.isSome_iff_exists.1 (List.getLast?_isSome.2 nonempty)
  have head : other.headHash = Domain.entryHash library last := by
    rw [ContainerAccess.headHash, otherRecorded.hashes, List.getLast?_map, isLast]
    rfl
  have isPrefix := prefix_iff_hash_eq recorded.linked otherRecorded.linked
    (fun op member twin twinMember same =>
      distinct op member twin twinMember (FixedBytes.bytes_injective same)) isLast
  rw [show theirs.length - 1 = other.version by omega] at isPrefix
  have isSame : (some otherRef == some ref &&
      other.container.domain == access.container.domain) = true ↔
        ¬ (other.container.ref ≠ access.container.ref ∨
          other.container.domain ≠ access.container.domain) := by
    rw [Bool.and_eq_true, beq_iff_eq, beq_iff_eq, otherRefEq, refEq, not_or, not_not, not_not]
  simp only [acceptKeyShare, isRef, ok_bind, require_bind, isSame, ite_not, length]
  refine if_congr Iff.rfl rfl ?_
  have isAdmin : access.canAdmin sender groups = false ↔ ¬ access.canAdmin sender groups = true := by
    rw [Bool.not_eq_true]
  simp only [isAdmin, ite_not]
  refine if_congr Iff.rfl ?_ rfl
  have inLog : decide (other.version ≤ access.version) = true ↔ ¬ ours.length < theirs.length := by
    rw [decide_eq_true_eq]
    omega
  simp only [inLog, ite_not]
  refine if_congr Iff.rfl rfl ?_
  have known : access.hashes[other.version]? = ours[other.version]?.map (Domain.entryHash library) := by
    rw [recorded.hashes, List.getElem?_map]
  cases here : ours[other.version]? with
  | none =>
      have forked : ¬ theirs <+: ours := by
        rw [isPrefix, here]
        simp
      rw [known, here, if_neg forked]
      rfl
  | some entry =>
      have sameHead : (other.headHash.bytes == (Domain.entryHash library entry).bytes) = true ↔
          theirs <+: ours := by
        rw [isPrefix, here, head, beq_iff_eq]
        exact ⟨fun same => ⟨entry, rfl, same.symm⟩, by rintro ⟨_, ⟨⟩, same⟩; exact same.symm⟩
      rw [known, here]
      simp only [Option.map_some, present, ok_bind, sameHead]
      by_cases isBeginning : theirs <+: ours
      · have reached : (epoch != 0 && decide (epoch ≤ access.epoch)) = true := by
          simpa [positive] using low.trans (epoch_le_of_beginning recorded otherRecorded isBeginning)
        have keyEq : FixedBytes.ofBytes? keyLen key.bytes = some key := by
          simp [FixedBytes.ofBytes?, key.length_eq]
        rw [if_pos isBeginning, if_pos isBeginning, if_pos reached, keyEq]
        rfl
      · rw [if_neg isBeginning, if_neg isBeginning]

end Shared

/-! ## Both logs -/

open Parvane.Group (GroupState GroupStateEntry)
open Domain (ContainerAccess)
open Sign (SignedOp)

/-- A context is accepted exactly when the log of its author is a beginning of the own one,
and a key share too once its container and its sender are right.  A longer log is behind
what the other one saw, and one that differs is a fork. -/
theorem heads_compare_logs (groupLibrary : Group.Library) (library : Domain.Library) :
    (∀ (ours theirs : List GroupStateEntry) (state other : GroupState),
      Group.LogOf groupLibrary ours state -> Group.LogOf groupLibrary theirs other ->
      Engine.NoCollision groupLibrary ours theirs ->
      Engine.checkContext state (Engine.contextOf other) =
        if other.group ≠ state.group then .wrongGroup
        else if ours.length < theirs.length then .behind
        else if theirs <+: ours then .ok
        else .fork) ∧
    ∀ (ours theirs : List SignedOp) (access other : ContainerAccess) (epoch : UInt64)
      (key : Shared.Key) (share : Shared.ContainerKeyShare) (sender : String)
      (groups : Domain.Membership),
      Domain.LogOf library ours access -> Domain.LogOf library theirs other ->
      Shared.NoCollision library ours theirs -> Shared.keyShare other epoch key = .ok share ->
      Shared.acceptKeyShare access share sender groups =
        if other.container.ref ≠ access.container.ref ∨
            other.container.domain ≠ access.container.domain then .error .contextMismatch
        else if access.canAdmin sender groups = false then .error .forbidden
        else if ours.length < theirs.length then .error .expired
        else if theirs <+: ours then .ok (epoch, key)
        else .error .brokenChain := by
  constructor
  · intro ours theirs state other ourLog theirLog distinct
    exact Engine.checkContext_contextOf ourLog theirLog distinct
  · intro ours theirs access other epoch key share sender groups ourLog theirLog distinct shared
    exact Shared.acceptKeyShare_keyShare ourLog theirLog distinct shared sender groups

section

open Domain.ContainerAccess (sampleLibrary sampleOp sampleStart noGroups sampleStart_eq)

/-- The owner hands out the key of the first epoch, and all parties have the same log. -/
theorem exists_share_of_sample :
    ∃ share, Shared.keyShare sampleStart 1 Domain.zeroHash = .ok share ∧
      Domain.LogOf sampleLibrary [sampleOp 0 0 1] sampleStart ∧
      Shared.NoCollision sampleLibrary [sampleOp 0 0 1] [sampleOp 0 0 1] := by
  have log : Domain.LogOf sampleLibrary [sampleOp 0 0 1] sampleStart := .created sampleStart_eq
  obtain ⟨share, shared⟩ := Shared.exists_keyShare log.recorded Domain.zeroHash
    (show (1 : UInt64) ≠ 0 by decide) (show 1 ≤ sampleStart.epoch by decide +kernel)
  refine ⟨share, shared, log, ?_⟩
  intro op member twin twinMember _
  exact (List.mem_singleton.1 member).trans (List.mem_singleton.1 twinMember).symm

theorem heads_compare_logs_sample :
    ∃ share, Shared.keyShare sampleStart 1 Domain.zeroHash = .ok share ∧
      Shared.acceptKeyShare sampleStart share "u@a.org" noGroups = .ok (1, Domain.zeroHash) := by
  obtain ⟨share, shared, log, distinct⟩ := exists_share_of_sample
  have compare := (heads_compare_logs Group.rolesLibrary sampleLibrary).2 [sampleOp 0 0 1]
    [sampleOp 0 0 1] sampleStart sampleStart 1 Domain.zeroHash share "u@a.org" noGroups log log
    distinct shared
  have isAdmin : sampleStart.canAdmin "u@a.org" noGroups = true := by decide +kernel
  refine ⟨share, shared, compare.trans ?_⟩
  simp [isAdmin]

/-- The logs are the same, but the sender may not hand out keys. -/
theorem acceptKeyShare_of_stranger :
    ∃ share, Domain.LogOf sampleLibrary [sampleOp 0 0 1] sampleStart ∧
      Shared.NoCollision sampleLibrary [sampleOp 0 0 1] [sampleOp 0 0 1] ∧
      Shared.keyShare sampleStart 1 Domain.zeroHash = .ok share ∧
      [sampleOp 0 0 1] <+: [sampleOp 0 0 1] ∧
      Shared.acceptKeyShare sampleStart share "v@a.org" noGroups = .error .forbidden := by
  obtain ⟨share, shared, log, distinct⟩ := exists_share_of_sample
  have stranger : sampleStart.canAdmin "v@a.org" noGroups = false := by decide +kernel
  refine ⟨share, log, distinct, shared, List.prefix_rfl, ?_⟩
  rw [Shared.acceptKeyShare_keyShare log log distinct shared]
  simp [stranger]

end

end Parvane
