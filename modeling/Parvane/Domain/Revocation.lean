import Parvane.Domain.Access
import Parvane.Foundation.Run

/-!
# What the grant log keeps

An accepted entry of the grant log does one of four things.  From that follow the
invariants of the access to a container, and that a revocation lasts.
-/

namespace Parvane.Domain
namespace ContainerAccess

open Wire Sign

/-! ## Steps -/

/-- What an accepted entry does. -/
inductive Step (library : Library) (op : SignedOp) (access : ContainerAccess) (grant : Grant) :
    GrantOp -> ContainerAccess -> GrantEvent -> Prop
  | leave
      (event : GrantEvent)
      (grantee : Grantee)
      (subject : event.grantee = grantee)
      (noLevel : event.level = none) :
      Step library op access grant .leave
        ({ access with grants := access.grants.erase grantee }.record library op) event
  | rotate
      (event : GrantEvent)
      (next : UInt64)
      (follows : checkedSucc access.epoch = some next)
      (noLevel : event.level = none) :
      Step library op access grant .rotate
        ((access.startEpoch next grant.epochBoundarySeq).record library op).publishEpoch event
  | revoke
      (event : GrantEvent)
      (grantee : Grantee)
      (next : UInt64)
      (subject : event.grantee = grantee)
      (follows : checkedSucc access.epoch = some next)
      (sent : Grantee.fromPb grant.grantee = .ok grantee)
      (noLevel : event.level = none) :
      Step library op access grant .revoke
        ((({ access with grants := access.grants.erase grantee }).startEpoch next
          grant.epochBoundarySeq).record library op).publishEpoch event
  | grant
      (event : GrantEvent)
      (grantee : Grantee)
      (level : GrantLevel)
      (subject : event.grantee = grantee)
      (notOwner : grantee ≠ .user access.owner)
      (hasLevel : event.level = some level) :
      Step library op access grant .grant
        ((({ access with
            grants := access.grants.insert grantee level
            writers :=
              if GrantLevel.write ≤ level then
                access.writers.insert access.epoch
                  ((access.writers[access.epoch]?.getD ∅).insert grantee)
              else access.writers }).record library op).publishEpoch) event

theorem removeGrant_atomic (grantee : Grantee) (access : ContainerAccess) :
    Update.Atomic access (removeGrant grantee) access fun _ later =>
      later = { access with grants := access.grants.erase grantee } := by
  unfold Update.Atomic
  simp only [removeGrant, Update.exec_bind, Update.exec_modifyGet, Update.exec_liftM, require]
  split
  · next ran =>
      split at ran <;> cases ran
      rfl
  · next ran =>
      split at ran <;> cases ran
      next absent =>
        -- Erasing what is not there changes nothing.
        have same : access.grants.erase grantee = access.grants := by
          apply Std.ExtTreeMap.ext_getElem?
          intro other
          rw [Std.ExtTreeMap.getElem?_erase]
          split
          · next equal =>
              rw [← Std.LawfulEqCmp.eq_of_compare equal]
              simpa using absent
          · rfl
        rw [same]

variable (library : Library) (op : SignedOp) (access : ContainerAccess) (grant : Grant)

theorem applyLeave_atomic (signer : Author) :
    Update.Atomic access (applyLeave library op grant signer) access fun event next =>
      Step library op access grant .leave next event := by
  refine Update.atomic_get (Update.atomic_check fun grantee _ => ?_)
  refine Update.atomic_check fun _ _ => Update.atomic_check fun _ _ => ?_
  refine Update.atomic_bind (removeGrant_atomic grantee access) ?_
  rintro _ later rfl
  refine Update.atomic_modify (Update.atomic_get (Update.atomic_pure ?_))
  refine Step.leave _ grantee ?_ ?_
  · rfl
  · rfl

theorem applyRotate_atomic (signer : Author) :
    Update.Atomic access (applyRotate library op grant signer) access fun event next =>
      Step library op access grant .rotate next event := by
  refine Update.atomic_get (Update.atomic_check fun next nextEq => ?_)
  refine Update.atomic_check fun _ _ => ?_
  refine Update.atomic_modify (Update.atomic_get (Update.atomic_pure ?_))
  refine Step.rotate _ next ((present_eq_ok _ _ _).1 nextEq) ?_
  rfl

theorem applyRevoke_atomic (grantee : Grantee) (level : GrantLevel) :
    Update.Atomic access (applyRevoke grant grantee level) access fun eventLevel later =>
      eventLevel = none ∧ ∃ next, checkedSucc access.epoch = some next ∧
        later = ({ access with grants := access.grants.erase grantee }).startEpoch next
          grant.epochBoundarySeq := by
  refine Update.atomic_get (Update.atomic_check fun next nextEq => ?_)
  refine Update.atomic_check fun _ _ => ?_
  refine Update.atomic_bind (removeGrant_atomic grantee access) ?_
  rintro _ later rfl
  exact ⟨rfl, next, (present_eq_ok _ _ _).1 nextEq, rfl⟩

theorem applyGrant_atomic (grantee : Grantee) (level : GrantLevel) :
    Update.Atomic access (applyGrant grant grantee level) access fun eventLevel later =>
      eventLevel = some level ∧
        later =
          { access with
            grants := access.grants.insert grantee level
            writers :=
              if GrantLevel.write ≤ level then
                access.writers.insert access.epoch
                  ((access.writers[access.epoch]?.getD ∅).insert grantee)
              else access.writers } := by
  refine Update.atomic_get (Update.atomic_check fun _ _ => Update.atomic_check fun _ _ => ?_)
  by_cases writes : GrantLevel.write ≤ level
  · simp only [if_pos writes]
    exact ⟨rfl, rfl⟩
  · simp only [if_neg writes]
    exact ⟨rfl, rfl⟩

/-- A refused entry changes nothing, and an accepted one does one of four things. -/
theorem apply_atomic (resolve : KeyResolver) (groups : Membership) :
    Update.Atomic access (apply library op resolve groups) access fun event next =>
      ∃ entry, access.readEntry library op = .ok entry ∧
        Step library op access entry.grant entry.kind next event := by
  refine Update.atomic_get (Update.atomic_check fun entry entryEq => ?_)
  refine Update.atomic_check fun signer _ => ?_
  obtain ⟨kind, key, grant⟩ := entry
  by_cases leaves : kind = .leave
  · subst leaves
    exact Update.atomic_mono (applyLeave_atomic library op access grant signer)
      fun event next step => ⟨_, entryEq, step⟩
  simp only [beq_iff_eq, if_neg leaves]
  refine Update.atomic_check fun _ _ => ?_
  by_cases rotates : kind = .rotate
  · subst rotates
    exact Update.atomic_mono (applyRotate_atomic library op access grant signer)
      fun event next step => ⟨_, entryEq, step⟩
  simp only [if_neg rotates]
  refine Update.atomic_check fun grantee granteeEq => ?_
  refine Update.atomic_check fun _ notOwner => ?_
  refine Update.atomic_check fun level _ => ?_
  by_cases revokes : kind = .revoke
  · subst revokes
    simp only [if_true]
    refine Update.atomic_bind (applyRevoke_atomic access grant grantee level) ?_
    rintro _ later ⟨rfl, next, follows, rfl⟩
    refine Update.atomic_modify (Update.atomic_get (Update.atomic_pure ⟨_, entryEq, ?_⟩))
    refine Step.revoke _ grantee next ?_ follows granteeEq ?_
    · rfl
    · rfl
  · obtain rfl : kind = .grant := by
      cases kind <;> simp_all
    simp only [if_neg revokes]
    refine Update.atomic_bind (applyGrant_atomic access grant grantee level) ?_
    rintro _ later ⟨rfl, rfl⟩
    refine Update.atomic_modify (Update.atomic_get (Update.atomic_pure ⟨_, entryEq, ?_⟩))
    refine Step.grant _ grantee level ?_ ?_ ?_
    · rfl
    · simpa using notOwner
    · rfl

/-- An entry is accepted. -/
def Accepts (access : ContainerAccess) (event : GrantEvent) (next : ContainerAccess) : Prop :=
  ∃ op resolve groups, (apply library op resolve groups).exec access = (.ok event, next)

/-- The access to a container after its creation and some accepted entries. -/
def Reachable (access : ContainerAccess) : Prop :=
  ∃ genesis resolve start events, fromGenesis library genesis resolve = .ok start ∧
    Run (Accepts library) start events access

variable {library access}

variable {next : ContainerAccess} {event : GrantEvent}

theorem Accepts.step
    (accepts : Accepts library access event next) :
    ∃ op grant kind, Step library op access grant kind next event := by
  obtain ⟨op, resolve, groups, ran⟩ := accepts
  obtain ⟨error, refused⟩ | ⟨other, later, accepted, entry, -, step⟩ :=
    (apply_atomic library op access resolve groups).cases
  · rw [refused] at ran
    cases ran
  · rw [accepted] at ran
    cases ran
    exact ⟨op, _, _, step⟩

/-! ## The invariant -/

/-- What holds of the access to a container at any time. -/
structure Invariant (access : ContainerAccess) : Prop where
  hashes : access.hashes.length = access.version + 1
  positive : firstEpoch ≤ access.epoch
  epochs : ∀ epoch, epoch ∈ access.writers ↔ firstEpoch ≤ epoch ∧ epoch ≤ access.epoch
  owner : .user access.owner ∉ access.grants
  current : ∀ grantee level, access.grants[grantee]? = some level -> GrantLevel.write ≤ level ->
    ∃ writers, access.writers[access.epoch]? = some writers ∧ grantee ∈ writers

theorem mem_writeGrantees {grantee : Grantee} :
    grantee ∈ access.writeGrantees ↔
      ∃ level, access.grants[grantee]? = some level ∧ GrantLevel.write ≤ level := by
  rw [writeGrantees, Std.ExtTreeSet.mem_ofList]
  simp [Std.ExtTreeMap.mem_toList_iff_getElem?_eq_some]

theorem le_checkedSucc_iff {epoch next other : UInt64}
    (follows : checkedSucc epoch = some next) : other ≤ next ↔ other ≤ epoch ∨ other = next := by
  have nextEq := checkedSucc_eq_some follows
  rw [UInt64.le_iff_toNat_le, UInt64.le_iff_toNat_le, ← UInt64.toNat_inj]
  omega

/-- A new epoch keeps the invariant, whatever the grants were. -/
theorem Invariant.startEpoch
    (invariant : Invariant access) {next : UInt64} (follows : checkedSucc access.epoch = some next)
    {grants : Std.ExtTreeMap Grantee GrantLevel} (owner : Grantee.user access.owner ∉ grants)
    (boundary : Option UInt64) :
    Invariant ((({ access with grants := grants }).startEpoch next boundary).record library op)
      := by
  have first : firstEpoch ≤ next := by
    have nextEq := checkedSucc_eq_some follows
    rw [UInt64.le_iff_toNat_le, nextEq]
    exact Nat.le_add_left _ _
  refine ⟨?_, first, ?_, owner, ?_⟩
  · simp [record, ContainerAccess.startEpoch, invariant.hashes]
  · intro epoch
    simp only [record, ContainerAccess.startEpoch, Std.ExtTreeMap.mem_insert, compare_eq_iff_eq,
      invariant.epochs, le_checkedSucc_iff follows]
    constructor
    · rintro (rfl | ⟨low, high⟩)
      · exact ⟨first, .inr rfl⟩
      · exact ⟨low, .inl high⟩
    · rintro ⟨low, high | rfl⟩
      · exact .inr ⟨low, high⟩
      · exact .inl rfl
  · intro grantee level held writes
    refine ⟨_, Std.ExtTreeMap.getElem?_insert_self, ?_⟩
    exact mem_writeGrantees.2 ⟨level, held, writes⟩

theorem Invariant.publishEpoch (invariant : Invariant access) : Invariant access.publishEpoch :=
  ⟨invariant.hashes, invariant.positive, invariant.epochs, invariant.owner, invariant.current⟩

theorem not_mem_erase {grants : Std.ExtTreeMap Grantee GrantLevel} {grantee other : Grantee}
    (absent : grantee ∉ grants) : grantee ∉ grants.erase other := by
  intro member
  exact absent (Std.ExtTreeMap.mem_of_mem_erase member)

/-- An accepted entry keeps the invariant. -/
theorem Step.invariant {grant : Grant} {kind : GrantOp}
    (step : Step library op access grant kind next event)
    (invariant : Invariant access) : Invariant next := by
  cases step with
  | leave event grantee subject noLevel =>
      refine ⟨?_, invariant.positive, invariant.epochs, not_mem_erase invariant.owner, ?_⟩
      · simp [record, invariant.hashes]
      · intro other level held writes
        refine invariant.current other level ?_ writes
        simp only [record, Std.ExtTreeMap.getElem?_erase] at held
        split at held
        · cases held
        · exact held
  | rotate event next follows noLevel =>
      exact (invariant.startEpoch op follows invariant.owner _).publishEpoch
  | revoke event grantee next subject follows sent noLevel =>
      exact (invariant.startEpoch op follows (not_mem_erase invariant.owner) _).publishEpoch
  | grant event grantee level subject notOwner hasLevel =>
      refine Invariant.publishEpoch ⟨?_, invariant.positive, ?_, ?_, ?_⟩
      · simp [record, invariant.hashes]
      · intro epoch
        have present : access.epoch ∈ access.writers :=
          (invariant.epochs _).2 ⟨invariant.positive, le_rfl⟩
        simp only [record]
        rw [← invariant.epochs]
        split
        · rw [Std.ExtTreeMap.mem_insert, compare_eq_iff_eq]
          constructor
          · rintro (rfl | member)
            · exact present
            · exact member
          · exact .inr
        · rfl
      · simp only [record, Std.ExtTreeMap.mem_insert, compare_eq_iff_eq, not_or]
        exact ⟨notOwner, invariant.owner⟩
      · intro other otherLevel held writes
        simp only [record, Std.ExtTreeMap.getElem?_insert, compare_eq_iff_eq] at held ⊢
        by_cases same : grantee = other
        · rw [if_pos same] at held
          cases held
          rw [if_pos writes]
          exact ⟨_, Std.ExtTreeMap.getElem?_insert_self,
            Std.ExtTreeSet.mem_insert.2 (.inl (compare_eq_iff_eq.2 same))⟩
        · rw [if_neg same] at held
          obtain ⟨writers, writersEq, member⟩ := invariant.current other otherLevel held writes
          split
          · refine ⟨_, Std.ExtTreeMap.getElem?_insert_self, ?_⟩
            rw [writersEq, Std.ExtTreeSet.mem_insert]
            exact .inr member
          · exact ⟨writers, writersEq, member⟩

theorem invariant_of_fromGenesis {genesis : SignedOp} {resolve : KeyResolver}
    (created : fromGenesis library genesis resolve = .ok access) : Invariant access := by
  simp only [fromGenesis, bind_eq_ok, Prod.exists, require_eq_ok, pure, Except.pure,
    Except.ok.injEq] at created
  obtain ⟨container, signer, -, owner, -, _, -, rfl⟩ := created
  refine ⟨rfl, le_rfl, ?_, by simp, by simp⟩
  intro epoch
  rw [Std.ExtTreeMap.mem_insert, compare_eq_iff_eq]
  constructor
  · rintro (rfl | member)
    · exact ⟨le_rfl, le_rfl⟩
    · simp at member
  · rintro ⟨low, high⟩
    exact .inl (le_antisymm low high)

theorem Reachable.invariant (reachable : Reachable library access) : Invariant access := by
  obtain ⟨genesis, resolve, start, events, created, run⟩ := reachable
  refine run.invariant ?_ (invariant_of_fromGenesis created)
  intro state next event _ accepts invariant
  obtain ⟨op, grant, kind, step⟩ := accepts.step
  exact step.invariant op invariant

/-- At any time the log has an entry for each version, writers are recorded for exactly
the epochs so far, the owner has no grant, and who may write is a writer of the current
epoch; a refused entry changes nothing. -/
theorem access_invariant
    (library : Library)
    (access : ContainerAccess)
    (reachable : Reachable library access) :
    access.hashes.length = access.version + 1 ∧
      (∀ epoch, epoch ∈ access.writers ↔ 1 ≤ epoch ∧ epoch ≤ access.epoch) ∧
      .user access.owner ∉ access.grants ∧
      (∃ writers, access.writers[access.epoch]? = some writers ∧
        ∀ grantee level, access.grants[grantee]? = some level -> GrantLevel.write ≤ level ->
          grantee ∈ writers) ∧
      ∀ op resolve groups error next,
        (apply library op resolve groups).exec access = (.error error, next) ->
          next = access := by
  have invariant := reachable.invariant
  refine ⟨invariant.hashes, invariant.epochs, invariant.owner, ?_, ?_⟩
  · have present : access.epoch ∈ access.writers :=
      (invariant.epochs _).2 ⟨invariant.positive, le_rfl⟩
    obtain ⟨writers, writersEq⟩ := Option.isSome_iff_exists.1
      (Std.ExtTreeMap.isSome_getElem?_iff_mem.2 present)
    refine ⟨writers, writersEq, ?_⟩
    intro grantee level held writes
    obtain ⟨found, foundEq, member⟩ := invariant.current grantee level held writes
    rw [writersEq] at foundEq
    cases foundEq
    exact member
  · intro op resolve groups error next ran
    obtain ⟨_, refused⟩ | ⟨event, later, accepted, -⟩ :=
      (apply_atomic library op access resolve groups).cases
    · rw [refused] at ran
      cases ran
      rfl
    · rw [accepted] at ran
      cases ran

/-! ## Revocations last -/

/-- The user has no access since the given epoch, and operations of earlier epochs end at
the boundary. -/
structure Cut
    (user : String) (groups : Membership) (start : UInt64) (boundary : Option UInt64)
    (access : ContainerAccess) : Prop where
  notOwner : user ≠ access.owner
  later : start < access.epoch
  grants : ∀ grantee ∈ access.grants, grantee.covers user groups = false
  writers : ∀ epoch, start < epoch -> ∀ writers, access.writers[epoch]? = some writers ->
    ∀ grantee ∈ writers, grantee.covers user groups = false
  boundary : ∀ seq ∈ boundary, ∃ epoch, start < epoch ∧ epoch ≤ access.epoch ∧
    access.boundaries[epoch]? = some seq

variable {user : String} {groups : Membership} {start : UInt64} {boundary : Option UInt64}

/-- A new epoch gives no access to a user that no grant covers. -/
theorem covers_of_mem_startEpoch {next : UInt64} {declared : Option UInt64}
    (grants : ∀ grantee ∈ access.grants, grantee.covers user groups = false)
    (writers : ∀ epoch, start < epoch -> epoch ≠ next -> ∀ writers,
      access.writers[epoch]? = some writers ->
        ∀ grantee ∈ writers, grantee.covers user groups = false)
    (epoch : UInt64) (isLater : start < epoch) (found : Std.ExtTreeSet Grantee)
    (foundEq : (access.startEpoch next declared).writers[epoch]? = some found)
    (grantee : Grantee)
    (member : grantee ∈ found) : grantee.covers user groups = false := by
  simp only [startEpoch, Std.ExtTreeMap.getElem?_insert, compare_eq_iff_eq] at foundEq
  split at foundEq
  · cases foundEq
    obtain ⟨level, held, -⟩ := mem_writeGrantees.1 member
    refine grants grantee ?_
    rw [← Std.ExtTreeMap.isSome_getElem?_iff_mem, held]
    rfl
  · next different => exact writers epoch isLater (Ne.symm different) found foundEq grantee member

section

variable (cut : Cut user groups start boundary access)

include cut

theorem Cut.startEpoch
    {next : UInt64}
    (follows : checkedSucc access.epoch = some next) {grants : Std.ExtTreeMap Grantee GrantLevel}
    (noneCovers : ∀ grantee : Grantee, grantee ∈ grants -> grantee.covers user groups = false)
    (declared : Option UInt64) :
    Cut user groups start boundary
      (({ access with grants := grants }).startEpoch next declared) := by
  have nextEq := checkedSucc_eq_some follows
  have grows : access.epoch < next := by
    rw [UInt64.lt_iff_toNat_lt, nextEq]
    exact Nat.lt_succ_self _
  refine ⟨cut.notOwner, cut.later.trans grows, noneCovers, ?_, ?_⟩
  · exact covers_of_mem_startEpoch noneCovers fun epoch isLater _ => cut.writers epoch isLater
  · intro seq isBoundary
    obtain ⟨epoch, isLater, known, held⟩ := cut.boundary seq isBoundary
    refine ⟨epoch, isLater, known.trans grows.le, ?_⟩
    have different : next ≠ epoch := (known.trans_lt grows).ne'
    cases declared with
    | none => exact held
    | some seq =>
        simp only [ContainerAccess.startEpoch, Std.ExtTreeMap.getElem?_insert, compare_eq_iff_eq,
          if_neg different]
        exact held

theorem Cut.log
    (op : SignedOp) : Cut user groups start boundary (access.record library op) :=
  ⟨cut.notOwner, cut.later, cut.grants, cut.writers, cut.boundary⟩

theorem Cut.publishEpoch :
    Cut user groups start boundary access.publishEpoch :=
  ⟨cut.notOwner, cut.later, cut.grants, cut.writers, cut.boundary⟩

end

theorem covers_of_mem_erase {grants : Std.ExtTreeMap Grantee GrantLevel}
    (noneCovers : ∀ grantee : Grantee, grantee ∈ grants -> grantee.covers user groups = false)
    (removed : Grantee) :
    ∀ grantee : Grantee, grantee ∈ grants.erase removed -> grantee.covers user groups = false :=
  fun grantee member => noneCovers grantee (Std.ExtTreeMap.mem_of_mem_erase member)

/-- No entry gives the user access, except a grant to somebody who covers the user. -/
theorem Step.cut {op : SignedOp} {grant : Grant} {kind : GrantOp}
    (step : Step library op access grant kind next event)
    (notGranted : event.level.isSome = true -> event.grantee.covers user groups = false)
    (cut : Cut user groups start boundary access) : Cut user groups start boundary next := by
  cases step with
  | leave event grantee subject noLevel =>
      refine Cut.log ?_ op
      refine ⟨cut.notOwner, cut.later, ?_, cut.writers, cut.boundary⟩
      exact covers_of_mem_erase cut.grants grantee
  | rotate event next follows noLevel =>
      exact ((cut.startEpoch follows cut.grants _).log op).publishEpoch
  | revoke event grantee next subject follows sent noLevel =>
      exact ((cut.startEpoch follows (covers_of_mem_erase cut.grants grantee) _).log op).publishEpoch
  | grant event grantee level subject notOwner hasLevel =>
      have uncovered : grantee.covers user groups = false := by
        rw [← subject]
        exact notGranted (by rw [hasLevel]; rfl)
      refine (Cut.log ?_ op).publishEpoch
      refine ⟨cut.notOwner, cut.later, ?_, ?_, cut.boundary⟩
      · intro other member
        rw [Std.ExtTreeMap.mem_insert, compare_eq_iff_eq] at member
        rcases member with rfl | member
        · exact uncovered
        · exact cut.grants other member
      · intro epoch isLater writers found other member
        dsimp only at found
        split at found
        · simp only [Std.ExtTreeMap.getElem?_insert, compare_eq_iff_eq] at found
          split at found
          · next same =>
              cases found
              rw [Std.ExtTreeSet.mem_insert, compare_eq_iff_eq] at member
              rcases member with rfl | member
              · exact uncovered
              · cases held : access.writers[access.epoch]? with
                | none => simp [held] at member
                | some before =>
                    rw [held] at member
                    exact cut.writers access.epoch cut.later before held other member
          · exact cut.writers epoch isLater writers found other member
        · exact cut.writers epoch isLater writers found other member

/-- The revocation itself takes the access away. -/
theorem Step.cut_of_revoke {op : SignedOp} {grant : Grant}
    (invariant : Invariant access) (step : Step library op access grant .revoke next event)
    (notOwner : user ≠ access.owner)
    (only : ∀ grantee ∈ access.grants, grantee ≠ event.grantee ->
      grantee.covers user groups = false) :
    next.epoch.toNat = access.epoch.toNat + 1 ∧
      Cut user groups access.epoch grant.epochBoundarySeq next := by
  cases step with
  | revoke event grantee nextEpoch subject follows sent noLevel =>
  have nextEq := checkedSucc_eq_some follows
  refine ⟨nextEq, ?_⟩
  have grows : access.epoch < nextEpoch := by
    rw [UInt64.lt_iff_toNat_lt, nextEq]
    exact Nat.lt_succ_self _
  have uncovered : ∀ other : Grantee, other ∈ access.grants.erase grantee ->
      other.covers user groups = false := by
    intro other member
    rw [Std.ExtTreeMap.mem_erase, ne_eq, compare_eq_iff_eq] at member
    refine only other member.2 ?_
    rw [subject]
    exact Ne.symm member.1
  refine (Cut.log ?_ op).publishEpoch
  refine ⟨notOwner, grows, uncovered, ?_, ?_⟩
  · -- No later epoch has writers yet.
    refine covers_of_mem_startEpoch uncovered ?_
    intro epoch isLater different writers found
    have known : epoch ∈ access.writers := by
      rw [← Std.ExtTreeMap.isSome_getElem?_iff_mem]
      exact Option.isSome_iff_exists.2 ⟨writers, found⟩
    exact absurd ((invariant.epochs epoch).1 known).2 (not_le.2 isLater)
  · intro seq isBoundary
    refine ⟨nextEpoch, grows, le_rfl, ?_⟩
    rw [Option.mem_def] at isBoundary
    simp [startEpoch, isBoundary]

/-! ## What a cut means -/

section

variable (cut : Cut user groups start boundary access)

include cut

theorem Cut.couldWriteAt
    {epoch : UInt64}
    (isLater : start < epoch) : access.couldWriteAt user epoch groups = false := by
  have other : (user == access.owner) = false := by
    simpa using cut.notOwner
  rw [ContainerAccess.couldWriteAt, other, if_neg Bool.false_ne_true]
  cases found : access.writers[epoch]? with
  | none => rfl
  | some writers =>
      rw [Option.any_some, List.any_eq_false]
      intro grantee member
      rw [Std.ExtTreeSet.mem_toList] at member
      simp [cut.writers epoch isLater writers found grantee member]

theorem Cut.canRead :
    access.canRead user groups = false := by
  have other : (user == access.owner) = false := by
    simpa using cut.notOwner
  have noGrants : access.grants.toList.filter (fun entry => entry.1.covers user groups) = [] := by
    rw [List.filter_eq_nil_iff]
    rintro ⟨grantee, level⟩ member
    have held := Std.ExtTreeMap.mem_toList_iff_getElem?_eq_some.1 member
    have inside : grantee ∈ access.grants := by
      rw [← Std.ExtTreeMap.isSome_getElem?_iff_mem, held]
      rfl
    simp [cut.grants grantee inside]
  simp [ContainerAccess.canRead, levelOf, other, noGrants]

theorem Cut.keyRecipients
    {recipient : Grantee}
    (member : recipient ∈ access.keyRecipients) : recipient.covers user groups = false := by
  rw [ContainerAccess.keyRecipients, List.mem_cons] at member
  rcases member with rfl | member
  · simpa [Grantee.covers] using Ne.symm cut.notOwner
  · exact cut.grants recipient (Std.ExtTreeMap.mem_keys.1 member)

end

theorem saturatingSucc_le_of_lt {epoch other : UInt64} (less : epoch < other) :
    saturatingSucc epoch ≤ other := by
  unfold saturatingSucc
  cases found : checkedSucc epoch with
  | none => exact less.le
  | some next =>
      have nextEq := checkedSucc_eq_some found
      rw [UInt64.lt_iff_toNat_lt] at less
      rw [Option.getD_some, UInt64.le_iff_toNat_le]
      omega

theorem Cut.withinEpochBoundary {limit : UInt64}
    (cut : Cut user groups start (some limit) access)
    {epoch seq : UInt64} (early : epoch ≤ start)
    (beyond : limit < seq) : access.withinEpochBoundary epoch seq = false := by
  obtain ⟨declared, isLater, -, held⟩ := cut.boundary limit rfl
  rw [ContainerAccess.withinEpochBoundary, List.all_eq_false]
  refine ⟨(declared, limit), ?_, ?_⟩
  · rw [List.mem_filter]
    refine ⟨Std.ExtTreeMap.mem_toList_iff_getElem?_eq_some.2 held, ?_⟩
    simpa using saturatingSucc_le_of_lt (early.trans_lt isLater)
  · simpa using beyond

/-- After an accepted revocation, and as long as no grant covers the user again, the user
writes in no later epoch, does not read, gets no key, and operations of earlier epochs
beyond the boundary are refused. -/
theorem revocation_lasts
    (library : Library)
    (before after final : ContainerAccess)
    (reachable : Reachable library before)
    (op : SignedOp)
    (resolve : KeyResolver)
    (members : Membership)
    (event : GrantEvent)
    (accepted : (apply library op resolve members).exec before = (.ok event, after))
    (entry : Entry)
    (entryEq : before.readEntry library op = .ok entry)
    (revokes : entry.kind = .revoke)
    (user : String)
    (groups : Membership)
    (notOwner : user ≠ before.owner)
    (only : ∀ grantee ∈ before.grants, grantee ≠ event.grantee ->
      grantee.covers user groups = false)
    (events : List GrantEvent)
    (continuation : Run (Accepts library) after events final)
    (notGranted : ∀ later ∈ events, later.level.isSome = true ->
      later.grantee.covers user groups = false) :
    after.epoch.toNat = before.epoch.toNat + 1 ∧
      (∀ epoch, before.epoch < epoch -> final.couldWriteAt user epoch groups = false) ∧
      final.canRead user groups = false ∧
      (∀ recipient ∈ final.keyRecipients, recipient.covers user groups = false) ∧
      ∀ boundary, entry.grant.epochBoundarySeq = some boundary ->
        ∀ epoch seq, epoch ≤ before.epoch -> boundary < seq ->
          final.withinEpochBoundary epoch seq = false := by
  obtain ⟨_, refused⟩ | ⟨other, later, ran, found, foundEq, step⟩ :=
    (apply_atomic library op before resolve members).cases
  · rw [refused] at accepted
    cases accepted
  rw [ran] at accepted
  cases accepted
  rw [foundEq] at entryEq
  cases entryEq
  rw [revokes] at step
  obtain ⟨epochEq, cutAfter⟩ := step.cut_of_revoke reachable.invariant notOwner only
  have cut : Cut user groups before.epoch entry.grant.epochBoundarySeq final := by
    refine continuation.invariant ?_ cutAfter
    intro state next label member accepts cut
    obtain ⟨nextOp, grant, kind, nextStep⟩ := accepts.step
    exact nextStep.cut (notGranted label member) cut
  refine ⟨epochEq, fun epoch => cut.couldWriteAt, cut.canRead, fun recipient => cut.keyRecipients,
    ?_⟩
  intro boundary isBoundary epoch seq early beyond
  rw [isBoundary] at cut
  exact cut.withinEpochBoundary early beyond

/-! ## A sample -/

def sampleRef : Ref := ⟨"a.org", List.replicate 16 1⟩

/-- The first byte of the body is the version, the second tells the kind of the entry. -/
def sampleHeader (body : Bytes) : OpHeader where
  domain := signatureDomain
  opType := ["container", "grant", "revoke", "rotate", "leave"].getD (body.getD 1 0).toNat ""
  opId := List.replicate 16 112
  target := some sampleRef
  audience := []
  tsMs := 0

/-- Every signature is good, and all hashes are equal. -/
def sampleLibrary : Library where
  sha256 _ := zeroHash
  isVerifyingKey _ := true
  verifyStrict _ _ _ := true
  decodeOpBody body := .ok ⟨some (sampleHeader body), body⟩
  decodeContainer _ := .ok ⟨some sampleRef, "cloud.v1", some ⟨"u@a.org"⟩, firstEpoch⟩
  decodeGrant payload := .ok
    { container := some sampleRef
      grantee := if payload.getD 1 0 == 3 then none else some (.user ⟨"v@a.org"⟩)
      level := if payload.getD 1 0 == 1 then 2 else 0
      keyEpoch := (payload.getD 2 0).toUInt64
      version := (payload.getD 0 0).toUInt64
      prevHash := zeroHash.bytes
      epochBoundarySeq := some 7 }

def sampleOp (version kind epoch : UInt8) : SignedOp :=
  ⟨[version, kind, epoch], List.replicate 64 0, List.replicate 32 0⟩

def sampleResolve : KeyResolver := fun _ => some ⟨"u@a.org", "d", []⟩

def noGroups : Membership := fun _ _ => false

/-- An accepted entry, from a check that it is accepted. -/
theorem exists_accepted
    {library : Library} {access : ContainerAccess} {op : SignedOp} {resolve : KeyResolver}
    {groups : Membership}
    (ok : ((apply library op resolve groups).exec access).1.isOk = true) :
    ∃ event, (apply library op resolve groups).exec access =
      (.ok event, ((apply library op resolve groups).exec access).2) := by
  rcases ran : (apply library op resolve groups).exec access with ⟨error | event, next⟩
  · rw [ran] at ok
    cases ok
  · exact ⟨event, rfl⟩

def sampleStart : ContainerAccess :=
  match fromGenesis sampleLibrary (sampleOp 0 0 1) sampleResolve with
  | .ok access => access
  | .error _ => ⟨⟨none, "", none, 0⟩, "", 0, 0, [], ∅, ∅, ∅⟩

def sampleNext (op : SignedOp) (access : ContainerAccess) : ContainerAccess :=
  ((apply sampleLibrary op sampleResolve noGroups).exec access).2

/-- A container that another user may write in. -/
def sampleShared : ContainerAccess :=
  sampleNext (sampleOp 1 1 1) sampleStart

theorem sampleStart_eq :
    fromGenesis sampleLibrary (sampleOp 0 0 1) sampleResolve = .ok sampleStart := by
  have ok : (fromGenesis sampleLibrary (sampleOp 0 0 1) sampleResolve).isOk = true := by
    decide +kernel
  unfold sampleStart
  cases ran : fromGenesis sampleLibrary (sampleOp 0 0 1) sampleResolve with
  | error error =>
      rw [ran] at ok
      cases ok
  | ok access => rfl

theorem sampleShared_reachable : Reachable sampleLibrary sampleShared := by
  obtain ⟨event, accepted⟩ : ∃ event, (apply sampleLibrary (sampleOp 1 1 1) sampleResolve
      noGroups).exec sampleStart = (.ok event, sampleShared) :=
    exists_accepted (by decide +kernel)
  refine ⟨sampleOp 0 0 1, sampleResolve, sampleStart, [event], sampleStart_eq, ?_⟩
  exact .cons ⟨_, _, _, accepted⟩ (.nil _)

theorem access_invariant_sample :
    sampleShared.hashes.length = sampleShared.version + 1 ∧ sampleShared.version = 1 :=
  ⟨(access_invariant sampleLibrary sampleShared sampleShared_reachable).1, by decide +kernel⟩

/-- The other user wrote in the first epoch; the access is revoked, and the key is
changed once more. -/
theorem revocation_lasts_sample :
    sampleShared.couldWriteAt "v@a.org" 1 noGroups = true ∧
      (sampleNext (sampleOp 3 3 3) (sampleNext (sampleOp 2 2 2) sampleShared)).couldWriteAt
        "v@a.org" 2 noGroups = false ∧
      (sampleNext (sampleOp 3 3 3) (sampleNext (sampleOp 2 2 2) sampleShared)).withinEpochBoundary
        1 8 = false := by
  obtain ⟨event, accepted⟩ : ∃ event, (apply sampleLibrary (sampleOp 2 2 2) sampleResolve
      noGroups).exec sampleShared = (.ok event, sampleNext (sampleOp 2 2 2) sampleShared) :=
    exists_accepted (by decide +kernel)
  obtain ⟨later, laterAccepted⟩ : ∃ event, (apply sampleLibrary (sampleOp 3 3 3) sampleResolve
        noGroups).exec (sampleNext (sampleOp 2 2 2) sampleShared) =
      (.ok event, sampleNext (sampleOp 3 3 3) (sampleNext (sampleOp 2 2 2) sampleShared)) :=
    exists_accepted (by decide +kernel)
  have revoked : ((apply sampleLibrary (sampleOp 2 2 2) sampleResolve noGroups).exec
      sampleShared).1.toOption.map GrantEvent.grantee = some (.user "v@a.org") := by
    decide +kernel
  have rotated : ((apply sampleLibrary (sampleOp 3 3 3) sampleResolve noGroups).exec
      (sampleNext (sampleOp 2 2 2) sampleShared)).1.toOption.map GrantEvent.level =
        some none := by
    decide +kernel
  rw [accepted] at revoked
  rw [laterAccepted] at rotated
  have lasts := revocation_lasts sampleLibrary sampleShared
    (sampleNext (sampleOp 2 2 2) sampleShared)
    (sampleNext (sampleOp 3 3 3) (sampleNext (sampleOp 2 2 2) sampleShared))
    sampleShared_reachable (sampleOp 2 2 2) sampleResolve noGroups event accepted
    ⟨.revoke, zeroHash,
      { container := some sampleRef, grantee := some (.user ⟨"v@a.org"⟩), level := 0
        keyEpoch := 2, version := 2, prevHash := zeroHash.bytes, epochBoundarySeq := some 7 }⟩
    (by decide +kernel) rfl "v@a.org" noGroups (by decide +kernel)
    (by
      have keys : sampleShared.grants.keys = [.user "v@a.org"] := by decide +kernel
      intro grantee member different
      rw [← Std.ExtTreeMap.mem_keys, keys, List.mem_singleton] at member
      exact absurd (member.trans (Option.some.inj revoked).symm) different)
    [later] (.cons ⟨_, _, _, laterAccepted⟩ (.nil _))
    (by
      intro other member granted
      rw [List.mem_singleton.1 member] at granted
      rw [show later.level = none from Option.some.inj rotated] at granted
      cases granted)
  refine ⟨by decide +kernel, lasts.2.1 2 (by decide +kernel), ?_⟩
  exact lasts.2.2.2.2 7 rfl 1 8 (by decide +kernel) (by decide)

end ContainerAccess

end Parvane.Domain
