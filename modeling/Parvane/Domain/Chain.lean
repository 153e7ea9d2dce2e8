import Parvane.Domain.Revocation
import Parvane.Foundation.HashChain

/-!
# The grant log behind the access to a container

The first entry of the log is the creation of the container.  Every later one names the
hash of the one before it.
-/

namespace Parvane.Domain

open Wire Sign

/-- The entries that led to the access, whatever was known of the signers at each of them. -/
inductive LogOf (library : Library) : List SignedOp -> ContainerAccess -> Prop
  | created {genesis : SignedOp} {resolve : KeyResolver} {access : ContainerAccess}
      (created : ContainerAccess.fromGenesis library genesis resolve = .ok access) :
      LogOf library [genesis] access
  | applied {log : List SignedOp} {op : SignedOp} {resolve : KeyResolver} {groups : Membership}
      {access next : ContainerAccess} {event : GrantEvent}
      (before : LogOf library log access)
      (applied : (ContainerAccess.apply library op resolve groups).exec access =
        (.ok event, next)) :
      LogOf library (log ++ [op]) next

section

variable (library : Library)

def kindOf (op : SignedOp) : Option GrantOp := do
  let body ← (library.decodeOpBody op.body).toOption
  GrantOp.ofName (← body.header).opType

def grantOf (op : SignedOp) : Option Grant := do
  let body ← (library.decodeOpBody op.body).toOption
  (library.decodeGrant body.payload).toOption

/-- The hash that an entry names. -/
def namedHash (op : SignedOp) : Bytes :=
  ((grantOf library op).map Grant.prevHash).getD []

def hashOf (op : SignedOp) : Bytes := (entryHash library op).bytes

/-- The entry starts an epoch. -/
def startsEpoch (op : SignedOp) : Bool :=
  match kindOf library op with
  | some .rotate => true
  | some .revoke => true
  | _ => false

end

variable {library : Library} {op : SignedOp} {log : List SignedOp} {access next : ContainerAccess}

theorem readEntry_fields {entry : ContainerAccess.Entry}
    (read : access.readEntry library op = .ok entry) :
    kindOf library op = some entry.kind ∧ grantOf library op = some entry.grant ∧
      entry.grant.version.toNat = access.version + 1 ∧
      entry.grant.prevHash = access.headHash.bytes := by
  simp only [ContainerAccess.readEntry, bind_eq_ok, present_eq_ok, require_eq_ok, pure,
    Except.pure, Except.ok.injEq, Bool.and_eq_true, beq_iff_eq] at read
  obtain ⟨body, bodyEq, kind, kindEq, verified, ran, ref, -, _, -, grant, decoded, _, -, _,
    ⟨version, prevHash⟩, rfl⟩ := read
  obtain ⟨same, sameEq, payload⟩ := verifyOp_payload ran
  cases bodyEq.symm.trans sameEq
  rw [payload] at decoded
  refine ⟨?_, ?_, version, prevHash⟩
  · simpa [kindOf, bodyEq, Except.toOption] using kindEq
  · simp [grantOf, bodyEq, decoded, Except.toOption]

/-- What the access remembers of its log. -/
structure Recorded (library : Library) (log : List SignedOp) (access : ContainerAccess) :
    Prop where
  hashes : access.hashes = log.map (entryHash library)
  version : access.version + 1 = log.length
  small : access.version < 2 ^ 64
  linked : HashChain.Linked (hashOf library) (namedHash library) log
  epoch : access.epoch.toNat = 1 + log.tail.countP (startsEpoch library)
  container : ∃ genesis ∈ log.head?, ∃ verified, verifyGenesis library genesis = .ok verified ∧
    access.container.ref = verified.1.ref ∧ access.container.domain = verified.1.domain

theorem recorded_of_fromGenesis {genesis : SignedOp} {resolve : KeyResolver}
    (created : ContainerAccess.fromGenesis library genesis resolve = .ok access) :
    Recorded library [genesis] access := by
  simp only [ContainerAccess.fromGenesis, bind_eq_ok, require_eq_ok, pure, Except.pure,
    Except.ok.injEq] at created
  obtain ⟨verified, isVerified, owner, -, _, -, rfl⟩ := created
  exact ⟨rfl, rfl, by simp, .singleton genesis, rfl, genesis, rfl, verified, isVerified, rfl, rfl⟩

/-- What an accepted entry leaves as it was, and what it moves on. -/
theorem step_fields {grant : Grant} {kind : GrantOp} {event : GrantEvent}
    (step : ContainerAccess.Step library op access grant kind next event) :
    next.hashes = access.hashes ++ [entryHash library op] ∧ next.version = access.version + 1 ∧
      next.container.ref = access.container.ref ∧
      next.container.domain = access.container.domain ∧
      next.epoch.toNat = access.epoch.toNat + if kind = .rotate ∨ kind = .revoke then 1 else 0 := by
  cases step with
  | leave event grantee subject noLevel => exact ⟨rfl, rfl, rfl, rfl, rfl⟩
  | rotate event following follows noLevel =>
      exact ⟨rfl, rfl, rfl, rfl, checkedSucc_eq_some follows⟩
  | revoke event grantee following subject follows sent noLevel =>
      exact ⟨rfl, rfl, rfl, rfl, checkedSucc_eq_some follows⟩
  | grant event grantee level subject notOwner hasLevel => exact ⟨rfl, rfl, rfl, rfl, rfl⟩

theorem Recorded.applied
    (recorded : Recorded library log access)
    {resolve : KeyResolver} {groups : Membership} {event : GrantEvent}
    (applied : (ContainerAccess.apply library op resolve groups).exec access = (.ok event, next)) :
    Recorded library (log ++ [op]) next := by
  obtain ⟨_, refused⟩ | ⟨other, later, accepted, entry, read, step⟩ :=
    (ContainerAccess.apply_atomic library op access resolve groups).cases
  · cases refused.symm.trans applied
  cases accepted.symm.trans applied
  obtain ⟨kind, grant, follows, isHead⟩ := readEntry_fields read
  obtain ⟨hashes, version, ref, domain, epoch⟩ := step_fields step
  have some : log ≠ [] := List.ne_nil_of_length_pos (by have := recorded.version; omega)
  refine ⟨?_, ?_, ?_, recorded.linked.append ?_, ?_, ?_⟩
  · rw [hashes, recorded.hashes, List.map_append, List.map_singleton]
  · rw [version, recorded.version, List.length_append, List.length_singleton]
  · rw [version, ← follows]
    exact entry.grant.version.toNat_lt
  · intro last isLast
    have head : access.headHash = entryHash library last := by
      rw [ContainerAccess.headHash, recorded.hashes, List.getLast?_map, isLast]
      rfl
    rw [namedHash, grant, Option.map_some, Option.getD_some, isHead, head]
    rfl
  · rw [epoch, recorded.epoch, List.tail_append_of_ne_nil some, List.countP_append,
      List.countP_singleton, startsEpoch, kind, Nat.add_assoc]
    cases entry.kind <;> simp
  · obtain ⟨genesis, isGenesis, verified, isVerified, sameRef, sameDomain⟩ := recorded.container
    refine ⟨genesis, ?_, verified, isVerified, ref.trans sameRef, domain.trans sameDomain⟩
    rw [List.head?_append, isGenesis]
    rfl

theorem LogOf.recorded (logOf : LogOf library log access) : Recorded library log access := by
  induction logOf with
  | created created => exact recorded_of_fromGenesis created
  | applied before applied inductionHypothesis => exact inductionHypothesis.applied applied

end Parvane.Domain
