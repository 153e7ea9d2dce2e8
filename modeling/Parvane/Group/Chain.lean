import Parvane.Foundation.HashChain
import Parvane.Group.Floors

/-!
# The log behind the state of a group

A state keeps the hashes of its entries, and every entry names the hash of the one before.
-/

namespace Parvane.Group

open Wire Sign

/-- The entries that led to a state, whatever was known of the signers at each of them. -/
inductive LogOf (library : Library) : List GroupStateEntry -> GroupState -> Prop
  | created {entry : GroupStateEntry} {resolve : Resolve} {lookup : Option Lookup}
      {state : GroupState}
      (applied : applyWith library none entry resolve lookup = .ok state) :
      LogOf library [entry] state
  | applied {log : List GroupStateEntry} {entry : GroupStateEntry} {resolve : Resolve}
      {lookup : Option Lookup} {state next : GroupState}
      (before : LogOf library log state)
      (applied : applyWith library (some state) entry resolve lookup = .ok next) :
      LogOf library (log ++ [entry]) next

def hashOf (library : Library) (entry : GroupStateEntry) : Bytes :=
  (entry.change.map fun op => (entryHash library op).bytes).getD []

variable {library : Library} {entry : GroupStateEntry} {log : List GroupStateEntry}
  {state : GroupState}

/-- All of an entry is in its signed operation.  The first entry names the domain only. -/
structure Copied (library : Library) (entry : GroupStateEntry) (op : SignedOp)
    (stateChange : GroupStateChange) : Prop where
  change : entry.change = some op
  read : peekChange library entry = some stateChange
  version : entry.version = stateChange.version
  prevHash : entry.prevHash = stateChange.prevHash
  group : entry.group =
    if stateChange.version = 1 then
      stateChange.group.map fun inner => ⟨inner.domain, genesisGroupId library op.body⟩
    else stateChange.group

/-- Entries with one signed operation are the same. -/
theorem Copied.entry_eq
    {twin : GroupStateEntry} {op : SignedOp} {stateChange twinChange : GroupStateChange}
    (copied : Copied library entry op stateChange)
    (twinCopied : Copied library twin op twinChange) : entry = twin := by
  have same : stateChange = twinChange := by
    have read := copied.read
    rw [peekChange, copied.change, ← twinCopied.change, ← peekChange, twinCopied.read] at read
    exact (Option.some.inj read).symm
  subst same
  obtain ⟨group, version, prevHash, change⟩ := entry
  obtain ⟨twinGroup, twinVersion, twinPrevHash, twinChange⟩ := twin
  obtain ⟨rfl, -, rfl, rfl, rfl⟩ := copied
  obtain ⟨rfl, -, rfl, rfl, rfl⟩ := twinCopied
  rfl

/-- What reading an entry says about its fields. -/
theorem readEntry_fields
    {before : Option GroupState} {resolve : Resolve} {lookup : Option Lookup} {signed : Signed}
    (read : readEntry library before entry resolve lookup = .ok signed) :
    entry.group = some signed.group ∧ entry.change = some signed.op ∧
      peekChange library entry = some signed.stateChange ∧
      signed.stateChange.version = entry.version ∧
      signed.stateChange.prevHash = entry.prevHash := by
  simp only [readEntry, bind_eq_ok, present_eq_ok, require_eq_ok, pure, Except.pure,
    Except.ok.injEq, Bool.and_eq_true, beq_iff_eq] at read
  obtain ⟨group, isGroup, _, -, op, isOp, key, -, verified, ran, stateChange, decoded, signer, -,
    _, -, _, ⟨version, prevHash⟩, _, -, change, -, rfl⟩ := read
  obtain ⟨body, bodyEq, payload⟩ := verifyOp_payload ran
  refine ⟨isGroup, isOp, ?_, version, prevHash⟩
  rw [payload] at decoded
  simp only [peekChange, isOp, bodyEq, Except.toOption, decoded, Option.bind_eq_bind,
    Option.bind_some]

/-- What a state remembers of its log. -/
structure Recorded (library : Library) (log : List GroupStateEntry) (state : GroupState) :
    Prop where
  nonempty : log ≠ []
  hashes : state.hashes.map FixedBytes.bytes = log.map (hashOf library)
  version : state.version = log.length
  small : log.length < 2 ^ 64
  linked : HashChain.Linked (hashOf library) GroupStateEntry.prevHash log
  copied : ∀ entry ∈ log, ∃ op stateChange, Copied library entry op stateChange

theorem hashOf_eq {op : SignedOp} (isOp : entry.change = some op) :
    hashOf library entry = (entryHash library op).bytes := by
  rw [hashOf, isOp, Option.map_some, Option.getD_some]

theorem recorded_of_applyGenesis {resolve : Resolve} {lookup : Option Lookup}
    (applied : applyWith library none entry resolve lookup = .ok state) :
    Recorded library [entry] state := by
  simp only [applyWith, bind_eq_ok] at applied
  obtain ⟨signed, read, created⟩ := applied
  obtain ⟨isGroup, isOp, isChange, version, prevHash⟩ := readEntry_fields read
  rw [applyGenesis] at created
  split at created
  · simp only [bind_eq_ok, require_eq_ok, present_eq_ok, Bool.and_eq_true, beq_iff_eq, pure,
      Except.pure, Except.ok.injEq] at created
    obtain ⟨_, ⟨first, -⟩, inner, isInner, _, ⟨⟨-, domain⟩, -⟩, _, isId, _, -, members, -, _, -,
      rfl⟩ := created
    refine ⟨by simp, ?_, rfl, by simp, .singleton entry, ?_⟩
    · simp [hashOf_eq isOp]
    · refine List.forall_mem_singleton.2 ⟨_, _, isOp, isChange, version.symm, prevHash.symm, ?_⟩
      rw [version, first, if_pos rfl, isInner, isGroup, Option.map_some, domain, ← isId]
  · cases created

theorem Recorded.applied
    (recorded : Recorded library log state)
    {resolve : Resolve} {lookup : Option Lookup} {next : GroupState}
    (applied : applyWith library (some state) entry resolve lookup = .ok next) :
    Recorded library (log ++ [entry]) next := by
  simp only [applyWith, bind_eq_ok, checkPlace, require_eq_ok, Bool.and_eq_true, beq_iff_eq,
    Bool.not_eq_true', pure, Except.pure, Except.ok.injEq] at applied
  obtain ⟨signed, read, _, ⟨_, -, _, ⟨follows, isHead⟩, _, ⟨sameGroup, inGroup⟩, -⟩, changed,
    changes, rfl⟩ := applied
  obtain ⟨isGroup, isOp, isChange, version, prevHash⟩ := readEntry_fields read
  obtain ⟨hashes, -, -⟩ := (applyChange_effect changes).sameLog
  have length : entry.version.toNat = (log ++ [entry]).length := by
    rw [follows, recorded.version, List.length_append, List.length_singleton]
  have later : signed.stateChange.version ≠ 1 := by
    rw [version]
    intro first
    have some := List.length_pos_of_ne_nil recorded.nonempty
    have one : (1 : UInt64).toNat = 1 := rfl
    rw [first, one, List.length_append, List.length_singleton] at length
    omega
  refine ⟨by simp, ?_, length, ?_, recorded.linked.append ?_, ?_⟩
  · simp only [hashes, List.map_append, recorded.hashes, List.map_singleton, hashOf_eq isOp]
  · rw [← length]
    exact entry.version.toNat_lt
  · intro last isLast
    have known : state.hashes.getLast?.map FixedBytes.bytes = some (hashOf library last) := by
      rw [← List.getLast?_map, recorded.hashes, List.getLast?_map, isLast, Option.map_some]
    obtain ⟨head, headEq, isHash⟩ := Option.map_eq_some_iff.1 known
    rw [isHead, GroupState.headHash, headEq, Option.getD_some, isHash]
  · rw [List.forall_mem_append]
    refine ⟨recorded.copied, List.forall_mem_singleton.2
      ⟨_, _, isOp, isChange, version.symm, prevHash.symm, ?_⟩⟩
    rw [if_neg later, inGroup, isGroup, sameGroup]

theorem LogOf.recorded (logOf : LogOf library log state) : Recorded library log state := by
  induction logOf with
  | created applied => exact recorded_of_applyGenesis applied
  | applied before applied inductionHypothesis => exact inductionHypothesis.applied applied

end Parvane.Group
