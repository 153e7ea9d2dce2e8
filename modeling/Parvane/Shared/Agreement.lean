import Parvane.Domain.Revocation
import Parvane.Shared.Replica

/-!
# Replicas of one container agree

What a client makes of an operation depends on the grants and keys it has at that moment.
If at every operation they decide as the whole grant log and all keys would, then the
replica is the fold of one function over the log of operations, whatever the order and the
size of the pages.
-/

namespace Parvane.Shared

open Wire Sign Domain

variable {σ β : Type} (kind : Kind σ β) (client : Client)

/-! ## Logs and pages -/

/-- The operations of a container in the order of the server. -/
structure OpLog where
  ops : List ContainerOp
  increasing : ops.Pairwise fun first second => first.seq < second.seq

/-- What a client is given: a page of the grant log or of the log of operations. -/
inductive Page
  | grants (entries : List SignedOp)
  | ops (strict more : Bool) (ops : List ContainerOp)

/-- A page of operations is a piece of the log, and what comes before it was taken in. -/
def IsPage (log : OpLog) (replica : Local σ) (ops : List ContainerOp) : Prop :=
  ∃ before after, log.ops = before ++ (ops ++ after) ∧ ∀ op ∈ before, op.seq ≤ replica.headSeq

/-- A client takes in a page. -/
def Takes (log : OpLog) (replica : Local σ) : Page -> Local σ -> Prop
  | .grants entries, next => next = ingestGrants kind client entries replica
  | .ops strict more ops, next =>
      IsPage log replica ops ∧ next = (ingestSync kind client strict more ops replica).1

def applyEntry (library : Domain.Library) (resolve : KeyResolver) (access : ContainerAccess)
    (entry : SignedOp) : Result ContainerAccess :=
  match (ContainerAccess.apply library entry resolve noGroups).exec access with
  | (.ok _, next) => .ok next
  | (.error error, _) => .error error

/-- The access that a grant log gives, if all its entries are accepted. -/
def replay (library : Domain.Library) (resolve : KeyResolver) (genesis : SignedOp)
    (entries : List SignedOp) : Result ContainerAccess := do
  let start ← ContainerAccess.fromGenesis library genesis resolve
  entries.foldlM (applyEntry library resolve) start

/-- The replica of a client that has some grants and keys and no operations yet. -/
def attached (initial : σ) (grants : List SignedOp) (access : ContainerAccess) (keys : KeyRing)
    (trustedKeys : List (UInt64 × Key)) (pendingKeys : List (List String × ContainerKeyShare)) :
    Local σ :=
  { grants, access, keys, core := { state := initial }, trustedKeys, pendingKeys }

/-! ## The condition -/

/-- At this operation a page ends and is asked for again. -/
def Client.stops (strict : Bool) (access : ContainerAccess) (op : ContainerOp) : Bool :=
  (!client.knowsAuthor op && strict) ||
    match client.checkOpAuthor access op with
    | .error .expired => true
    | _ => false

/-- The operations of a page that are new and that the client comes to. -/
def Client.reached (strict : Bool) (access : ContainerAccess) (head : UInt64)
    (ops : List ContainerOp) : List ContainerOp :=
  (ops.takeWhile fun op => op.seq ≤ head || !client.stops strict access op).filter fun op =>
    head < op.seq

/-- The grants and the key at hand decide about an operation as all of them would. -/
def Client.Settles (full : ContainerAccess) (allKeys : KeyRing) (access : ContainerAccess)
    (keys : KeyRing) (op : ContainerOp) : Prop :=
  (client.checkOpAuthor access op).isOk = (client.checkOpAuthor full op).isOk ∧
    keys[op.keyEpoch]? = allKeys[op.keyEpoch]?

/-- Every operation that a page brings is settled when the client comes to it. -/
def Timely (full : ContainerAccess) (allKeys : KeyRing) (replica : Local σ) : Page -> Prop
  | .grants _ => True
  | .ops strict _ ops =>
      ∀ op ∈ client.reached strict replica.access replica.headSeq ops,
        client.Settles full allKeys replica.access replica.keys op

/-! ## What one operation does -/

/-- What an operation does with given grants and keys. -/
def decideOp (access : ContainerAccess) (keys : KeyRing) (core : Core σ) (op : ContainerOp) :
    Core σ :=
  match client.checkOpAuthor access op with
  | .error _ => core
  | .ok author =>
      if op.keyEpoch < core.lastOpEpoch then core
      else if keys[op.keyEpoch]?.isNone then { core with lastOpEpoch := op.keyEpoch }
      else
        (openOne kind client access keys op author { core with lastOpEpoch := op.keyEpoch }).2

/-- The author of an operation depends on the grants only in whether there is one. -/
theorem checkOpAuthor_eq {access : ContainerAccess} {op : ContainerOp} {author : Author}
    (checked : client.checkOpAuthor access op = .ok author) :
    ∃ verified, verifyOpSeal client.library op = .ok verified ∧
      client.resolve verified.signer = some author := by
  simp only [Client.checkOpAuthor, checkOpAuthor, ContainerAccess.authorAt, bind_eq_ok,
    require_eq_ok, present_eq_ok, pure, Except.pure, Except.ok.injEq] at checked
  obtain ⟨_, -, _, -, verified, isVerified, _, -, _, -, _, resolved, _, -, rfl⟩ := checked
  exact ⟨verified, isVerified, resolved⟩

theorem checkOpAuthor_unique
    {first second : ContainerAccess} {op : ContainerOp} {author other : Author}
    (checked : client.checkOpAuthor first op = .ok author)
    (otherChecked : client.checkOpAuthor second op = .ok other) : author = other := by
  obtain ⟨verified, isVerified, resolved⟩ := checkOpAuthor_eq client checked
  obtain ⟨again, isAgain, resolvedAgain⟩ := checkOpAuthor_eq client otherChecked
  rw [isVerified] at isAgain
  cases isAgain
  rw [resolved] at resolvedAgain
  cases resolvedAgain
  rfl

/-- The name of a container and its domain, which never change. -/
def identity (access : ContainerAccess) : Option Ref × String :=
  (access.container.ref, access.container.domain)

theorem openOne_congr {first second : ContainerAccess} {keys allKeys : KeyRing} {op : ContainerOp}
    (author : Author) (core : Core σ) (sameContainer : identity first = identity second)
    (sameKey : keys[op.keyEpoch]? = allKeys[op.keyEpoch]?) :
    openOne kind client first keys op author core =
      openOne kind client second allKeys op author core := by
  obtain ⟨sameRef, sameDomain⟩ := Prod.mk.inj sameContainer
  have same := fun key => openOp_congr client.library op key sameRef sameDomain
  simp only [openOne, sameKey, same]

/-- A settled operation does what it does with all grants and keys. -/
theorem decideOp_of_settles
    {access full : ContainerAccess} {keys allKeys : KeyRing} {op : ContainerOp} (core : Core σ)
    (sameContainer : identity access = identity full)
    (settles : client.Settles full allKeys access keys op) :
    decideOp kind client access keys core op = decideOp kind client full allKeys core op := by
  obtain ⟨sameVerdict, sameKey⟩ := settles
  unfold decideOp
  cases checked : client.checkOpAuthor access op with
  | error error =>
      cases fullChecked : client.checkOpAuthor full op with
      | error other => rfl
      | ok other =>
          rw [checked, fullChecked] at sameVerdict
          cases sameVerdict
  | ok author =>
      cases fullChecked : client.checkOpAuthor full op with
      | error other =>
          rw [checked, fullChecked] at sameVerdict
          cases sameVerdict
      | ok other =>
          rw [checkOpAuthor_unique client checked fullChecked]
          dsimp only
          rw [sameKey, openOne_congr kind client other _ sameContainer sameKey]

variable {replica : Local σ}

/-- What the client comes to, it decides; the grants and the keys stay. -/
theorem ingestOp_of_new {strict : Bool} {op : ContainerOp}
    (out : Ingest) (new : replica.headSeq < op.seq)
    (goesOn : client.stops strict replica.access op = false) :
    ∃ next later, ingestOp kind client strict op replica out = (next, later, true) ∧
      next.access = replica.access ∧ next.keys = replica.keys ∧ next.grants = replica.grants ∧
      next.headSeq = op.seq ∧
      next.core = decideOp kind client replica.access replica.keys replica.core op ∧
      ∀ other ∈ next.pendingOps, other ∈ replica.pendingOps ∨
        other = op ∧ replica.keys[op.keyEpoch]? = none := by
  obtain ⟨known, notBehind⟩ := Bool.or_eq_false_iff.1 goesOn
  unfold ingestOp decideOp
  rw [if_neg (not_le.2 new), known]
  simp only [Bool.false_eq_true, if_false]
  cases checked : client.checkOpAuthor replica.access op with
  | error error =>
      rw [checked] at notBehind
      cases error with
      | expired => cases notBehind
      | _ => exact ⟨_, _, rfl, rfl, rfl, rfl, rfl, rfl, fun _ => .inl⟩
  | ok author =>
      dsimp only
      by_cases stale : op.keyEpoch < replica.core.lastOpEpoch
      · rw [if_pos stale, if_pos stale]
        exact ⟨_, _, rfl, rfl, rfl, rfl, rfl, rfl, fun _ => .inl⟩
      · rw [if_neg stale, if_neg stale]
        by_cases missing : replica.keys[op.keyEpoch]?.isNone
        · rw [if_pos missing, if_pos missing]
          refine ⟨_, _, rfl, rfl, rfl, rfl, rfl, rfl, fun other member => ?_⟩
          rcases List.mem_append.1 member with member | member
          · exact .inl member
          · exact .inr ⟨List.mem_singleton.1 member, Option.isNone_iff_eq_none.1 missing⟩
        · rw [if_neg missing, if_neg missing]
          rcases openOne kind client replica.access replica.keys op author
            { replica.core with lastOpEpoch := op.keyEpoch } with ⟨error | count, core⟩
          · exact ⟨_, _, rfl, rfl, rfl, rfl, rfl, rfl, fun _ => .inl⟩
          · exact ⟨_, _, rfl, rfl, rfl, rfl, rfl, rfl, fun _ => .inl⟩

theorem ingestOp_of_stops {strict : Bool} {op : ContainerOp}
    (out : Ingest) (new : replica.headSeq < op.seq)
    (stops : client.stops strict replica.access op = true) :
    ∃ later, ingestOp kind client strict op replica out = (replica, later, false) := by
  unfold ingestOp
  rw [if_neg (not_le.2 new)]
  by_cases unknown : (!client.knowsAuthor op && strict) = true
  · rw [if_pos unknown]
    exact ⟨_, rfl⟩
  · rw [if_neg unknown]
    unfold Client.stops at stops
    rw [Bool.eq_false_iff.2 unknown, Bool.false_or] at stops
    split at stops
    · next checked =>
        rw [checked]
        exact ⟨_, rfl⟩
    · cases stops

/-! ## What a page does -/

/-- The operations that a replica has come past. -/
def past (log : OpLog) (head : UInt64) : List ContainerOp :=
  log.ops.filter fun op => 0 < op.seq && op.seq ≤ head

/-- A replica is what the operations it has come past make with all grants and keys.
Those that still wait have a key that never comes. -/
structure Follows (full : ContainerAccess) (allKeys : KeyRing) (log : OpLog) (initial : Core σ)
    (replica : Local σ) : Prop where
  core : replica.core =
    (past log replica.headSeq).foldl (decideOp kind client full allKeys) initial
  pending : ∀ op ∈ replica.pendingOps, allKeys[op.keyEpoch]? = none

variable {log : OpLog}

/-- The next operation is the last one of those that are past then. -/
theorem past_next {before after : List ContainerOp} {op : ContainerOp} {head : UInt64}
    (split : log.ops = before ++ op :: after) (taken : ∀ earlier ∈ before, earlier.seq ≤ head)
    (new : head < op.seq) : past log op.seq = past log head ++ [op] := by
  have increasing := log.increasing
  rw [split, List.pairwise_append, List.pairwise_cons] at increasing
  obtain ⟨-, ⟨later, -⟩, -⟩ := increasing
  have positive : (0 : UInt64) < op.seq := lt_of_le_of_lt (UInt64.zero_le) new
  have low : ∀ earlier ∈ before, (decide (0 < earlier.seq) && decide (earlier.seq ≤ op.seq)) =
      (decide (0 < earlier.seq) && decide (earlier.seq ≤ head)) := by
    intro earlier member
    have := taken earlier member
    simp [this, this.trans new.le]
  have high : ∀ other ∈ after, ¬ other.seq ≤ op.seq := fun other member =>
    not_le.2 (later other member)
  have higher : ∀ other ∈ after, ¬ other.seq ≤ head := fun other member =>
    not_le.2 (new.trans (later other member))
  have noneHigh : after.filter (fun other => 0 < other.seq && other.seq ≤ op.seq) = [] := by
    simpa using fun other member _ => not_le.1 (high other member)
  have noneHigher : after.filter (fun other => 0 < other.seq && other.seq ≤ head) = [] := by
    simpa using fun other member _ => not_le.1 (higher other member)
  simp only [past, split, List.filter_append, List.filter_cons, positive, le_refl,
    not_le.2 new, noneHigh, noneHigher, List.filter_congr low]
  simp

theorem takeWhile_congr {first second : α -> Bool} {list : List α}
    (same : ∀ element ∈ list, first element = second element) :
    list.takeWhile first = list.takeWhile second := by
  induction list with
  | nil => rfl
  | cons element list inductionHypothesis =>
      rw [List.takeWhile_cons, List.takeWhile_cons, same element List.mem_cons_self,
        inductionHypothesis fun other member => same other (List.mem_cons_of_mem _ member)]

section

variable {client} {strict : Bool} {access : ContainerAccess} {head : UInt64} {op : ContainerOp}
  {ops : List ContainerOp}

theorem reached_cons_of_old (old : op.seq ≤ head) :
    client.reached strict access head (op :: ops) = client.reached strict access head ops := by
  simp [Client.reached, old, not_lt.2 old]

/-- After a new operation the client comes to the same ones as before. -/
theorem reached_cons_of_new
    (new : head < op.seq) (goesOn : client.stops strict access op = false)
    (later : ∀ other ∈ ops, op.seq < other.seq) :
    client.reached strict access head (op :: ops) =
      op :: client.reached strict access op.seq ops := by
  have sameWhile : (ops.takeWhile fun other =>
        other.seq ≤ head || !client.stops strict access other) =
      ops.takeWhile fun other => other.seq ≤ op.seq || !client.stops strict access other := by
    apply takeWhile_congr
    intro other member
    have above := later other member
    simp [not_le.2 above, not_le.2 (new.trans above)]
  have sameFilter : ∀ other ∈ ops.takeWhile fun other =>
      other.seq ≤ op.seq || !client.stops strict access other,
      decide (head < other.seq) = decide (op.seq < other.seq) := by
    intro other member
    have above := later other (List.takeWhile_subset _ member)
    simp [above, new.trans above]
  unfold Client.reached
  rw [List.takeWhile_cons_of_pos (by simp [goesOn]), List.filter_cons_of_pos (by simpa using new),
    sameWhile, List.filter_congr sameFilter]

end

variable {full : ContainerAccess} {allKeys : KeyRing}

/-- A timely page keeps the replica in step with the log. -/
theorem ingestOps_follows {initial : Core σ} {strict : Bool} {ops before after : List ContainerOp}
    (out : Ingest)
    (split : log.ops = before ++ (ops ++ after))
    (taken : ∀ op ∈ before, op.seq ≤ replica.headSeq)
    (sameContainer : identity replica.access = identity full)
    (timely : ∀ op ∈ client.reached strict replica.access replica.headSeq ops,
      client.Settles full allKeys replica.access replica.keys op)
    (follows : Follows kind client full allKeys log initial replica) :
    Follows kind client full allKeys log initial
      (ingestOps kind client strict ops replica out).1 := by
  induction ops generalizing before replica out with
  | nil => exact follows
  | cons op ops inductionHypothesis =>
      have shifted : log.ops = (before ++ [op]) ++ (ops ++ after) := by
        rw [split]
        simp
      rcases le_or_gt op.seq replica.headSeq with old | new
      · rw [reached_cons_of_old old] at timely
        have passes : ingestOp kind client strict op replica out = (replica, out, true) := by
          unfold ingestOp
          rw [if_pos old]
        simp only [ingestOps, passes]
        refine inductionHypothesis out shifted (fun other member => ?_) sameContainer timely
          follows
        rcases List.mem_append.1 member with member | member
        · exact taken other member
        · rw [List.mem_singleton.1 member]
          exact old
      · cases goesOn : client.stops strict replica.access op with
        | true =>
            obtain ⟨later, stopped⟩ := ingestOp_of_stops kind client out new goesOn
            simp only [ingestOps, stopped]
            exact follows
        | false =>
            have increasing := log.increasing
            rw [split, List.pairwise_append, List.cons_append, List.pairwise_cons] at increasing
            have above : ∀ other ∈ ops, op.seq < other.seq := fun other member =>
              increasing.2.1.1 other (List.mem_append_left _ member)
            rw [reached_cons_of_new new goesOn above] at timely
            have settles := timely op List.mem_cons_self
            obtain ⟨next, later, taking, sameAccess, sameKeys, -, isHead, isCore, waiting⟩ :=
              ingestOp_of_new kind client out new goesOn
            simp only [ingestOps, taking]
            refine inductionHypothesis later shifted (fun other member => ?_)
              (by rw [sameAccess, sameContainer])
              (fun other member => ?_) ⟨?_, fun other member => ?_⟩
            · rw [isHead]
              rcases List.mem_append.1 member with member | member
              · exact (taken other member).trans new.le
              · rw [List.mem_singleton.1 member]
            · rw [sameAccess, isHead] at member
              rw [sameAccess, sameKeys]
              exact timely other (List.mem_cons_of_mem _ member)
            · rw [isCore, isHead, past_next (show log.ops = before ++ op :: (ops ++ after) from split)
                taken new, List.foldl_append, ← follows.core]
              exact decideOp_of_settles kind client _ sameContainer settles
            · rcases waiting other member with member | ⟨rfl, missing⟩
              · exact follows.pending other member
              · rw [← settles.2]
                exact missing

/-- A page of operations leaves the grants and the keys as they are. -/
theorem ingestOps_frame
    (strict : Bool) (ops : List ContainerOp) (replica : Local σ) (out : Ingest) :
    (ingestOps kind client strict ops replica out).1.access = replica.access ∧
      (ingestOps kind client strict ops replica out).1.keys = replica.keys ∧
      (ingestOps kind client strict ops replica out).1.grants = replica.grants := by
  induction ops generalizing replica out with
  | nil => exact ⟨rfl, rfl, rfl⟩
  | cons op ops inductionHypothesis =>
      rcases le_or_gt op.seq replica.headSeq with old | new
      · have passes : ingestOp kind client strict op replica out = (replica, out, true) := by
          unfold ingestOp
          rw [if_pos old]
        simp only [ingestOps, passes]
        exact inductionHypothesis replica out
      · cases goesOn : client.stops strict replica.access op with
        | true =>
            obtain ⟨later, stopped⟩ := ingestOp_of_stops kind client out new goesOn
            simp only [ingestOps, stopped, and_self]
        | false =>
            obtain ⟨next, later, taking, sameAccess, sameKeys, sameGrants, -⟩ :=
              ingestOp_of_new kind client out new goesOn
            simp only [ingestOps, taking]
            rw [← sameAccess, ← sameKeys, ← sameGrants]
            exact inductionHypothesis next later

/-! ## What grants and keys do -/

theorem Step.identity
    {library : Domain.Library} {op : SignedOp} {access next : ContainerAccess} {grant : Grant}
    {kind : GrantOp} {event : GrantEvent}
    (step : ContainerAccess.Step library op access grant kind next event) :
    identity next = identity access := by
  cases step <;> rfl

/-- The outcomes of an entry: it is refused and changes nothing, or it is accepted. -/
theorem applyEntry_cases (access : ContainerAccess) (entry : SignedOp) :
    (∃ error, (ContainerAccess.apply client.library.toDomain entry client.resolve
      noGroups).exec access = (.error error, access)) ∨
    ∃ event next, (ContainerAccess.apply client.library.toDomain entry client.resolve
      noGroups).exec access = (.ok event, next) ∧ identity next = identity access ∧
      applyEntry client.library.toDomain client.resolve access entry = .ok next := by
  rcases (ContainerAccess.apply_atomic client.library.toDomain entry access client.resolve
    noGroups).cases with ⟨error, refused⟩ | ⟨event, next, accepted, entry, -, step⟩
  · exact .inl ⟨error, refused⟩
  · refine .inr ⟨event, next, accepted, Step.identity step, ?_⟩
    rw [applyEntry, accepted]

/-- The access of a replica is what its grants give. -/
def Replayed (genesis : SignedOp) (replica : Local σ) : Prop :=
  replay client.library.toDomain client.resolve genesis replica.grants = .ok replica.access

theorem Replayed.append {genesis entry : SignedOp} {next : ContainerAccess}
    (replayed : Replayed client genesis replica)
    (accepted : applyEntry client.library.toDomain client.resolve replica.access entry = .ok next) :
    replay client.library.toDomain client.resolve genesis (replica.grants ++ [entry]) =
      .ok next := by
  unfold Replayed at replayed
  simp only [replay, bind_eq_ok, List.foldlM_append, List.foldlM_cons, List.foldlM_nil] at *
  obtain ⟨start, isStart, folded⟩ := replayed
  exact ⟨start, isStart, replica.access, folded, next, accepted, rfl⟩

/-- What a step may change besides the operations. -/
structure Advances (genesis : SignedOp) (replica next : Local σ) : Prop where
  sameContainer : identity next.access = identity replica.access
  keys : ∀ epoch : UInt64, next.keys[epoch]? = none -> replica.keys[epoch]? = none
  replayed : Replayed client genesis replica -> Replayed client genesis next

theorem Advances.refl (genesis : SignedOp) (replica : Local σ) :
    Advances client genesis replica replica :=
  ⟨rfl, fun _ => id, id⟩

theorem Advances.trans {client : Client} {genesis : SignedOp} {first second third : Local σ}
    (before : Advances client genesis first second)
    (after : Advances client genesis second third) : Advances client genesis first third where
  sameContainer := after.sameContainer.trans before.sameContainer
  keys epoch missing := before.keys epoch (after.keys epoch missing)
  replayed holds := after.replayed (before.replayed holds)

/-- A part of a replica that grants and keys leave alone. -/
def operations (replica : Local σ) : Core σ × UInt64 × List ContainerOp :=
  (replica.core, replica.headSeq, replica.pendingOps)

theorem applyEntries_advances
    (genesis : SignedOp) (entries : List SignedOp) (replica : Local σ) :
    Advances client genesis replica (applyEntries kind client entries replica) ∧
      operations (applyEntries kind client entries replica) = operations replica := by
  induction entries generalizing replica with
  | nil => exact ⟨.refl client genesis replica, rfl⟩
  | cons entry entries inductionHypothesis =>
      rcases applyEntry_cases client replica.access entry with
        ⟨error, refused⟩ | ⟨event, next, accepted, sameContainer, isNext⟩
      · simp only [applyEntries, refused]
        split
        · exact inductionHypothesis replica
        · exact ⟨⟨rfl, fun _ => id, id⟩, rfl⟩
      · simp only [applyEntries, accepted]
        obtain ⟨rest, same⟩ := inductionHypothesis
          { replica with access := next, grants := replica.grants ++ [entry] }
        refine ⟨Advances.trans ?_ rest, same⟩
        exact ⟨sameContainer, fun _ => id, fun replayed => Replayed.append client replayed isNext⟩

theorem foldl_insert_eq_none
    (entries : List (UInt64 × Key))
    {keys : KeyRing} {epoch : UInt64}
    (missing : (entries.foldl (fun keys entry => keys.insert entry.1 entry.2) keys)[epoch]? =
      none) : keys[epoch]? = none := by
  induction entries generalizing keys with
  | nil => exact missing
  | cons entry entries inductionHypothesis =>
      have inserted := inductionHypothesis missing
      rw [Std.ExtTreeMap.getElem?_insert] at inserted
      split at inserted
      · cases inserted
      · exact inserted

theorem absorbTrusted_advances (genesis : SignedOp) (replica : Local σ) :
    Advances client genesis replica (absorbTrusted replica) where
  sameContainer := rfl
  keys _ missing := foldl_insert_eq_none _ missing
  replayed := id

theorem absorbShares_advances
    (genesis : SignedOp)
    (shares : List (List String × ContainerKeyShare))
    (replica : Local σ) :
    Advances client genesis replica (absorbShares shares replica) ∧
      operations (absorbShares shares replica) = operations replica := by
  induction shares generalizing replica with
  | nil => exact ⟨.refl client genesis replica, rfl⟩
  | cons share shares inductionHypothesis =>
      obtain ⟨senders, share⟩ := share
      simp only [absorbShares]
      split
      · next epoch key _ =>
          obtain ⟨rest, same⟩ := inductionHypothesis
            { replica with keys := replica.keys.insert epoch key }
          refine ⟨Advances.trans ?_ rest, same⟩
          exact ⟨rfl, fun other missing => foldl_insert_eq_none [(epoch, key)] missing, id⟩
      · obtain ⟨rest, same⟩ := inductionHypothesis
          { replica with pendingKeys := replica.pendingKeys ++ [(senders, share)] }
        refine ⟨Advances.trans ?_ rest, same⟩
        exact ⟨rfl, fun _ => id, id⟩
      · obtain ⟨rest, same⟩ := inductionHypothesis
          { replica with pendingKeys := replica.pendingKeys ++ [(senders, share)] }
        refine ⟨Advances.trans ?_ rest, same⟩
        exact ⟨rfl, fun _ => id, id⟩
      · exact inductionHypothesis replica

/-- Operations keep waiting as long as their keys are missing. -/
theorem retryOps_of_missing
    (ops : List ContainerOp) (replica : Local σ) (applied : Nat)
    (missing : ∀ op ∈ ops, replica.keys[op.keyEpoch]? = none) :
    retryOps kind client ops replica applied =
      ({ replica with pendingOps := replica.pendingOps ++ ops }, applied) := by
  induction ops generalizing replica with
  | nil => simp [retryOps]
  | cons op ops inductionHypothesis =>
      rw [retryOps, if_pos (by rw [missing op List.mem_cons_self]; rfl), inductionHypothesis]
      · simp
      · exact fun other member => missing other (List.mem_cons_of_mem _ member)

theorem retryOps_frame
    (ops : List ContainerOp) (replica : Local σ) (applied : Nat) :
    (retryOps kind client ops replica applied).1.access = replica.access ∧
      (retryOps kind client ops replica applied).1.keys = replica.keys ∧
      (retryOps kind client ops replica applied).1.grants = replica.grants := by
  induction ops generalizing replica applied with
  | nil => exact ⟨rfl, rfl, rfl⟩
  | cons op ops inductionHypothesis =>
      rw [retryOps]
      split
      · exact inductionHypothesis _ applied
      · split
        · exact inductionHypothesis replica applied
        · exact inductionHypothesis _ _

/-- Taking in grants and keys, before the operations that wait are tried again. -/
def beforeRetry (entries : List SignedOp) (replica : Local σ) : Local σ :=
  let trusted := absorbTrusted (applyEntries kind client entries replica)
  absorbShares trusted.pendingKeys { trusted with pendingKeys := [] }

theorem beforeRetry_advances
    (genesis : SignedOp) (entries : List SignedOp) (replica : Local σ) :
    Advances client genesis replica (beforeRetry kind client entries replica) ∧
      operations (beforeRetry kind client entries replica) = operations replica := by
  obtain ⟨applied, appliedSame⟩ := applyEntries_advances kind client genesis entries replica
  have trusted := absorbTrusted_advances client genesis (applyEntries kind client entries replica)
  obtain ⟨shared, sharedSame⟩ := absorbShares_advances client genesis
    (absorbTrusted (applyEntries kind client entries replica)).pendingKeys
    { absorbTrusted (applyEntries kind client entries replica) with pendingKeys := [] }
  refine ⟨(applied.trans trusted).trans (Advances.trans ?_ shared), sharedSame.trans appliedSame⟩
  exact ⟨rfl, fun _ => id, id⟩

theorem ingestGrants_eq {entries : List SignedOp}
    (replica : Local σ) (known : client.logsKnown entries = true) :
    ingestGrants kind client entries replica =
      (retryPending kind client (beforeRetry kind client entries replica)).1 := by
  rw [ingestGrants, if_pos known]
  rfl

/-- Every step advances the grants and the keys. -/
theorem Takes.advances {kind : Kind σ β} {client : Client} {replica next : Local σ} {page : Page}
    (takes : Takes kind client log replica page next)
    (genesis : SignedOp) : Advances client genesis replica next := by
  cases page with
  | grants entries =>
      rw [takes]
      cases known : client.logsKnown entries with
      | false =>
          rw [ingestGrants, known, if_neg (by simp)]
          exact .refl client genesis replica
      | true =>
          rw [ingestGrants_eq kind client replica known, retryPending]
          obtain ⟨sameAccess, sameKeys, sameGrants⟩ := retryOps_frame kind client
            (beforeRetry kind client entries replica).pendingOps
            { beforeRetry kind client entries replica with pendingOps := [] } 0
          refine (beforeRetry_advances kind client genesis entries replica).1.trans ⟨?_, ?_, ?_⟩
          · rw [sameAccess]
          · rw [sameKeys]
            exact fun _ => id
          · unfold Replayed
            rw [sameAccess, sameGrants]
            exact id
  | ops strict more ops =>
      obtain ⟨-, rfl⟩ := takes
      obtain ⟨sameAccess, sameKeys, sameGrants⟩ :=
        ingestOps_frame kind client strict ops replica { more }
      refine ⟨?_, ?_, ?_⟩
      · rw [ingestSync, sameAccess]
      · rw [ingestSync, sameKeys]
        exact fun _ => id
      · unfold Replayed
        rw [ingestSync, sameAccess, sameGrants]
        exact id

/-- A timely step keeps the replica in step with the log. -/
theorem Takes.follows
    {kind : Kind σ β} {client : Client} {replica next : Local σ} {page : Page} {initial : Core σ}
    (genesis : SignedOp) (takes : Takes kind client log replica page next)
    (timely : Timely client full allKeys replica page)
    (sameContainer : identity replica.access = identity full)
    (known : ∀ epoch : UInt64, allKeys[epoch]? = none -> next.keys[epoch]? = none)
    (follows : Follows kind client full allKeys log initial replica) :
    Follows kind client full allKeys log initial next := by
  cases page with
  | grants entries =>
      rw [takes] at known ⊢
      cases logs : client.logsKnown entries with
      | false =>
          rw [ingestGrants, logs, if_neg (by simp)]
          exact follows
      | true =>
          have same := (beforeRetry_advances kind client genesis entries replica).2
          obtain ⟨sameCore, rest⟩ := Prod.mk.inj same
          obtain ⟨sameHead, samePending⟩ := Prod.mk.inj rest
          rw [ingestGrants_eq kind client replica logs, retryPending] at known ⊢
          rw [(retryOps_frame kind client _ _ _).2.1] at known
          -- No key has come for what waits, since none ever does.
          rw [retryOps_of_missing kind client _ _ 0 (fun op member => known _
            (follows.pending op (samePending ▸ member)))]
          refine ⟨?_, fun op member => follows.pending op (samePending ▸ by simpa using member)⟩
          change (beforeRetry kind client entries replica).core =
            (past log (beforeRetry kind client entries replica).headSeq).foldl _ _
          rw [sameCore, sameHead]
          exact follows.core
  | ops strict more ops =>
      obtain ⟨⟨before, after, split, taken⟩, rfl⟩ := takes
      exact ingestOps_follows kind client _ split taken sameContainer timely follows

/-! ## Runs -/

/-- A client takes in a page on which it is not behind. -/
def TakesTimely (log : OpLog) (full : ContainerAccess) (allKeys : KeyRing) (replica : Local σ)
    (page : Page) (next : Local σ) : Prop :=
  Takes kind client log replica page next ∧ Timely client full allKeys replica page

variable {kind client}

theorem advances_of_run {replica final : Local σ} {pages : List Page}
    (genesis : SignedOp)
    (run : Run (TakesTimely kind client log full allKeys) replica pages final) :
    Advances client genesis replica final := by
  induction run with
  | nil replica => exact .refl client genesis replica
  | cons first rest inductionHypothesis =>
      exact (first.1.advances genesis).trans inductionHypothesis

/-- A timely run keeps the replica in step with the log. -/
theorem follows_of_run {initial : Core σ} {replica final : Local σ} {pages : List Page}
    (genesis : SignedOp)
    (run : Run (TakesTimely kind client log full allKeys) replica pages final)
    (sameContainer : identity final.access = identity full)
    (known : ∀ epoch : UInt64, allKeys[epoch]? = none -> final.keys[epoch]? = none)
    (follows : Follows kind client full allKeys log initial replica) :
    Follows kind client full allKeys log initial final := by
  induction run with
  | nil replica => exact follows
  | cons first rest inductionHypothesis =>
      have advances := first.1.advances genesis
      have later := advances_of_run genesis rest
      refine inductionHypothesis sameContainer known (first.1.follows genesis first.2 ?_ ?_ follows)
      · rw [← advances.sameContainer, ← later.sameContainer, sameContainer]
      · exact fun epoch missing => later.keys epoch (known epoch missing)

/-- A client that has come past the whole log holds what the log makes with all grants and
keys. -/
theorem core_of_run
    {genesis : SignedOp} {grantLog grants : List SignedOp} {full access : ContainerAccess}
    {initial : σ} {keys : KeyRing}
    {trustedKeys : List (UInt64 × Key)}
    {pendingKeys : List (List String × ContainerKeyShare)}
    {final : Local σ} {pages : List Page}
    (replayed : replay client.library.toDomain client.resolve genesis grants = .ok access)
    (whole : replay client.library.toDomain client.resolve genesis grantLog = .ok full)
    (run : Run (TakesTimely kind client log full final.keys)
      (attached initial grants access keys trustedKeys pendingKeys) pages final)
    (allGrants : final.grants = grantLog) (allOps : ∀ op ∈ log.ops, op.seq ≤ final.headSeq) :
    final.core = (log.ops.filter fun op => 0 < op.seq).foldl
      (decideOp kind client full final.keys) { state := initial } := by
  have isFull : final.access = full := by
    have finalReplayed := (advances_of_run genesis run).replayed replayed
    rw [Replayed, allGrants, whole] at finalReplayed
    cases finalReplayed
    rfl
  have empty : past log 0 = [] := by
    simp only [past, List.filter_eq_nil_iff, Bool.and_eq_true, decide_eq_true_eq, not_and]
    exact fun op _ positive => not_le.2 positive
  have start : Follows kind client full final.keys log { state := initial }
      (attached initial grants access keys trustedKeys pendingKeys) := by
    refine ⟨?_, by simp [attached]⟩
    change _ = (past log 0).foldl _ _
    rw [empty]
    rfl
  have follows := follows_of_run genesis run (by rw [isFull]) (fun _ => id) start
  rw [follows.core]
  congr 1
  unfold past
  apply List.filter_congr
  intro op member
  simp [allOps op member]

/-- Two clients with the same keys that have taken in the whole grant log and all
operations agree, if neither ever came to an operation before the grants and the key that
decide about it. -/
theorem replicas_agree
    (kind : Kind σ β)
    (client : Client)
    (otherLogs : List SignedOp -> Bool)
    (initial : σ)
    (genesis : SignedOp)
    (grantLog : List SignedOp)
    (log : OpLog)
    {full access otherAccess : ContainerAccess}
    {grants otherGrants : List SignedOp}
    {keys otherKeys : KeyRing}
    {trustedKeys otherTrusted : List (UInt64 × Key)}
    {pendingKeys otherPending : List (List String × ContainerKeyShare)}
    {pages otherPages : List Page}
    {final otherFinal : Local σ}
    (whole : replay client.library.toDomain client.resolve genesis grantLog = .ok full)
    (replayed : replay client.library.toDomain client.resolve genesis grants = .ok access)
    (otherReplayed : replay client.library.toDomain client.resolve genesis otherGrants =
      .ok otherAccess)
    (run : Run (TakesTimely kind client log full final.keys)
      (attached initial grants access keys trustedKeys pendingKeys) pages final)
    (otherRun : Run (TakesTimely kind { client with logsKnown := otherLogs } log full
        otherFinal.keys)
      (attached initial otherGrants otherAccess otherKeys otherTrusted otherPending) otherPages
      otherFinal)
    (sameKeys : final.keys = otherFinal.keys)
    (allGrants : final.grants = grantLog ∧ otherFinal.grants = grantLog)
    (allOps : ∀ op ∈ log.ops, op.seq ≤ final.headSeq ∧ op.seq ≤ otherFinal.headSeq) :
    final.core.state = otherFinal.core.state ∧
      final.core.accepted = otherFinal.core.accepted := by
  have first := core_of_run replayed whole run allGrants.1 fun op member => (allOps op member).1
  have second : otherFinal.core = (log.ops.filter fun op => 0 < op.seq).foldl
      (decideOp kind client full otherFinal.keys) { state := initial } :=
    @core_of_run _ _ kind { client with logsKnown := otherLogs } _ _ _ _ _ _ _ _ _ _ _ _
      otherReplayed whole otherRun allGrants.2 fun op member => (allOps op member).2
  rw [← sameKeys] at second
  have same : final.core = otherFinal.core := first.trans second.symm
  rw [same]
  exact ⟨rfl, rfl⟩

/-! ## A sample -/

/-- The signatures of the grants of `ContainerAccess.sampleLibrary`, and operations whose
plain text names a folder. -/
def sampleLibrary : Library :=
  { ContainerAccess.sampleLibrary with
    decodeOpBody := fun body => .ok
      ⟨some { ContainerAccess.sampleHeader body with
        opType := if body.getD 1 0 == 5 then opOp
          else (ContainerAccess.sampleHeader body).opType }, body⟩
    decodeSealDigest := fun _ => .ok ⟨1, zeroHash.bytes, 0⟩
    aeadDecrypt := fun _ _ _ ciphertext => .ok (ciphertext.drop tagLen) }

/-- The owner signs with a key of zeros, the other user with a key of ones. -/
def sampleClient : Client where
  library := sampleLibrary
  resolve key :=
    if key.bytes.getD 0 0 == 0 then some ⟨"u@a.org", "d", []⟩ else some ⟨"v@a.org", "e", []⟩
  logsKnown _ := true

def sampleBatch (_ : Bytes) : Result Cloud.CloudBatch :=
  .ok ⟨[⟨some (.setMeta ⟨"plans", some ⟨1, "e"⟩⟩)⟩]⟩

abbrev sampleKind : Kind Cloud.CloudState Cloud.CloudBatch := cloud sampleBatch

/-- The other user gets the right to write, and names the folder. -/
def sampleGrant : SignedOp := ContainerAccess.sampleOp 1 1 1

def sampleContainerOp : ContainerOp where
  container := some ContainerAccess.sampleRef
  keyEpoch := 1
  aeadCiphertext := List.replicate 28 0
  author := some ⟨[1, 5, 1], List.replicate 64 0, List.replicate 32 1⟩
  seq := 1

def sampleOpLog : OpLog := ⟨[sampleContainerOp], by simp⟩

def sampleKeys : KeyRing := (∅ : KeyRing).insert 1 ⟨List.replicate 32 7, rfl⟩

/-- The access that some entries give. -/
def sampleAccess (entries : List SignedOp) : ContainerAccess :=
  match replay sampleLibrary.toDomain sampleClient.resolve (ContainerAccess.sampleOp 0 0 1)
      entries with
  | .ok access => access
  | .error _ => ContainerAccess.sampleStart

theorem sampleAccess_eq {entries : List SignedOp}
    (accepted : (replay sampleLibrary.toDomain sampleClient.resolve
      (ContainerAccess.sampleOp 0 0 1) entries).isOk = true) :
    replay sampleLibrary.toDomain sampleClient.resolve (ContainerAccess.sampleOp 0 0 1) entries =
      .ok (sampleAccess entries) := by
  unfold sampleAccess
  cases replayed : replay sampleLibrary.toDomain sampleClient.resolve
      (ContainerAccess.sampleOp 0 0 1) entries with
  | error error =>
      rw [replayed] at accepted
      cases accepted
  | ok access => rfl

def sampleStart (entries : List SignedOp) : Local Cloud.CloudState :=
  attached Cloud.CloudState.new entries (sampleAccess entries) sampleKeys [] []

/-- The grant comes first. -/
def samplePunctual : Local Cloud.CloudState :=
  (ingestSync sampleKind sampleClient false false [sampleContainerOp]
    (ingestGrants sampleKind sampleClient [sampleGrant] (sampleStart []))).1

/-- The operation comes first. -/
def sampleLate : Local Cloud.CloudState :=
  ingestGrants sampleKind sampleClient [sampleGrant]
    (ingestSync sampleKind sampleClient false false [sampleContainerOp] (sampleStart [])).1

/-- The grant is there from the beginning. -/
def sampleInformed : Local Cloud.CloudState :=
  (ingestSync sampleKind sampleClient true false [sampleContainerOp]
    (sampleStart [sampleGrant])).1

theorem sample_page
    {replica : Local Cloud.CloudState} : IsPage sampleOpLog replica [sampleContainerOp] :=
  ⟨[], [], rfl, by simp⟩

instance (full access : ContainerAccess) (allKeys keys : KeyRing) (op : ContainerOp) :
    Decidable (client.Settles full allKeys access keys op) :=
  inferInstanceAs (Decidable (_ ∧ _))

/-- One client takes in the grant as a page, the other has it from the beginning. -/
theorem replicas_agree_sample :
    samplePunctual.core.state = sampleInformed.core.state ∧
      samplePunctual.core.accepted = sampleInformed.core.accepted ∧
      samplePunctual.core.accepted = [sampleContainerOp] := by
  have whole : replay sampleLibrary.toDomain sampleClient.resolve (ContainerAccess.sampleOp 0 0 1)
      [sampleGrant] = .ok (sampleAccess [sampleGrant]) := sampleAccess_eq (by decide +kernel)
  have none : replay sampleLibrary.toDomain sampleClient.resolve (ContainerAccess.sampleOp 0 0 1)
      [] = .ok (sampleAccess []) := sampleAccess_eq (by decide +kernel)
  have run : Run (TakesTimely sampleKind sampleClient sampleOpLog (sampleAccess [sampleGrant])
      samplePunctual.keys) (sampleStart [])
      [.grants [sampleGrant], .ops false false [sampleContainerOp]] samplePunctual :=
    .cons ⟨rfl, trivial⟩ (.cons ⟨⟨sample_page, rfl⟩, by unfold Timely; decide +kernel⟩ (.nil _))
  have otherRun : Run (TakesTimely sampleKind sampleClient sampleOpLog
      (sampleAccess [sampleGrant]) sampleInformed.keys) (sampleStart [sampleGrant])
      [.ops true false [sampleContainerOp]] sampleInformed :=
    .cons ⟨⟨sample_page, rfl⟩, by unfold Timely; decide +kernel⟩ (.nil _)
  have sameKeys : samplePunctual.keys = sampleInformed.keys :=
    Std.ExtTreeMap.toList_inj.1 (by decide +kernel)
  have agree := replicas_agree sampleKind sampleClient (fun _ => true) Cloud.CloudState.new
    (ContainerAccess.sampleOp 0 0 1) [sampleGrant] sampleOpLog whole none whole run otherRun sameKeys
    ⟨by decide +kernel, by decide +kernel⟩ (by decide +kernel)
  exact ⟨agree.1, agree.2, by decide +kernel⟩

/-- A client that comes to the operation before it knows the grant drops the operation for
good, though both clients have the same keys and take in both logs. -/
theorem late_grant_splits_replicas :
    ¬ ∀ (grantLog : List SignedOp) (log : OpLog) (full : ContainerAccess)
        (pages otherPages : List Page) (final otherFinal : Local Cloud.CloudState),
      replay sampleLibrary.toDomain sampleClient.resolve (ContainerAccess.sampleOp 0 0 1)
        grantLog = .ok full ->
      Run (Takes sampleKind sampleClient log) (sampleStart []) pages final ->
      Run (Takes sampleKind sampleClient log) (sampleStart []) otherPages otherFinal ->
      final.keys = otherFinal.keys ->
      final.grants = grantLog ∧ otherFinal.grants = grantLog ->
      (∀ op ∈ log.ops, op.seq ≤ final.headSeq ∧ op.seq ≤ otherFinal.headSeq) ->
        final.core.state = otherFinal.core.state ∧
          final.core.accepted = otherFinal.core.accepted := by
  intro always
  have agree := always [sampleGrant] sampleOpLog (sampleAccess [sampleGrant])
    [.grants [sampleGrant], .ops false false [sampleContainerOp]]
    [.ops false false [sampleContainerOp], .grants [sampleGrant]] samplePunctual sampleLate
    (sampleAccess_eq (by decide +kernel))
    (.cons rfl (.cons ⟨sample_page, rfl⟩ (.nil _)))
    (.cons ⟨sample_page, rfl⟩ (.cons rfl (.nil _)))
    (Std.ExtTreeMap.toList_inj.1 (by decide +kernel))
    ⟨by decide +kernel, by decide +kernel⟩ (by decide +kernel)
  have accepted : samplePunctual.core.accepted = [sampleContainerOp] := by decide +kernel
  have dropped : sampleLate.core.accepted = [] := by decide +kernel
  rw [accepted, dropped] at agree
  cases agree.2

end Parvane.Shared
