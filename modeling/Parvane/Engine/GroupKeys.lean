import Parvane.Engine.Refusals
import Parvane.Foundation.Overwriting

/-!
# What a client keeps of the keys of groups

Members and the other devices of the user send the keys of a group in shares, each with some of
the keys.  A share overwrites the keys of the epoch and the session of its sender; a session that
another device passes on only fills a gap.
-/

namespace Parvane.Engine

open Wire Sign Identity Parvane.Group Fallible Convergence

variable (library : Library)

/-! ## The keys of a share -/

/-- A share with the user who sent it. -/
abbrev Sent := String × GroupKeyShare

/-- The epoch of a group that the share is about. -/
def GroupKeyShare.epochRef (share : GroupKeyShare) : Option EpochRef := do
  let context ← share.context
  let group ← context.group
  return ⟨group.id, context.epoch.toNat⟩

/-- The keys of the epoch in a share. -/
def GroupKeyShare.epochKeys (share : GroupKeyShare) : Option EpochKeys :=
  if share.envelopeKey.isEmpty then none
  else (FixedBytes.ofBytes? 32 share.envelopeKey).map fun key =>
    ⟨key, FixedBytes.ofBytes? 32 share.sendPrivateKey⟩

/-- The session of the sender in a share. -/
def sentSession (sent : Sent) : Option Inbound :=
  if sent.2.megolmSessionKey.isEmpty then none
  else do
    let ref ← sent.2.epochRef
    let session ← (library.megolmOfKey sent.2.megolmSessionKey).toOption
    return ⟨ref.group, ref.epoch, sent.1, session⟩

/-- The session of another member in a share. -/
def sentExport (sent : Sent) : Option Inbound :=
  if sent.2.megolmExported.isEmpty then none
  else do
    let ref ← sent.2.epochRef
    let session ← (library.megolmImport sent.2.megolmExported).toOption
    return ⟨ref.group, ref.epoch, sent.2.megolmOwner, session⟩

/-- The keys of the given epoch in a share. -/
def keysAt (ref : EpochRef) (sent : Sent) : Option EpochKeys :=
  if sent.2.epochRef = some ref then sent.2.epochKeys else none

/-- The session in a share, if it is the one with the given name. -/
def sessionAt (id : Bytes) (sent : Sent) : Option Inbound :=
  (sentSession library sent).filter fun inbound => library.megolmId inbound.session = id

def exportAt (id : Bytes) (sent : Sent) : Option Inbound :=
  (sentExport library sent).filter fun inbound => library.megolmId inbound.session = id

/-- A client accepts a share. -/
def Accepts (client : Client) (sent : Sent) (next : Client) : Prop :=
  exec (acceptGroupKey library sent.1 sent.2) client = (.ok (), next)

variable {library}
variable {client next : Client} {sender : String} {share : GroupKeyShare}

theorem exec_checkShare_eq_ok {context : GroupContext} {id : Bytes} {state : GroupState}
    (ran : exec (checkShare sender context id state) client = (.ok (), next)) : next = client := by
  unfold checkShare at ran
  split at ran
  · split at ran <;> cases ran
  · cases checked : checkContext state context <;> rw [checked] at ran <;> cases ran
    rfl

theorem sendSecret_eq_ok {state : GroupState} {sendSk : Option SigningKey}
    (found : sendSecret library share state = .ok sendSk) :
    sendSk = FixedBytes.ofBytes? 32 share.sendPrivateKey ∧
      ∀ key ∈ sendSk, some (library.publicKey key) = state.sendPublicKey := by
  unfold sendSecret at found
  split at found
  · simp only [bind_eq_ok, present_eq_ok, require_eq_ok, pure, Except.pure, Except.ok.injEq,
      beq_iff_eq] at found
    obtain ⟨key, isKey, _, fits, rfl⟩ := found
    refine ⟨isKey.symm, ?_⟩
    rintro _ ⟨⟩
    exact fits
  · next short =>
      cases found
      rw [FixedBytes.ofBytes?, dif_neg short]
      refine ⟨rfl, ?_⟩
      rintro _ ⟨⟩

/-- What the keys of the epoch in an accepted share do. -/
theorem exec_acceptEpochKeys_eq_ok {id : Bytes} {epoch : UInt64} {state : GroupState}
    (ran : exec (acceptEpochKeys library sender share id epoch state) client = (.ok (), next)) :
    next = { client with
      epochKeys := share.epochKeys.elim client.epochKeys (client.epochKeys.insert ⟨id, epoch.toNat⟩) } ∧
    ∀ keys ∈ share.epochKeys, epoch.toNat = state.epoch ∧
      ∀ sendSk ∈ keys.sendSk, some (library.publicKey sendSk) = state.sendPublicKey := by
  unfold acceptEpochKeys at ran
  unfold GroupKeyShare.epochKeys
  split at ran
  · next empty =>
      cases ran
      simp [empty]
  · next full =>
      rw [if_neg full]
      rw [exec_get_bind] at ran
      obtain ⟨_, allowed, ran⟩ := exec_check_eq_ok.1 ran
      obtain ⟨key, isKey, ran⟩ := exec_check_eq_ok.1 ran
      obtain ⟨sendSk, isSendSk, ran⟩ := exec_check_eq_ok.1 ran
      obtain ⟨_, -, ran⟩ := exec_check_eq_ok.1 ran
      rw [liftProto_eq_ok, require_eq_ok, Bool.and_eq_true, beq_iff_eq] at allowed
      rw [liftProto_eq_ok, present_eq_ok] at isKey
      rw [liftProto_eq_ok] at isSendSk
      obtain ⟨rfl, fits⟩ := sendSecret_eq_ok isSendSk
      cases ran
      rw [isKey]
      refine ⟨rfl, ?_⟩
      rintro _ ⟨⟩
      exact ⟨allowed.2, fits⟩

theorem exec_acceptSession_eq_ok {id : Bytes} {epoch : UInt64}
    (isRef : share.epochRef = some ⟨id, epoch.toNat⟩)
    (ran : exec (acceptSession library sender share id epoch) client = (.ok (), next)) :
    next = { client with
      megolmIn := (sentSession library (sender, share)).elim client.megolmIn fun inbound =>
        client.megolmIn.insert (library.megolmId inbound.session) inbound } := by
  unfold acceptSession at ran
  unfold sentSession
  split at ran
  · next empty =>
      cases ran
      simp [empty]
  · next full =>
      rw [if_neg full]
      rw [exec_get_bind] at ran
      obtain ⟨session, isSession, ran⟩ := exec_check_eq_ok.1 ran
      obtain ⟨_, -, ran⟩ := exec_check_eq_ok.1 ran
      rw [liftProto_eq_ok] at isSession
      cases ran
      simp [isRef, isSession, Except.toOption]

theorem exec_acceptExported_eq_ok {id : Bytes} {epoch : UInt64}
    (isRef : share.epochRef = some ⟨id, epoch.toNat⟩)
    (ran : exec (acceptExported library sender share id epoch) client = (.ok (), next)) :
    next = { client with
      megolmIn := (sentExport library (sender, share)).elim client.megolmIn fun inbound =>
        client.megolmIn.insertIfNew (library.megolmId inbound.session) inbound } := by
  unfold acceptExported at ran
  unfold sentExport
  split at ran
  · next empty =>
      cases ran
      simp [empty]
  · next full =>
      rw [if_neg full]
      rw [exec_get_bind] at ran
      obtain ⟨_, -, ran⟩ := exec_check_eq_ok.1 ran
      obtain ⟨session, isSession, ran⟩ := exec_check_eq_ok.1 ran
      rw [liftProto_eq_ok] at isSession
      cases ran
      simp [isRef, isSession, Except.toOption]

theorem getElem?_takeKeys {taken : EpochRef}
    (isRef : share.epochRef = some taken) (keys : Std.ExtTreeMap EpochRef EpochKeys)
    (ref : EpochRef) :
    (share.epochKeys.elim keys (keys.insert taken))[ref]? =
      overwrite (keysAt ref) (fun _ => none) keys[ref]? (sender, share) := by
  simp only [overwrite, keysAt, isRef, Option.some.injEq, Option.or_none]
  cases share.epochKeys with
  | none => simp
  | some new =>
      rw [Option.elim_some, Std.ExtTreeMap.getElem?_insert]
      simp only [compare_eq_iff_eq]
      split <;> rfl

theorem getElem?_takeSessions (sessions : Std.ExtTreeMap Bytes Inbound) (id : Bytes) :
    let after := (sentSession library (sender, share)).elim sessions fun inbound =>
      sessions.insert (library.megolmId inbound.session) inbound
    ((sentExport library (sender, share)).elim after fun inbound =>
        after.insertIfNew (library.megolmId inbound.session) inbound)[id]? =
      overwrite (sessionAt library id) (exportAt library id) sessions[id]? (sender, share) := by
  intro after
  have sent : after[id]? = (sessionAt library id (sender, share)).or sessions[id]? := by
    subst after
    rw [sessionAt]
    cases sentSession library (sender, share) with
    | none => rfl
    | some inbound =>
        rw [Option.elim_some, Std.ExtTreeMap.getElem?_insert, Option.filter_some]
        by_cases same : library.megolmId inbound.session = id <;> simp [same]
  rw [overwrite, ← Option.or_assoc, ← sent, exportAt]
  cases sentExport library (sender, share) with
  | none => simp
  | some inbound =>
      rw [Option.elim_some, Std.ExtTreeMap.getElem?_insertIfNew, Option.filter_some]
      by_cases same : library.megolmId inbound.session = id
      · subst same
        cases held : after[library.megolmId inbound.session]? <;>
          simp [Std.ExtTreeMap.mem_iff_isSome_getElem?, held]
      · simp [same]

/-- What an accepted share does to each of the keys. -/
structure Taken (library : Library) (client : Client) (sent : Sent) (next : Client) : Prop where
  groups : next.groups = client.groups
  epochKeys : ∀ ref : EpochRef,
    next.epochKeys[ref]? = overwrite (keysAt ref) (fun _ => none) client.epochKeys[ref]? sent
  megolmIn : ∀ id : Bytes,
    next.megolmIn[id]? =
      overwrite (sessionAt library id) (exportAt library id) client.megolmIn[id]? sent
  known : ∃ ref state, sent.2.epochRef = some ref ∧ client.groupState ref.group = some state ∧
    ∀ keys ∈ sent.2.epochKeys, ref.epoch = state.epoch ∧
      ∀ sendSk ∈ keys.sendSk, some (library.publicKey sendSk) = state.sendPublicKey

theorem Accepts.taken {sent : Sent}
    (accepts : Accepts library client sent next) : Taken library client sent next := by
  obtain ⟨sender, share⟩ := sent
  unfold Accepts acceptGroupKey at accepts
  dsimp only at accepts
  obtain ⟨context, isContext, accepts⟩ := exec_check_eq_ok.1 accepts
  obtain ⟨group, isGroup, accepts⟩ := exec_check_eq_ok.1 accepts
  rw [exec_get_bind] at accepts
  obtain ⟨state, isState, accepts⟩ := exec_check_eq_ok.1 accepts
  rw [liftProto_eq_ok, present_eq_ok] at isContext isGroup
  rw [fetched_eq_ok] at isState
  obtain ⟨_, checked, isChecked, accepts⟩ := exec_bind_eq_ok.1 accepts
  obtain ⟨_, first, isFirst, accepts⟩ := exec_bind_eq_ok.1 accepts
  obtain ⟨_, second, isSecond, accepts⟩ := exec_bind_eq_ok.1 accepts
  have isRef : share.epochRef = some ⟨group.id, context.epoch.toNat⟩ := by
    rw [GroupKeyShare.epochRef, isContext]
    simp [isGroup]
  cases exec_checkShare_eq_ok isChecked
  obtain ⟨rfl, known⟩ := exec_acceptEpochKeys_eq_ok isFirst
  cases exec_acceptSession_eq_ok isRef isSecond
  cases exec_acceptExported_eq_ok isRef accepts
  refine ⟨rfl, fun ref => ?_, fun id => ?_, _, state, isRef, isState, known⟩
  · exact getElem?_takeKeys isRef client.epochKeys ref
  · exact getElem?_takeSessions client.megolmIn id

/-! ## Keeping keys -/

/-- The client has the sending key of the current epoch of a group. -/
def HoldsSending (library : Library) (client : Client) (ref : EpochRef) : Prop :=
  ∃ state keys sendSk, client.groupState ref.group = some state ∧ state.epoch = ref.epoch ∧
    client.epochKeys[ref]? = some keys ∧ keys.sendSk = some sendSk ∧
    some (library.publicKey sendSk) = state.sendPublicKey

/-- The client can decrypt the messages of a session in an epoch of a group from an index on.
The first index that a session knows comes from the library of the sessions. -/
def DecryptsFrom (firstIndex : MegolmSession -> Nat) (client : Client) (ref : EpochRef)
    (id : Bytes) (index : Nat) : Prop :=
  ∃ inbound, client.megolmIn[id]? = some inbound ∧ inbound.group = ref.group ∧
    inbound.epoch = ref.epoch ∧ firstIndex inbound.session ≤ index

/-- No sending key is lost, and what could be decrypted still can be. -/
structure KeepsKeys (library : Library) (firstIndex : MegolmSession -> Nat)
    (earlier later : Client) : Prop where
  sending : ∀ ref, HoldsSending library earlier ref -> HoldsSending library later ref
  sessions : ∀ ref id index, DecryptsFrom firstIndex earlier ref id index ->
    DecryptsFrom firstIndex later ref id index

/-- A share with the keys of an epoch has the sending key too if the client holds it.  A share
with a session that the client knows is about the same epoch and starts no later. -/
structure Spares (library : Library) (firstIndex : MegolmSession -> Nat) (client : Client)
    (sent : Sent) : Prop where
  sending : ∀ ref keys, sent.2.epochRef = some ref -> sent.2.epochKeys = some keys ->
    HoldsSending library client ref -> keys.sendSk.isSome = true
  session : ∀ ref session known, sent.2.epochRef = some ref -> sent.2.megolmSessionKey ≠ [] ->
    library.megolmOfKey sent.2.megolmSessionKey = .ok session ->
      client.megolmIn[library.megolmId session]? = some known ->
        known.group = ref.group ∧ known.epoch = ref.epoch ∧
          firstIndex session ≤ firstIndex known.session

theorem KeepsKeys.refl (firstIndex : MegolmSession -> Nat) (client : Client) :
    KeepsKeys library firstIndex client client :=
  ⟨fun _ => id, fun _ _ _ => id⟩

theorem KeepsKeys.trans {firstIndex : MegolmSession -> Nat} {first second third : Client}
    (before : KeepsKeys library firstIndex first second)
    (after : KeepsKeys library firstIndex second third) :
    KeepsKeys library firstIndex first third where
  sending ref holds := after.sending ref (before.sending ref holds)
  sessions ref id index decrypts :=
    after.sessions ref id index (before.sessions ref id index decrypts)

theorem keysAt_eq_some {ref : EpochRef} {sent : Sent} {keys : EpochKeys} :
    keysAt ref sent = some keys ↔ sent.2.epochRef = some ref ∧ sent.2.epochKeys = some keys := by
  unfold keysAt
  split <;> simp [*]

theorem sentSession_eq_some {sent : Sent} {inbound : Inbound} :
    sentSession library sent = some inbound ↔
      sent.2.megolmSessionKey ≠ [] ∧ ∃ ref session, sent.2.epochRef = some ref ∧
        library.megolmOfKey sent.2.megolmSessionKey = .ok session ∧
        inbound = ⟨ref.group, ref.epoch, sent.1, session⟩ := by
  unfold sentSession
  by_cases empty : sent.2.megolmSessionKey = []
  · simp [empty]
  · simp only [List.isEmpty_iff, empty, if_false, ne_eq, not_false_eq_true, true_and,
      Option.bind_eq_bind, Option.bind_eq_some_iff, Option.pure_def, Option.some.injEq]
    refine exists_congr fun ref => ?_
    cases library.megolmOfKey sent.2.megolmSessionKey <;>
      simp [Except.toOption, eq_comm (a := inbound)]

namespace Taken

variable {sent : Sent} (taken : Taken library client sent next)

include taken

theorem groupState (id : Bytes) : next.groupState id = client.groupState id := by
  rw [Client.groupState, Client.groupState, taken.groups]

theorem spares {firstIndex : MegolmSession -> Nat}
    (keeps : KeepsKeys library firstIndex client next) : Spares library firstIndex client sent := by
  constructor
  · intro ref keys isRef isKeys holds
    obtain ⟨state, later, sendSk, -, -, held, isSendSk, -⟩ := keeps.sending ref holds
    rw [taken.epochKeys, overwrite, keysAt_eq_some.2 ⟨isRef, isKeys⟩] at held
    cases held
    rw [isSendSk, Option.isSome_some]
  · intro ref session known isRef full isSession held
    have sentIt := sentSession_eq_some.2 ⟨full, ref, session, isRef, isSession, rfl⟩
    have now : next.megolmIn[library.megolmId session]? =
        some ⟨ref.group, ref.epoch, sent.1, session⟩ := by
      rw [taken.megolmIn, overwrite, sessionAt, sentIt, Option.filter_some]
      simp
    obtain ⟨inbound, isInbound, sameGroup, sameEpoch, early⟩ :=
      keeps.sessions ⟨known.group, known.epoch⟩ _ (firstIndex known.session)
        ⟨known, held, rfl, rfl, le_rfl⟩
    rw [now] at isInbound
    cases isInbound
    exact ⟨sameGroup.symm, sameEpoch.symm, early⟩

theorem keepsKeys {firstIndex : MegolmSession -> Nat}
    (spares : Spares library firstIndex client sent) :
    KeepsKeys library firstIndex client next := by
  constructor
  · rintro ref ⟨state, keys, sendSk, isState, current, held, isSendSk, fits⟩
    have nextState := (taken.groupState ref.group).trans isState
    cases new : keysAt ref sent with
    | none =>
        refine ⟨state, keys, sendSk, nextState, current, ?_, isSendSk, fits⟩
        rw [taken.epochKeys, overwrite, new, held]
        rfl
    | some newKeys =>
        obtain ⟨isRef, isKeys⟩ := keysAt_eq_some.1 new
        obtain ⟨newSk, isNewSk⟩ := Option.isSome_iff_exists.1 (spares.sending ref newKeys isRef
          isKeys ⟨state, keys, sendSk, isState, current, held, isSendSk, fits⟩)
        obtain ⟨sameRef, sameState, isSameRef, isSameState, checked⟩ := taken.known
        cases isRef.symm.trans isSameRef
        cases isState.symm.trans isSameState
        refine ⟨state, newKeys, newSk, nextState, current, ?_, isNewSk,
          (checked newKeys isKeys).2 newSk isNewSk⟩
        rw [taken.epochKeys, overwrite, new]
        rfl
  · rintro ref id index ⟨inbound, held, sameGroup, sameEpoch, early⟩
    cases new : sessionAt library id sent with
    | none =>
        refine ⟨inbound, ?_, sameGroup, sameEpoch, early⟩
        rw [taken.megolmIn, overwrite, new, held]
        rfl
    | some newSession =>
        obtain ⟨isSent, isId⟩ := Option.filter_eq_some_iff.1 new
        obtain ⟨full, about, session, isRef, isSession, rfl⟩ := sentSession_eq_some.1 isSent
        have named : library.megolmId session = id := of_decide_eq_true isId
        obtain ⟨group, epoch, start⟩ :=
          spares.session about session inbound isRef full isSession (named ▸ held)
        refine ⟨⟨about.group, about.epoch, sent.1, session⟩, ?_, group ▸ sameGroup,
          epoch ▸ sameEpoch, start.trans early⟩
        rw [taken.megolmIn, overwrite, new]
        rfl

end Taken

/-! ## Shares in another order -/

/-- Shares with the keys of one epoch have the same keys, and those with one session the same
session.  So have those that fill a gap, where no sender fills it. -/
structure OrderFree (library : Library) (client : Client) (shares : List Sent) : Prop where
  keys : ∀ ref, Agree (keysAt ref) shares
  sessions : ∀ id, Agree (sessionAt library id) shares
  exports : ∀ id : Bytes, client.megolmIn[id]? = none ->
    (∀ sent ∈ shares, sessionAt library id sent = none) -> Agree (exportAt library id) shares

theorem heldAfter {shares : List Sent}
    (run : Run (Accepts library) client shares next) :
    (∀ ref : EpochRef, next.epochKeys[ref]? =
      shares.foldl (overwrite (keysAt ref) fun _ => none) client.epochKeys[ref]?) ∧
    ∀ id : Bytes, next.megolmIn[id]? =
      shares.foldl (overwrite (sessionAt library id) (exportAt library id))
        client.megolmIn[id]? := by
  induction run with
  | nil client => exact ⟨fun _ => rfl, fun _ => rfl⟩
  | cons first rest inductionHypothesis =>
      have taken := first.taken
      refine ⟨fun ref => ?_, fun id => ?_⟩
      · rw [inductionHypothesis.1, List.foldl_cons, taken.epochKeys]
      · rw [inductionHypothesis.2, List.foldl_cons, taken.megolmIn]

/-- Accepted shares never lose a key exactly if each of them spares the keys that are held when
it comes.  Shares that are free of order give the same keys in whatever order. -/
theorem shares_keep_keys_iff
    (library : Library)
    (firstIndex : MegolmSession -> Nat)
    (start final : Client)
    (shares : List Sent)
    (run : Run (Accepts library) start shares final) :
    ((∀ before during after earlier later, shares = before ++ (during ++ after) ->
        Run (Accepts library) start before earlier -> Run (Accepts library) earlier during later ->
          KeepsKeys library firstIndex earlier later) ↔
      ∀ before sent after earlier later, shares = before ++ sent :: after ->
        Run (Accepts library) start before earlier -> Accepts library earlier sent later ->
          Spares library firstIndex earlier sent) ∧
    (OrderFree library start shares -> ∀ others other, SameMembers shares others ->
      Run (Accepts library) start others other ->
        other.epochKeys = final.epochKeys ∧ other.megolmIn = final.megolmIn) := by
  constructor
  · rw [Run.related_iff (KeepsKeys.refl firstIndex) fun _ _ _ => KeepsKeys.trans]
    refine forall_congr' fun before => forall_congr' fun sent => forall_congr' fun after =>
      forall_congr' fun earlier => forall_congr' fun later => imp_congr_right fun _ =>
        imp_congr_right fun _ => forall_congr' fun accepts => ?_
    exact ⟨accepts.taken.spares, accepts.taken.keepsKeys⟩
  · intro free others other same otherRun
    obtain ⟨keys, sessions⟩ := heldAfter run
    obtain ⟨otherKeys, otherSessions⟩ := heldAfter otherRun
    constructor
    · apply Std.ExtTreeMap.ext_getElem?
      intro ref
      rw [keys, otherKeys]
      exact (foldl_overwrite_eq same (free.keys ref) fun _ _ => agree_none shares).symm
    · apply Std.ExtTreeMap.ext_getElem?
      intro id
      rw [sessions, otherSessions]
      exact (foldl_overwrite_eq same (free.sessions id) (free.exports id)).symm

/-! ## A sample -/

/-- The first byte of a session is its name, the second the first index that it knows. -/
def keysLibrary : Library := { burnLibrary with megolmId := fun session => session.take 1 }

def sampleIndex (session : MegolmSession) : Nat := (session.getD 1 0).toNat

def sampleEpoch : EpochRef := ⟨sampleGroup.id, 1⟩

/-- A device of the first user, who owns the group, without keys. -/
def keylessClient : Client := { burnClient with epochKeys := ∅, megolmIn := ∅ }

def sampleSendSk : SigningKey := ⟨List.replicate 32 9, rfl⟩

/-- A share of another device of the user. -/
def sampleShareOf (sendPrivateKey session : Bytes) : Sent :=
  ("a@x.org",
    { context := some ⟨some sampleGroup, 1, 4, rolesState.headHash.bytes⟩
      envelopeKey := zeroKey.bytes
      megolmSessionKey := session
      sendPrivateKey := sendPrivateKey
      megolmExported := []
      megolmOwner := "" })

/-- The share with all keys of the epoch. -/
def fullShare : Sent := sampleShareOf sampleSendSk.bytes [9, 0]

/-- The share of a device that has no sending key and a later session. -/
def bareShare : Sent := sampleShareOf [] [9, 5]

/-- The client after some shares. -/
def afterShares (shares : List Sent) : Client :=
  shares.foldl (fun client sent => (exec (acceptGroupKey keysLibrary sent.1 sent.2) client).2)
    keylessClient

theorem accepts_afterShares
    (shares : List Sent) {sent : Sent}
    (accepted : (exec (acceptGroupKey keysLibrary sent.1 sent.2) (afterShares shares)).1.isOk =
      true) : Accepts keysLibrary (afterShares shares) sent (afterShares (shares ++ [sent])) := by
  rw [Accepts, afterShares, afterShares, List.foldl_append, List.foldl_cons, List.foldl_nil,
    ← afterShares]
  rcases ran : exec (acceptGroupKey keysLibrary sent.1 sent.2) (afterShares shares) with
    ⟨_ | _, later⟩
  · rw [ran] at accepted
    cases accepted
  · rfl

theorem holdsSending_of_keys {client : Client}
    (current : (client.groupState sampleEpoch.group).any (fun state =>
      state.epoch = 1 ∧ state.sendPublicKey = some sampleSendSk) = true)
    (held : client.epochKeys[sampleEpoch]? = some ⟨zeroKey, some sampleSendSk⟩) :
    HoldsSending keysLibrary client sampleEpoch := by
  obtain ⟨state, isState, found⟩ := Option.any_eq_true _ _ |>.1 current
  obtain ⟨epoch, key⟩ := of_decide_eq_true found
  exact ⟨state, _, sampleSendSk, isState, epoch, held, rfl, key.symm⟩

/-- The share with all keys, alone and repeated. -/
theorem shares_keep_keys_iff_sample :
    KeepsKeys keysLibrary sampleIndex keylessClient (afterShares [fullShare]) ∧
      (afterShares [fullShare, fullShare]).epochKeys = (afterShares [fullShare]).epochKeys := by
  have first : Accepts keysLibrary keylessClient fullShare (afterShares [fullShare]) :=
    accepts_afterShares [] (by decide +kernel)
  have second : Accepts keysLibrary (afterShares [fullShare]) fullShare
      (afterShares [fullShare, fullShare]) :=
    accepts_afterShares [fullShare] (by decide +kernel)
  obtain ⟨keeps, order⟩ := shares_keep_keys_iff keysLibrary sampleIndex keylessClient _ [fullShare]
    (.cons first (.nil _))
  constructor
  · refine keeps.2 ?_ [] [fullShare] [] _ _ rfl (.nil _) (.cons first (.nil _))
    intro before sent after earlier later split run accepts
    obtain ⟨rfl, rfl⟩ : before = [] ∧ sent = fullShare := by
      cases before with
      | nil =>
          cases split
          exact ⟨rfl, rfl⟩
      | cons one before =>
          have lengths := congrArg List.length split
          simp at lengths
    cases run
    constructor
    · rintro ref keys - - ⟨_, _, _, -, -, held, -⟩
      simp [keylessClient] at held
    · intro ref session known _ _ _ held
      simp [keylessClient] at held
  · refine (order ⟨fun _ => agree_singleton _ _, fun _ => agree_singleton _ _,
      fun _ _ _ => agree_singleton _ _⟩ [fullShare, fullShare] _ ?_
      (.cons first (.cons second (.nil _)))).1
    intro sent
    simp

/-- The share of a device without the sending key takes this key away, and its session replaces
the one that starts earlier.  In the other order the client keeps both. -/
theorem bare_share_loses_keys :
    (Accepts keysLibrary keylessClient fullShare (afterShares [fullShare]) ∧
      Accepts keysLibrary (afterShares [fullShare]) bareShare
        (afterShares [fullShare, bareShare])) ∧
    (HoldsSending keysLibrary (afterShares [fullShare]) sampleEpoch ∧
      ¬ HoldsSending keysLibrary (afterShares [fullShare, bareShare]) sampleEpoch) ∧
    (DecryptsFrom sampleIndex (afterShares [fullShare]) sampleEpoch [9] 0 ∧
      ¬ DecryptsFrom sampleIndex (afterShares [fullShare, bareShare]) sampleEpoch [9] 0) ∧
    (Accepts keysLibrary keylessClient bareShare (afterShares [bareShare]) ∧
      Accepts keysLibrary (afterShares [bareShare]) fullShare
        (afterShares [bareShare, fullShare])) ∧
    (afterShares [bareShare, fullShare]).epochKeys ≠
        (afterShares [fullShare, bareShare]).epochKeys ∧
      (afterShares [bareShare, fullShare]).megolmIn ≠
        (afterShares [fullShare, bareShare]).megolmIn := by
  have bareKeys : (afterShares [fullShare, bareShare]).epochKeys[sampleEpoch]? =
      some ⟨zeroKey, none⟩ := by decide +kernel
  have bareSession : (afterShares [fullShare, bareShare]).megolmIn[([9] : Bytes)]? =
      some ⟨sampleGroup.id, 1, "a@x.org", [9, 5]⟩ := by decide +kernel
  refine ⟨⟨accepts_afterShares [] (by decide +kernel),
    accepts_afterShares [fullShare] (by decide +kernel)⟩, ⟨?_, ?_⟩, ⟨?_, ?_⟩,
    ⟨accepts_afterShares [] (by decide +kernel),
    accepts_afterShares [bareShare] (by decide +kernel)⟩, ?_, ?_⟩
  · exact holdsSending_of_keys (by decide +kernel) (by decide +kernel)
  · rintro ⟨state, keys, sendSk, -, -, held, isSendSk, -⟩
    rw [bareKeys] at held
    cases held
    cases isSendSk
  · exact ⟨⟨sampleGroup.id, 1, "a@x.org", [9, 0]⟩, by decide +kernel, rfl, rfl, by decide⟩
  · rintro ⟨inbound, held, -, -, early⟩
    rw [bareSession] at held
    cases held
    revert early
    decide
  · intro same
    rw [← same] at bareKeys
    revert bareKeys
    decide +kernel
  · intro same
    rw [← same] at bareSession
    revert bareSession
    decide +kernel

end Parvane.Engine
