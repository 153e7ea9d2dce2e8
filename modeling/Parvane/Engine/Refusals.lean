import Parvane.Engine.Opening

/-!
# Refused messages

A message that is refused before its mark leaves the marks as they were.  After the mark
an operation is still refused if its content cannot be read or if its author does not own
the session in which it came; then the mark stays.
-/

namespace Parvane.Engine

open Wire Sign Identity Parvane.Group Fallible

/-! ## What the checks leave as it was -/

/-- What the client knows of users and their devices. -/
def Client.known (client : Client) :=
  (client.user, client.deviceId, client.ownLog, client.formerOwn, client.peers)

/-- What the checks before a mark leave as it was. -/
def Client.marked (client : Client) :=
  (client.seen, client.known)

theorem authorOwnsSession_congr {first second : Client}
    (same : first.known = second.known)
    (read : GroupRead) : authorOwnsSession first read = authorOwnsSession second read := by
  cases first
  cases second
  obtain ⟨rfl, rfl, rfl, rfl, rfl⟩ := by simpa only [Client.known, Prod.mk.injEq] using same
  rfl

theorem callAllowed_congr {first second : Client}
    (same : first.known = second.known) (sender device : String) (call : OpenedCall) :
    callAllowed first sender device call = callAllowed second sender device call := by
  simp only [Client.known, Prod.mk.injEq] at same
  simp only [callAllowed, same.1, same.2.1]

section

variable (library : Library)

section

variable (device : DeviceRef)

include device

theorem marked_decryptCurrent
    (type : UInt32) (bytes : Bytes) (client : Client) :
    (decryptCurrent library device type bytes client).2.marked = client.marked := by
  unfold decryptCurrent
  split
  · rfl
  · split <;> rfl

theorem marked_decryptOld
    (type : UInt32) (bytes : Bytes) (client : Client) :
    (decryptOld library device type bytes client).2.marked = client.marked := by
  unfold decryptOld
  split
  · rfl
  · split <;> rfl

theorem marked_decryptInbound
    (identity : Hash) (type : UInt32) (bytes : Bytes) (client : Client) :
    (decryptInbound library device identity type bytes client).2.marked = client.marked := by
  unfold decryptInbound
  split
  · rfl
  · split <;> rfl

theorem marked_decrypt
    (identity : Hash) (type : UInt32) (bytes : Bytes) (client : Client) :
    (decrypt library device identity type bytes client).2.marked = client.marked := by
  have current := marked_decryptCurrent library device type bytes client
  unfold decrypt
  split
  next plain later found =>
    rwa [found] at current
  next later found =>
    rw [found] at current
    have old := marked_decryptOld library device type bytes later
    split
    next plain last decrypted =>
      rw [decrypted] at old
      exact old.trans current
    next last failed =>
      rw [failed] at old
      exact (marked_decryptInbound library device identity type bytes last).trans
        (old.trans current)

end

theorem keeps_checkSealed (inner : SealedInner) (me device : DeviceRef) (callOnly : Bool) :
    Keeps Client.marked (checkSealed library inner me device callOnly) := by
  refine keeps_bind (keeps_liftM _) fun cert => keeps_bind (keeps_liftM _) fun sender =>
    keeps_bind (keeps_liftM _) fun identity => keeps_bind (keeps_liftM _) fun _ =>
    keeps_bind ?_ fun plain => keeps_bind (keeps_liftM _) fun plain => keeps_liftM _
  exact keeps_modifyGet fun client => marked_decrypt library device identity _ _ client

theorem keeps_nowMs : Keeps Client.marked (nowMs library) :=
  keeps_bind (keeps_modifyGet fun _ => rfl) fun _ => keeps_pure _

theorem marked_markBehind (id : Bytes) (claimed : Nat) (client : Client) :
    (markBehind id claimed client).marked = client.marked := by
  unfold markBehind
  split
  · rfl
  · split <;> rfl

theorem marked_takePublicEpochKeys (state : GroupState) (epoch : UInt64) (client : Client) :
    (takePublicEpochKeys library state epoch client).marked = client.marked := by
  unfold takePublicEpochKeys
  dsimp only
  split
  · rfl
  · split
    · split <;> rfl
    · rfl

theorem keeps_decryptKnown
    (group : Bytes) (epoch : UInt64) (inner : GroupEnvelopeInner) (inbound : Inbound) :
    Keeps Client.marked (decryptKnown library group epoch inner inbound) := by
  refine keeps_bind (keeps_liftM _) fun _ => keeps_bind (keeps_modify fun _ => rfl) fun _ => ?_
  split
  · exact keeps_pure _
  · exact Keeps.ite (keeps_throw _) (keeps_liftM _)

theorem keeps_decryptPublic (group : Bytes) (epoch : UInt64) (inner : GroupEnvelopeInner) :
    Keeps Client.marked (decryptPublic library group epoch inner) := by
  refine keeps_bind (keeps_liftM _) fun opened => ?_
  split
  · exact keeps_pure _
  · exact keeps_bind (keeps_modify fun _ => rfl) fun _ => keeps_pure _

theorem keeps_decryptGroup (group : Bytes) (epoch : UInt64) (inner : GroupEnvelopeInner) :
    Keeps Client.marked (decryptGroup library group epoch inner) := by
  refine keeps_bind keeps_get fun client => ?_
  split
  · exact keeps_decryptKnown library group epoch inner _
  · exact Keeps.ite (keeps_throw _) (keeps_decryptPublic library group epoch inner)

theorem keeps_checkGroupMessage
    (group : Ref) (state : GroupState) (env : GroupEnvelope) (sessionId : Bytes)
    (decrypted : Decrypted) :
    Keeps Client.marked (checkGroupMessage library group state env sessionId decrypted) := by
  refine keeps_bind keeps_get fun client => keeps_bind (keeps_nowMs library) fun now => ?_
  split
  · exact keeps_pure _
  · exact keeps_bind (keeps_modify fun _ => marked_markBehind _ _ _) fun _ => keeps_throw _
  · exact keeps_throw _

theorem keeps_readGroup (env : GroupEnvelope) : Keeps Client.marked (readGroup library env) := by
  refine keeps_bind (keeps_liftM _) fun group => keeps_bind keeps_get fun client =>
    keeps_bind (keeps_liftM _) fun state => keeps_bind (keeps_liftM _) fun _ =>
    keeps_bind (keeps_modify fun _ => marked_takePublicEpochKeys library _ _ _) fun _ =>
    keeps_bind keeps_get fun client => keeps_bind (keeps_liftM _) fun keys =>
    keeps_bind (keeps_liftM _) fun inner => keeps_bind (keeps_liftM _) fun _ =>
    keeps_bind (keeps_decryptGroup library _ _ _) fun decrypted =>
    keeps_bind keeps_get fun client => keeps_bind (keeps_liftM _) fun _ => ?_
  exact keeps_checkGroupMessage library _ _ _ _ _

end

/-! ## The mark -/

/-- An operation with this key is marked. -/
def Client.hasSeen (client : Client) (library : Library) (key : Bytes) : Bool :=
  client.seen.contains (seenHash library.sign key)

section

variable (library : Library)

theorem exec_insertOnce_of_seen {client : Client} {key : Bytes}
    (seen : client.hasSeen library key = true) :
    exec (insertOnce library key) client = (.error (.proto .duplicate), client) := by
  simp [insertOnce, client.seen.checkAndInsert_of_seen seen, liftProto]

theorem exec_insertOnce_of_new {client : Client} {key : Bytes}
    (isNew : client.hasSeen library key = false) :
    ∃ later, exec (insertOnce library key) client = (.ok (), later) ∧
      later.seen = client.seen.insert (seenHash library.sign key) ∧
      later.known = client.known := by
  let hash := seenHash library.sign key
  let list := client.seenList ++ [(hash, library.clock client.readings)]
  refine
    ⟨{ client with
        seen := client.seen.insert hash
        seenList := keepLast seenCap list
        readings := client.readings + 1 }, ?_, rfl, rfl⟩
  simp only [insertOnce, exec_bind, exec_get, exec_liftM, client.seen.checkAndInsert_of_new isNew,
    liftProto, nowMs, nextReading, exec_modifyGet, exec_pure, exec_modify]
  rfl

/-- After the mark, the operation counts as seen. -/
theorem hasSeen_of_insert {before after : Client} {key : Bytes}
    (inserted : after.seen = before.seen.insert (seenHash library.sign key)) :
    after.hasSeen library key = true := by
  rw [Client.hasSeen, inserted]
  exact before.seen.contains_insert _

end

/-! ## After the mark -/

section

variable (library : Library)

/-- Why an operation of a sealed envelope is refused after its mark: the content cannot be
read, the state key is no good, or the call is not one that the sender may signal. -/
def lateRefusal (client : Client) (sender device : String) (unsealed : Unsealed) :
    Option ProtoError :=
  match unsealed.signal with
  | some signal =>
      if callAllowed client sender device ⟨unsealed.sender, unsealed.verified.header, signal⟩ then
        none
      else some .contextMismatch
  | none =>
      match library.decodeContent unsealed.verified.payload with
      | .error error => some error
      | .ok content =>
          match (library.sanitizeContent content).kind with
          | some (.stateKey share) =>
              if sender = client.user then
                match StateKeys.fromShare share client.user with
                | .ok _ => none
                | .error error => some error
              else none
          | _ => none

/-- What follows the mark of an operation in a sealed envelope. -/
def afterMark (seq : UInt64) (sender device : String) (unsealed : Unsealed) :
    Act (List Event) := do
  let opened ← liftProto (finishSealed library unsealed)
  takeSealed library seq sender device opened

theorem total_retryPendingGroup (pending : PendingEnvelope) :
    Total (retryPendingGroup library pending) := by
  refine total_bind (total_attempt _) fun result => ?_
  split
  · exact total_pure _
  · exact total_bind (total_modify _) fun _ => total_pure _
  · exact total_pure _

theorem total_retryPendingGroups : Total (retryPendingGroups library) :=
  total_bind total_get fun _ => total_bind (total_modify _) fun _ =>
    total_bind (total_mapM (total_retryPendingGroup library) _) fun _ => total_pure _

theorem total_takeGroupKey (seq : UInt64) (sender : String) (share : GroupKeyShare) :
    Total (takeGroupKey library seq sender share) := by
  refine total_bind (total_attempt _) fun result => total_bind total_get fun client => ?_
  split
  · exact total_bind (total_retryPendingGroups library) fun _ => total_pure _
  · exact total_bind (total_modify _) fun _ => total_pure _
  · exact total_pure _
  · exact total_bind (total_modify _) fun _ => total_pure _

theorem marked_noteAuthorLog (user : String) (version : UInt64) (client : Client) :
    (noteAuthorLog user version client).marked = client.marked := by
  unfold noteAuthorLog
  split <;> rfl

theorem user_noteAuthorLog (user : String) (version : UInt64) (client : Client) :
    (noteAuthorLog user version client).user = client.user := by
  unfold noteAuthorLog
  split <;> rfl

section

variable (seq : UInt64)

include seq

theorem total_takeStateKey (key : Hash) (version : UInt32) :
    Total (takeStateKey seq key version) :=
  total_bind total_get fun _ => total_bind (total_modify _) fun _ => total_pure _

theorem takeMessage_of_stateKey {client : Client} {opened : Opened} {share : StateKeyShare}
    (sender device : String)
    (kind : opened.content.kind = some (.stateKey share)) :
    exec (takeMessage library seq sender device opened) client =
      exec (takeStateKeyShare seq sender share)
        (noteAuthorLog sender opened.msg.authorLogVersion client) := by
  simp only [takeMessage, exec_bind, exec_modify, exec_get, kind]

/-- A share is only refused if it is one of the user. -/
theorem total_takeStateKeyShare {client : Client} {sender : String} {share : StateKeyShare}
    (good : sender = client.user -> ∃ key, StateKeys.fromShare share client.user = .ok key) :
    ∃ events later, exec (takeStateKeyShare seq sender share) client = (.ok events, later) := by
  simp only [takeStateKeyShare, exec_bind, exec_get]
  by_cases own : sender = client.user
  · obtain ⟨key, found⟩ := good own
    simp only [own, ne_eq, not_true_eq_false, if_false, found, liftProto, exec_bind, exec_liftM]
    exact total_takeStateKey seq key.1 key.2 client
  · rw [if_pos own]
    exact ⟨_, _, rfl⟩

theorem exec_takeStateKeyShare_of_error
    {client : Client} {sender : String} {share : StateKeyShare} {error : ProtoError}
    (own : sender = client.user) (bad : StateKeys.fromShare share client.user = .error error) :
    exec (takeStateKeyShare seq sender share) client = (.error (.proto error), client) := by
  simp [takeStateKeyShare, own, bad, liftProto]

theorem total_takeMessage {opened : Opened}
    (sender device : String)
    (other : ∀ share, opened.content.kind ≠ some (.stateKey share)) :
    Total (takeMessage library seq sender device opened) := by
  refine total_bind (total_modify _) fun _ => total_bind total_get fun client => ?_
  dsimp only
  split
  next share kind => exact total_bind (total_modify _) fun _ => total_pure _
  next share kind => exact absurd kind (other share)
  next l2 kind => exact total_bind (total_modify _) fun _ => total_pure _
  next share kind => exact total_pure _
  next share kind => exact total_takeGroupKey library seq sender share
  next => exact total_pure _

end

/-- A message of which the content was decoded. -/
def openedOf (unsealed : Unsealed) (content : Content) : Opened where
  sender := unsealed.sender
  header := unsealed.verified.header
  msg := unsealed.msg
  content := library.sanitizeContent content
  disposition :=
    if content.kind.isNone ||
        unsealed.msg.criticalFields.any (fun field => !library.contentFieldKnown field)
    then .stub else .show

variable {unsealed : Unsealed}

theorem afterMark_of_signal {signal : CallSignal}
    (isCall : unsealed.signal = some signal) (seq : UInt64) (sender device : String)
    (client : Client) :
    exec (afterMark library seq sender device unsealed) client =
      exec (takeCall sender device ⟨unsealed.sender, unsealed.verified.header, signal⟩) client := by
  simp only [afterMark, finishSealed, isCall, liftProto, takeSealed, exec_bind, exec_liftM]

theorem afterMark_of_content {content : Content}
    (isMessage : unsealed.signal = none)
    (decoded : library.decodeContent unsealed.verified.payload = .ok content) (seq : UInt64)
    (sender device : String) (client : Client) :
    exec (afterMark library seq sender device unsealed) client =
      exec (takeMessage library seq sender device (openedOf library unsealed content)) client := by
  have finished : finishSealed library unsealed =
      .ok (.message (openedOf library unsealed content)) := by
    simp only [finishSealed, isMessage, finish, decoded]
    rfl
  simp only [afterMark, finished, liftProto, takeSealed, exec_bind, exec_liftM]

theorem afterMark_of_undecodable {error : ProtoError}
    (isMessage : unsealed.signal = none)
    (decoded : library.decodeContent unsealed.verified.payload = .error error) (seq : UInt64)
    (sender device : String) (client : Client) :
    exec (afterMark library seq sender device unsealed) client =
      (.error (.proto error), client) := by
  have failed : finishSealed library unsealed = .error error := by
    simp only [finishSealed, isMessage, finish, decoded]
    rfl
  simp only [afterMark, failed, liftProto, exec_bind, exec_liftM]

/-- What follows the mark fails as it is told, and leaves the marks as they are. -/
theorem afterMark_of_some {client middle : Client} {sender device : String} {error : ProtoError}
    (seq : UInt64) (same : middle.known = client.known)
    (late : lateRefusal library client sender device unsealed = some error) :
    ∃ later, exec (afterMark library seq sender device unsealed) middle =
      (.error (.proto error), later) ∧ later.seen = middle.seen := by
  have user : middle.user = client.user := congrArg Prod.fst same
  unfold lateRefusal at late
  split at late
  next signal isCall =>
    obtain ⟨refused, rfl⟩ := by simpa using late
    refine ⟨middle, ?_, rfl⟩
    rw [afterMark_of_signal library isCall]
    simp [takeCall, callAllowed_congr same, refused, require, liftProto]
  next isMessage =>
    split at late
    next failure decoded =>
      cases late
      exact ⟨middle, afterMark_of_undecodable library isMessage decoded seq sender device middle,
        rfl⟩
    next content decoded =>
      rw [afterMark_of_content library isMessage decoded]
      split at late
      next share kind =>
        split at late
        next own =>
          split at late
          next => cases late
          next failure bad =>
            cases late
            rw [takeMessage_of_stateKey library seq sender device kind]
            refine ⟨_, exec_takeStateKeyShare_of_error seq ?_ ?_, ?_⟩
            · rw [user_noteAuthorLog, user, own]
            · rw [user_noteAuthorLog, user]
              exact bad
            · exact congrArg Prod.fst (marked_noteAuthorLog _ _ middle)
        next => cases late
      next => cases late

/-- Otherwise it does not fail. -/
theorem afterMark_of_none {client middle : Client} {sender device : String}
    (seq : UInt64) (same : middle.known = client.known)
    (late : lateRefusal library client sender device unsealed = none) :
    ∃ events later, exec (afterMark library seq sender device unsealed) middle =
      (.ok events, later) := by
  have user : middle.user = client.user := congrArg Prod.fst same
  unfold lateRefusal at late
  split at late
  next signal isCall =>
    have allowed := by simpa using late
    rw [afterMark_of_signal library isCall]
    exact ⟨_, middle, by simp [takeCall, callAllowed_congr same, allowed, require, liftProto]; rfl⟩
  next isMessage =>
    split at late
    next => cases late
    next content decoded =>
      rw [afterMark_of_content library isMessage decoded]
      split at late
      next share kind =>
        rw [takeMessage_of_stateKey library seq sender device kind]
        refine total_takeStateKeyShare seq fun own => ?_
        rw [user_noteAuthorLog, user] at own ⊢
        rw [if_pos own] at late
        split at late
        next key good => exact ⟨key, good⟩
        next => cases late
      next other => exact total_takeMessage library seq sender device other middle

end

/-! ## When a refusal leaves the marks as they were -/

/-- An envelope that comes in: a sealed one, with its place in the inbox, or that of a
group. -/
inductive Incoming
  | sealed (seq : UInt64) (env : SealedEnvelope) (callOnly : Bool)
  | group (seq : UInt64) (env : GroupEnvelope)

section

variable (library : Library)

/-- Open an envelope. -/
def openIncoming : Incoming -> Act (List Event)
  | .sealed seq env callOnly => openSealedMode library seq env callOnly
  | .group seq env => openGroup library seq env

/-- A sealed envelope passes all checks that come before the mark. -/
structure PassesChecks (client : Client) (env : SealedEnvelope) (callOnly : Bool)
    (read : SealedRead) (unsealed : Unsealed) (middle : Client) : Prop where
  outer : readSealed library env client = .ok read
  isActive : ∃ log, senderLog client read.sender = .ok log ∧
    checkActive read.sender log read.device = .ok ()
  fromOther : ¬ (read.sender = client.user ∧ read.device.cert.deviceId = client.deviceId)
  inner : exec
    (checkSealed library read.inner read.me ⟨read.sender, read.device.cert.deviceId⟩ callOnly)
    client = (.ok unsealed, middle)

/-- A group message is new: neither its place in the session is marked nor, after that, its
operation. -/
def isNewInGroup (client : Client) (read : GroupRead) : Bool :=
  !client.hasSeen library (megolmKey read.sessionId read.index) &&
    !(client.seen.insert (seenHash library.sign (megolmKey read.sessionId read.index))).contains
      (seenHash library.sign (opKey read.opened.sender read.opened.header.opId))

/-- The envelope passes all checks that come before the mark, the operation is new, and it is
refused after the mark: its content cannot be read, its state key is no good, it is a call
that the sender may not signal, or the author of a group message does not own the session. -/
def RefusedLate (client : Client) : Incoming -> Prop
  | .sealed _ env callOnly => ∃ read unsealed middle error,
      PassesChecks library client env callOnly read unsealed middle ∧
      client.hasSeen library (opKey unsealed.sender unsealed.verified.header.opId) = false ∧
      lateRefusal library client read.sender read.device.cert.deviceId unsealed = some error ∧
      error ≠ .duplicate
  | .group _ env => ∃ read middle,
      exec (readGroup library env) client = (.ok read, middle) ∧
      isNewInGroup library client read = true ∧ authorOwnsSession client read = false

/-- If an envelope is refused with another error than that it was seen, the same operations
as before are marked. -/
def RefusalKeepsMarks (client : Client) (incoming : Incoming) : Prop :=
  ∀ error later, exec (openIncoming library incoming) client = (.error error, later) ->
    error ≠ .proto .duplicate -> ∀ key, later.seen.contains key = client.seen.contains key

theorem exec_of_passes
    {client middle : Client} {env : SealedEnvelope} {callOnly : Bool} {read : SealedRead}
    {unsealed : Unsealed} (seq : UInt64)
    (passes : PassesChecks library client env callOnly read unsealed middle) :
    middle.marked = client.marked ∧
      exec (openSealedMode library seq env callOnly) client =
        exec
          (do
            insertOnce library (opKey unsealed.sender unsealed.verified.header.opId)
            afterMark library seq read.sender read.device.cert.deviceId unsealed)
          middle := by
  obtain ⟨outer, ⟨log, known, active⟩, fromOther, inner⟩ := passes
  constructor
  · have kept := keeps_checkSealed library read.inner read.me
      ⟨read.sender, read.device.cert.deviceId⟩ callOnly client
    rwa [inner] at kept
  · simp only [openSealedMode, exec_bind, exec_get, outer, liftProto, exec_liftM, known,
      if_neg fromOther, active, openSealedOpMode, inner, afterMark]
    rcases exec (insertOnce library (opKey unsealed.sender unsealed.verified.header.opId)) middle
      with ⟨error | done, later⟩
    · rfl
    · rfl

/-- A sealed envelope that is refused without having passed the checks leaves the marks. -/
theorem passes_or_marked
    {client later : Client} {env : SealedEnvelope} {callOnly : Bool} {error : ClientError}
    {seq : UInt64}
    (failed : exec (openSealedMode library seq env callOnly) client = (.error error, later)) :
    later.seen = client.seen ∨
      ∃ read unsealed middle, PassesChecks library client env callOnly read unsealed middle := by
  rw [openSealedMode, exec_bind, exec_get] at failed
  dsimp only at failed
  rcases exec_check_eq_error.1 failed with ⟨-, rfl⟩ | ⟨read, outer, failed⟩
  · exact .inl rfl
  rcases exec_check_eq_error.1 failed with ⟨-, rfl⟩ | ⟨log, known, failed⟩
  · exact .inl rfl
  split at failed
  · cases failed
  next fromOther =>
    rcases exec_check_eq_error.1 failed with ⟨-, rfl⟩ | ⟨_, active, failed⟩
    · exact .inl rfl
    rw [openSealedOpMode, bind_assoc] at failed
    rcases exec_bind_eq_error.1 failed with early | ⟨unsealed, middle, inner, -⟩
    · have kept := keeps_checkSealed library read.inner read.me
        ⟨read.sender, read.device.cert.deviceId⟩ callOnly client
      rw [early] at kept
      exact .inl (congrArg Prod.fst kept)
    · have outer : readSealed library env client = .ok read := by simpa using outer
      exact .inr ⟨read, unsealed, middle, outer, ⟨log, known, active⟩, fromOther, inner⟩

/-- What the mark and the rest do with an operation that is new and refused after it. -/
theorem exec_mark_of_late
    {client middle : Client} {sender device : String} {unsealed : Unsealed} {error : ProtoError}
    (seq : UInt64) (same : middle.marked = client.marked)
    (isNew : client.hasSeen library (opKey unsealed.sender unsealed.verified.header.opId) = false)
    (late : lateRefusal library client sender device unsealed = some error) :
    ∃ later,
      exec
        (do
          insertOnce library (opKey unsealed.sender unsealed.verified.header.opId)
          afterMark library seq sender device unsealed)
        middle = (.error (.proto error), later) ∧
      later.hasSeen library (opKey unsealed.sender unsealed.verified.header.opId) = true := by
  obtain ⟨seen, known⟩ := Prod.mk.inj same
  rw [Client.hasSeen, ← seen] at isNew
  obtain ⟨marked, inserted, added, kept⟩ := exec_insertOnce_of_new library isNew
  obtain ⟨later, refused, left⟩ := afterMark_of_some library seq (kept.trans known) late
  refine ⟨later, ?_, ?_⟩
  · rw [exec_bind, inserted]
    exact refused
  · rw [Client.hasSeen, left]
    exact hasSeen_of_insert library added

/-- For sealed envelopes. -/
theorem sealed_keeps_marks_iff (client : Client) (seq : UInt64) (env : SealedEnvelope)
    (callOnly : Bool) :
    RefusalKeepsMarks library client (.sealed seq env callOnly) ↔
      ¬ RefusedLate library client (.sealed seq env callOnly) := by
  constructor
  · rintro keeps ⟨read, unsealed, middle, error, passes, isNew, late, notDuplicate⟩
    obtain ⟨same, run⟩ := exec_of_passes library seq passes
    obtain ⟨later, failed, seen⟩ := exec_mark_of_late library seq same isNew late
    have unchanged := keeps (.proto error) later (run.trans failed) (by simpa using notDuplicate)
      (seenHash library.sign (opKey unsealed.sender unsealed.verified.header.opId))
    simp only [Client.hasSeen] at isNew seen
    rw [seen, isNew] at unchanged
    cases unchanged
  · intro onTime error later failed notDuplicate key
    rcases passes_or_marked library failed with seen | ⟨read, unsealed, middle, passes⟩
    · rw [seen]
    · obtain ⟨same, run⟩ := exec_of_passes library seq passes
      obtain ⟨seen, known⟩ := Prod.mk.inj same
      have failed : exec _ middle = (.error error, later) := run.symm.trans failed
      cases isNew : client.hasSeen library
          (opKey unsealed.sender unsealed.verified.header.opId) with
      | true =>
          rw [Client.hasSeen, ← seen] at isNew
          rw [exec_bind, exec_insertOnce_of_seen library isNew] at failed
          cases failed
          exact absurd rfl notDuplicate
      | false =>
          cases late : lateRefusal library client read.sender read.device.cert.deviceId unsealed with
          | none =>
              rw [Client.hasSeen, ← seen] at isNew
              obtain ⟨marked, inserted, added, kept⟩ := exec_insertOnce_of_new library isNew
              obtain ⟨events, final, done⟩ :=
                afterMark_of_none library seq (kept.trans known) late
              rw [exec_bind, inserted] at failed
              cases done.symm.trans failed
          | some refusal =>
              obtain ⟨final, refused, -⟩ := exec_mark_of_late library seq same isNew late
              cases refused.symm.trans failed
              refine absurd ⟨read, unsealed, middle, refusal, passes, isNew, late, ?_⟩ onTime
              rintro rfl
              exact notDuplicate rfl

theorem total_takeGroup (seq : UInt64) (read : GroupRead) : Total (takeGroup seq read) := by
  refine total_bind (total_modify _) fun _ => ?_
  split <;> exact total_pure _

theorem exec_markGroup_of_new {client : Client} {read : GroupRead}
    (isNew : isNewInGroup library client read = true) :
    ∃ later, exec (markGroup library read) client = (.ok (), later) ∧
      later.known = client.known ∧
      later.hasSeen library (megolmKey read.sessionId read.index) = true := by
  rw [isNewInGroup, Bool.and_eq_true, Bool.not_eq_true', Bool.not_eq_true'] at isNew
  obtain ⟨middle, first, added, kept⟩ := exec_insertOnce_of_new library isNew.1
  have opNew : middle.hasSeen library (opKey read.opened.sender read.opened.header.opId) =
      false := by
    rw [Client.hasSeen, added]
    exact isNew.2
  obtain ⟨later, second, addedToo, keptToo⟩ := exec_insertOnce_of_new library opNew
  refine ⟨later, ?_, keptToo.trans kept, ?_⟩
  · rw [markGroup, exec_bind, first]
    exact second
  · rw [Client.hasSeen, addedToo, added]
    exact client.seen.contains_insert_insert (by decide) _ _

theorem exec_markGroup_of_seen {client : Client} {read : GroupRead}
    (seen : isNewInGroup library client read = false) :
    ∃ later, exec (markGroup library read) client = (.error (.proto .duplicate), later) := by
  cases first : client.hasSeen library (megolmKey read.sessionId read.index) with
  | true => exact ⟨client, by rw [markGroup, exec_bind, exec_insertOnce_of_seen library first]⟩
  | false =>
      obtain ⟨middle, marked, added, -⟩ := exec_insertOnce_of_new library first
      refine ⟨middle, ?_⟩
      have opSeen : middle.hasSeen library (opKey read.opened.sender read.opened.header.opId) =
          true := by
        rw [Client.hasSeen, added]
        simpa [isNewInGroup, first] using seen
      rw [markGroup, exec_bind, marked]
      exact exec_insertOnce_of_seen library opSeen

/-- For group envelopes. -/
theorem group_keeps_marks_iff (client : Client) (seq : UInt64) (env : GroupEnvelope) :
    RefusalKeepsMarks library client (.group seq env) ↔
      ¬ RefusedLate library client (.group seq env) := by
  constructor
  · rintro keeps ⟨read, middle, checked, isNew, stranger⟩
    have kept := keeps_readGroup library env client
    rw [checked] at kept
    obtain ⟨seen, known⟩ := Prod.mk.inj kept
    have newInMiddle : isNewInGroup library middle read = true := by
      rw [← isNew, isNewInGroup, isNewInGroup, Client.hasSeen, Client.hasSeen, seen]
    obtain ⟨later, marked, same, hasSeen⟩ := exec_markGroup_of_new library newInMiddle
    have refused : exec (openGroup library seq env) client =
        (.error (.proto .badCertificate), later) := by
      have stranger : authorOwnsSession later read = false := by
        rw [authorOwnsSession_congr (same.trans known), stranger]
      simp [openGroup, checked, marked, stranger, require, liftProto]
    have unchanged := keeps _ _ refused (by simp)
      (seenHash library.sign (megolmKey read.sessionId read.index))
    rw [isNewInGroup, Bool.and_eq_true, Bool.not_eq_true', Client.hasSeen] at isNew
    rw [Client.hasSeen] at hasSeen
    rw [hasSeen, isNew.1] at unchanged
    cases unchanged
  · intro onTime error later failed notDuplicate key
    rw [openIncoming, openGroup] at failed
    rcases exec_bind_eq_error.1 failed with early | ⟨read, middle, checked, failed⟩
    · have kept := keeps_readGroup library env client
      rw [early] at kept
      have seen : later.seen = client.seen := congrArg Prod.fst kept
      rw [seen]
    · have kept := keeps_readGroup library env client
      rw [checked] at kept
      obtain ⟨seen, known⟩ := Prod.mk.inj kept
      cases isNew : isNewInGroup library middle read with
      | false =>
          obtain ⟨marked, duplicate⟩ := exec_markGroup_of_seen library isNew
          rw [exec_bind, duplicate] at failed
          cases failed
          exact absurd rfl notDuplicate
      | true =>
          obtain ⟨marked, done, same, -⟩ := exec_markGroup_of_new library isNew
          have own : authorOwnsSession marked read = true := by
            rw [authorOwnsSession_congr (same.trans known)]
            refine Bool.of_not_eq_false fun stranger => onTime ⟨read, middle, checked, ?_, stranger⟩
            rw [← isNew, isNewInGroup, isNewInGroup, Client.hasSeen, Client.hasSeen, seen]
          obtain ⟨events, final, taken⟩ := total_takeGroup seq read marked
          simp [done, own, require, liftProto, taken] at failed

/-- A refused envelope leaves the marks as they were exactly if it is not refused after its
mark. -/
theorem refusal_keeps_marks_iff (client : Client) (incoming : Incoming) :
    RefusalKeepsMarks library client incoming ↔ ¬ RefusedLate library client incoming := by
  cases incoming with
  | sealed seq env callOnly => exact sealed_keeps_marks_iff library client seq env callOnly
  | group seq env => exact group_keeps_marks_iff library client seq env

end

/-! ## A sample -/

/-- The user with the given number. -/
def sampleUser (number : UInt8) : String :=
  if number = 1 then "a@x.org" else if number = 2 then "b@x.org" else "c@x.org"

/-- The certificate of the device "d" of a user. -/
def sampleCert (number : UInt8) : DeviceCertificate where
  user := some ⟨sampleUser number⟩
  deviceId := "d"
  olmCurve25519 := sampleKey number
  olmEd25519 := sampleKey number
  hpkeX25519 := sampleKey number
  features := []
  serial := 1
  possessionSignature := List.replicate 64 0

def sampleSigned (number : UInt8) : SignedDeviceCertificate :=
  ⟨[number], List.replicate 64 0, sampleKey number, List.replicate 64 0, sampleKey number⟩

/-- The key that consists of one byte. -/
def sampleHashOf (byte : UInt8) : Hash :=
  sampleHash (sampleKey byte)

/-- The log of a user with this device. -/
def sampleLog (number : UInt8) : DeviceLog where
  user := sampleUser number
  version := 2
  rootKey := sampleHashOf number
  ssk := sampleHashOf number
  devices := (∅ : Std.ExtTreeMap String VerifiedDevice).insert "d"
    ⟨sampleCert number, sampleHashOf number, sampleHashOf number⟩

/-- A message of the third user to the group. -/
def burnOp : SignedOp := ⟨[255], List.replicate 64 0, sampleKey 3⟩

/-- Nothing is encrypted; every group message holds that message. -/
def burnLibrary : Library :=
  { rolesLibrary with
    decodeOpBody := fun body =>
      if body = burnOp.body then .ok
        { header := some
            { domain := msgDomain, opType := contentOp, opId := List.replicate 16 112
              target := some sampleGroup, audience := [], tsMs := 0 }
          payload := [] }
      else rolesLibrary.decodeOpBody body
    decodeDeviceCertificate := fun bytes => .ok (sampleCert (bytes.getD 0 0))
    hpkeKeys := fun _ _ => .ok ()
    hpkeOpen := fun _ _ _ ciphertext => .ok ciphertext
    aeadOpen := fun _ _ _ ciphertext => .ok ciphertext
    hkdf := fun secret _ => secret
    publicKey := id
    prekeySenderIdentity := fun _ => .error .crypto
    matchesPrekey := fun _ _ => false
    olmDecrypt := fun session _ bytes => (.ok bytes, session)
    olmInbound := fun acc _ _ => (.error .crypto, acc)
    megolmOfKey := fun bytes => .ok bytes
    megolmImport := fun bytes => .ok bytes
    megolmId := id
    megolmDecrypt := fun session bytes => (.ok (bytes, 0), session)
    decodeSealedInner := fun _ => .error .malformed
    decodeSignedOp := fun _ => .error .malformed
    decodeMsgHeader := fun _ =>
      ⟨some (.group ⟨some sampleGroup, 1, 4, rolesState.headHash.bytes⟩), [], 0⟩
    decodeContent := fun _ => .ok ⟨some (.text false)⟩
    decodeCallSignal := fun _ => .error .malformed
    decodeGroupEnvelopeInner := fun bytes => .ok ⟨bytes, bytes, [], []⟩
    decodeGroupPlaintext := fun _ => .ok ⟨some (sampleSigned 3), some burnOp⟩
    sanitizeContent := id
    contentFieldKnown := fun _ => true
    clock := fun _ => 0 }

def samplePeer (number : UInt8) : Peer := { log := some (sampleLog number) }

/-- The first user knows the others, and the session of each in the group. -/
def burnClient : Client :=
  { Client.fresh "a@x.org" "e" "x.org" [] zeroKey zeroKey zeroKey with
    peers := ((∅ : Std.ExtTreeMap String Peer).insert "b@x.org" (samplePeer 2)).insert "c@x.org"
      (samplePeer 3)
    groups := (∅ : Std.ExtTreeMap Bytes GroupLocal).insert sampleGroup.id
      { entries := [], state := some rolesState }
    epochKeys := (∅ : Std.ExtTreeMap EpochRef EpochKeys).insert ⟨sampleGroup.id, 1⟩ ⟨zeroKey, none⟩
    megolmIn := ((∅ : Std.ExtTreeMap Bytes Inbound).insert [2]
      ⟨sampleGroup.id, 1, "b@x.org", []⟩).insert [3] ⟨sampleGroup.id, 1, "c@x.org", []⟩ }

/-- The message in the session of the user with the given number. -/
def burnEnvelope (number : UInt8) : GroupEnvelope :=
  ⟨some sampleGroup, 1, [number], List.replicate 16 0, []⟩

/-- What is left after the second user sent the message of the third one. -/
def burntClient : Client :=
  (exec (openGroup burnLibrary 0 (burnEnvelope 2)) burnClient).2

theorem eq_of_errorOf {result : Except ε α} {error : ε} (refused : errorOf result = some error) :
    result = .error error := by
  cases result with
  | error other =>
      cases refused
      rfl
  | ok value => cases refused

/-- The message is refused in the session of another user, and then in its own one too. -/
theorem stolen_message_burns :
    ¬ RefusalKeepsMarks burnLibrary burnClient (.group 0 (burnEnvelope 2)) ∧
      errorOf (exec (openGroup burnLibrary 1 (burnEnvelope 3)) burnClient).1 = none ∧
      errorOf (exec (openGroup burnLibrary 1 (burnEnvelope 3)) burntClient).1 =
        some (.proto .duplicate) := by
  refine ⟨fun keeps => ?_, by decide +kernel, by decide +kernel⟩
  have refused : errorOf (exec (openGroup burnLibrary 0 (burnEnvelope 2)) burnClient).1 =
      some (.proto .badCertificate) := by
    decide +kernel
  have failed : exec (openGroup burnLibrary 0 (burnEnvelope 2)) burnClient =
      (.error (.proto .badCertificate), burntClient) := by
    rw [burntClient, ← eq_of_errorOf refused]
  have changed : ∃ key ∈ burntClient.seen.order, burnClient.seen.contains key = false := by
    decide +kernel
  obtain ⟨key, marked, unmarked⟩ := changed
  have same := keeps _ _ failed (by simp) key
  rw [unmarked, ReplayGuard.contains, List.contains_iff_mem.2 marked] at same
  cases same

end Parvane.Engine
