import Parvane.Engine.Conserving

/-!
# Deliveries

A message to another user may need two deliveries: one for the own delivery key, and one for
the content.  Each takes a token.  When the second one or the copies for the own devices fail,
nothing puts back what the first one took.
-/

namespace Parvane.Engine

open Wire Sign Identity Parvane.Group Fallible

/-! ## When sending succeeds -/

section

variable {library : SendingLibrary} {encrypts : OlmSession -> Bool} {usable : Hash -> Bool}
variable {client state : Client} {peer : String}

/-- A content under an identifier that is none is not sealed. -/
theorem sealForOpts_invalid
    (library : SendingLibrary) (client : Client) {opts : SealOpts}
    (invalid : isValidOpId opts.opId = false) (user : String) (devices : List String)
    (chat : String) (content : Content) (access : Access) :
    ∃ error, exec (sealForOpts library user devices chat content access opts) client =
      (.error error, client) := by
  rw [sealForOpts, exec_get_bind]
  cases client.peerLog user with
  | none => exact ⟨_, rfl⟩
  | some log =>
      rw [exec_bind, exec_liftM]
      cases client.myCert with
      | none => exact ⟨_, rfl⟩
      | some cert =>
          have refused : signDirectAt library client content chat
              (devices.map fun device => (⟨user, device⟩ : DeviceRef)) opts.tsMs opts.opId =
                .error (.invalidField "op_id") := by
            rw [signDirectAt, invalid]
            rfl
          refine ⟨.proto (.invalidField "op_id"), ?_⟩
          dsimp only [liftProto, present]
          rw [exec_bind, exec_liftM]
          dsimp only
          rw [exec_bind, exec_liftM, refused]

theorem isFree_eq_false :
    isFree client peer = false ↔ peer ≠ client.user ∧ client.hasDeliveryKey peer = false := by
  rw [isFree, Bool.or_eq_false_iff, beq_eq_false_iff_ne]

theorem isSome_payment (unknown : client.hasDeliveryKey peer = false) :
    (payment library client peer client.purse).isSome = (nextToken library client peer).isSome := by
  rw [payment, unknown, if_neg Bool.false_ne_true, nextToken, Option.isSome_bind,
    Option.isSome_bind]
  change (stockFor client peer).any _ = _
  congr 1
  funext stock
  rw [Option.isSome_map]
  rfl

theorem readings_payment {purse rest : Purse}
    (unknown : client.hasDeliveryKey peer = false)
    (paid : payment library client peer purse = some rest) :
    rest.readings = purse.readings + 1 := by
  rw [payment, unknown, if_neg Bool.false_ne_true] at paid
  obtain ⟨stock, -, paid⟩ := Option.bind_eq_some_iff.1 paid
  obtain ⟨token, -, rfl⟩ := Option.map_eq_some_iff.1 paid
  unfold setStock
  split <;> rfl

/-- A content that costs a token is sent if there is one and the content can be sealed. -/
theorem settles_paid
    (reliable : Reliable library encrypts usable) (paid : isFree client peer = false)
    {devices : List String}
    (inhabited : devices ≠ [])
    (reachable : ∀ log, client.peerLog peer = some log -> ∀ device ∈ devices,
      isReachable client log ⟨peer, device⟩ = true)
    (opId : Option Bytes) (tsMs : Int64) (l2 : Bool) (content : Content) :
    Settles (sendContent library peer devices opId tsMs l2 content) client
      ((nextToken library client peer).isSome = true ∧
        CanSeal encrypts usable client peer devices ∧ ∀ id ∈ opId, isValidOpId id = true)
      fun requests later =>
        Alike encrypts client later ∧ client.readings < later.readings ∧
        (payment library client peer client.purse).map
          (Purse.draw ((if opId.isNone then 1 else 0) + reachCount client peer devices)) =
            some later.purse ∧
        ∃ token, Takes (library.clock client.readings) (issuerOf client peer) client token later ∧
          requests.flatMap OutRequest.tokens = [token] := by
  obtain ⟨other, unknown⟩ := isFree_eq_false.1 paid
  by_cases valid : ∀ id ∈ opId, isValidOpId id = true
  · have settles := settles_sendContent reliable other inhabited reachable valid tsMs l2 content
    rw [isSome_payment unknown] at settles
    refine ⟨fun passes => ?_, fun refused => settles.2 fun passes => refused ?_⟩
    · obtain ⟨requests, later, sent, alike, -, purse, envelopes, inside, -⟩ :=
        settles.1 ⟨passes.1, passes.2.1⟩
      refine ⟨requests, later, sent, alike, ?_, purse, ?_⟩
      · obtain ⟨rest, spent, drawn⟩ := Option.map_eq_some_iff.1 purse
        have readings := readings_payment unknown spent
        have drawnReadings := congrArg Purse.readings drawn
        simp only [Purse.draw, Client.purse] at readings drawnReadings
        omega
      · obtain ⟨token, next⟩ := Option.isSome_iff_exists.1 passes.1
        obtain ⟨middle, takes, ⟨requests', tokens, ended⟩ | ⟨result, none, ended⟩⟩ :=
          sendContent_paid devices opId tsMs l2 content paid next
        · cases sent.symm.trans ended
          exact ⟨token, takes, tokens⟩
        · have empty := none requests (congrArg Prod.fst (ended.symm.trans sent))
          rw [empty] at inside
          cases inside
    · exact ⟨passes.1, passes.2, valid⟩
  · refine ⟨fun passes => absurd passes.2.2 valid, fun _ => ?_⟩
    cases opId with
    | none => exact (valid (by simp)).elim
    | some id =>
        have invalid : isValidOpId id = false := by simpa using valid
        rw [sendContent_some, exec_bind]
        rcases exec (accessFor library peer) client with ⟨error | access, middle⟩
        · exact ⟨error, middle, rfl⟩
        · obtain ⟨error, refused⟩ := @sealForOpts_invalid library middle ⟨id, tsMs, l2⟩ invalid
            peer devices peer content access
          refine ⟨error, returnAccess access middle, ?_⟩
          dsimp only
          rw [sealOrReturn, exec_attempt_bind, refused]
          rfl

end

/-! ## A message in parts -/

section

variable (library : SendingLibrary) (peer : String) (content : Content)

/-- What follows the deliveries to the user. -/
def finishDirect (opts : SealOpts) (shares : Bool) (sent : List OutRequest) :
    Act (List OutRequest) := do
  if shares then modify fun client => { client with dk := client.dk.markShared peer }
  let copies ← copyToOwn library peer content opts
  return sent ++ copies

/-- The deliveries of a message, with that of the own delivery key if it is shared. -/
def sendDirect (opts : SealOpts) (devices : List String) (share : Option Content) :
    Act (List OutRequest) :=
  match share with
  | some key => do
      let keys ← sendContent library peer devices none opts.tsMs opts.l2 key
      let sent ← sendContent library peer devices (some opts.opId) opts.tsMs opts.l2 content
      finishDirect library peer content opts true (keys ++ sent)
  | none => do
      let sent ← sendContent library peer devices (some opts.opId) opts.tsMs opts.l2 content
      finishDirect library peer content opts false sent

/-- The own delivery key is sent before the content. -/
def sharesKey (client : Client) (peer : String) (shareDk : Bool) : Bool :=
  shareDk && peer != client.user && client.dk.needsShare peer

/-- How a message is sealed. -/
def sealOptsOf (client : Client) (peer : String) (content : Content) (opts : DirectOpts) :
    SealOpts :=
  ⟨opts.opId, opts.tsMs, opts.forceL2 || content.isChatMode || client.directMustPad peer⟩

theorem prepareDirectOpts_eq (opts : DirectOpts) :
    prepareDirectOpts library peer content opts = (do
      let client ← get
      checkPeer client peer
      checkPeer client client.user
      demand (peer == client.user || !(client.devicesOf peer).isEmpty)
        (.peerLog peer (((client.peerLog peer).map DeviceLog.version).getD 0))
      (client.devicesOf peer).forM (chooseSealed peer (client.peerLog peer))
      sendDirect library peer content (sealOptsOf client peer content opts)
        (client.devicesOf peer)
        (if sharesKey client peer opts.shareDk then some client.deliveryKeyContent else none)) := by
  unfold prepareDirectOpts
  apply bind_congr
  intro client
  apply bind_congr
  intro _
  apply bind_congr
  intro _
  apply bind_congr
  intro _
  apply bind_congr
  intro _
  rw [sharesKey]
  dsimp only
  cases opts.shareDk && peer != client.user && client.dk.needsShare peer <;> rfl

end

/-! ## After the deliveries -/

/-- The own devices get copies, unless there are none or the content is a delivery key. -/
def CopiesFit (encrypts : OlmSession -> Bool) (usable : Hash -> Bool) (client : Client)
    (content : Content) : Prop :=
  client.otherDevices = [] ∨ content.isDeliveryKey = true ∨
    CanSeal encrypts usable client client.user client.otherDevices

section

variable {library : SendingLibrary} {encrypts : OlmSession -> Bool} {usable : Hash -> Bool}
variable {client : Client} {peer : String} {content : Content} {opts : SealOpts}

theorem yields_copyToOwn :
    Yields (fun copies => copies.flatMap OutRequest.tokens = [])
      (copyToOwn library peer content opts) := by
  refine yields_bind_any fun client => ?_
  dsimp only
  split
  · exact yields_bind (yields_sealForOpts _ _ _ _ _ _) fun envelopes free =>
      yields_pure (tokens_deliver_key free)
  · exact yields_pure rfl

theorem settles_copyToOwn
    (reliable : Reliable library encrypts usable) (other : peer ≠ client.user)
    (valid : isValidOpId opts.opId = true) :
    Settles (copyToOwn library peer content opts) client
      (CopiesFit encrypts usable client content) fun copies later =>
        SameStocks client later ∧ client.readings ≤ later.readings ∧
          copies.flatMap OutRequest.tokens = [] := by
  have settles : Settles (copyToOwn library peer content opts) client
      (CopiesFit encrypts usable client content) fun _ later =>
        client.readings ≤ later.readings := by
    unfold copyToOwn CopiesFit
    refine settles_get_bind ?_
    dsimp only
    split
    · next needed =>
        simp only [Bool.and_eq_true, Bool.not_eq_true', List.isEmpty_eq_false_iff] at needed
        refine Settles.mono (settles_bind (settles_sealForOpts reliable _ _ _ _ _ valid client)
          fun _ _ later sealed => settles_pure (?_ : client.readings ≤ later.readings))
          ?_ fun _ _ _ => id
        · rw [sealed.1.same]
          exact Nat.le_add_right _ _
        · simp [needed]
    · next unneeded =>
        have nothing : Settles (pure [] : Act (List OutRequest)) client True fun _ later =>
            client.readings ≤ later.readings := settles_pure (Nat.le_refl _)
        refine nothing.mono (iff_of_true ?_ trivial) fun _ _ _ => id
        by_contra fits
        simp only [not_or] at fits
        apply unneeded
        simp [fits.1, fits.2.1, other]
  refine settles.ran.mono Iff.rfl fun _ copies later ended => ⟨?_, ended.1, ?_⟩
  · have same := SameStocks.of_exec (copyToOwn library peer content opts)
      (fun sealFree => sealFree.keeps_copyToOwn _ _ _) client
    rwa [ended.2] at same
  · exact yields_copyToOwn client copies later ended.2

theorem sameStocks_dk (client : Client) (dk : OwnDeliveryKey) :
    SameStocks client { client with dk := dk } :=
  ⟨fun issuer => by cases issuer <;> rfl, fun _ => rfl, fun _ => rfl⟩

theorem sameStocks_finishDirect (shares : Bool) (sent : List OutRequest) :
    SameStocks client (exec (finishDirect library peer content opts shares sent) client).2 := by
  have copied (state : Client) :
      SameStocks state (exec (do
        let copies ← copyToOwn library peer content opts
        return sent ++ copies : Act (List OutRequest)) state).2 :=
    .of_exec _ (fun sealFree => keeps_bind (sealFree.keeps_copyToOwn _ _ _) fun _ => keeps_pure _)
      state
  cases shares with
  | false => exact copied client
  | true =>
      exact (sameStocks_dk client _).trans (copied _)

theorem settles_finishDirect
    (reliable : Reliable library encrypts usable) (other : peer ≠ client.user)
    (valid : isValidOpId opts.opId = true) (shares : Bool) (sent : List OutRequest) :
    Settles (finishDirect library peer content opts shares sent) client
      (CopiesFit encrypts usable client content) fun requests later =>
        SameStocks client later ∧ client.readings ≤ later.readings ∧
          ∃ copies, requests = sent ++ copies ∧ copies.flatMap OutRequest.tokens = [] := by
  have copied (state : Client) (apart : peer ≠ state.user) :
      Settles (do
        let copies ← copyToOwn library peer content opts
        return sent ++ copies : Act (List OutRequest)) state
        (CopiesFit encrypts usable state content) fun requests later =>
          SameStocks state later ∧ state.readings ≤ later.readings ∧
            ∃ copies, requests = sent ++ copies ∧ copies.flatMap OutRequest.tokens = [] := by
    refine (settles_bind (settles_copyToOwn reliable apart valid) fun _ copies later ended =>
      settles_pure ?_).mono (and_true _).symm.to_iff fun _ _ _ => id
    exact ⟨ended.1, ended.2.1, copies, rfl, ended.2.2⟩
  cases shares with
  | false => exact copied client other
  | true =>
      refine (copied { client with dk := client.dk.markShared peer } other).mono Iff.rfl ?_
      rintro - requests later ⟨same, read, found⟩
      exact ⟨(sameStocks_dk client _).trans same, read, found⟩

end

/-! ## The first delivery -/

/-- A content can be sealed for the devices of a user, under an identifier if one is given. -/
def ContentFits (encrypts : OlmSession -> Bool) (usable : Hash -> Bool) (client : Client)
    (peer : String) (opId : Option Bytes) : Prop :=
  CanSeal encrypts usable client peer (client.devicesOf peer) ∧
    ∀ id ∈ opId, isValidOpId id = true

/-- A token that is put back comes into the stock from which it was taken, and does not expire
there at once. -/
def ComesBack (library : SendingLibrary) (client : Client) (peer : String) (token : AnonToken) :
    Prop :=
  homeOf client token = issuerOf client peer ∧
    isUnexpired (library.clock client.readings) (restocked client token).validUntilMs = true

/-- There is a session with each of the devices of a user, all of which are active. -/
structure Reached (client : Client) (peer : String) : Prop where
  inhabited : client.devicesOf peer ≠ []
  reachable : ∀ log, client.peerLog peer = some log -> ∀ device ∈ client.devicesOf peer,
    isReachable client log ⟨peer, device⟩ = true

section

variable {library : SendingLibrary} {encrypts : OlmSession -> Bool} {usable : Hash -> Bool}
variable {client : Client} {peer : String} {content : Content}

theorem length_sendContent
    (library : SendingLibrary) (content : Content) (paid : isFree client peer = false)
    (devices : List String) (opId : Option Bytes) (tsMs : Int64) (l2 : Bool) :
    ((exec (sendContent library peer devices opId tsMs l2 content) client).2.stockOf
      (issuerOf client peer)).length ≤ (client.stockOf (issuerOf client peer)).length := by
  have pruned : (prune (library.clock client.readings)
      (client.stockOf (issuerOf client peer))).length ≤
        (client.stockOf (issuerOf client peer)).length := List.length_filter_le _ _
  cases next : nextToken library client peer with
  | none =>
      obtain ⟨error, later, failed, stocks⟩ :=
        sendContent_unpaid devices opId tsMs l2 content paid next
      rw [failed]
      dsimp only
      rw [stocks, if_pos rfl]
      exact pruned
  | some token =>
      obtain ⟨middle, takes, outcome⟩ := sendContent_paid devices opId tsMs l2 content paid next
      obtain ⟨first, -, taken⟩ := takes.taken
      have counts := taken.length_eq
      rw [List.length_cons] at counts
      obtain ⟨requests, -, sent⟩ | ⟨result, -, ended⟩ := outcome
      · rw [sent]
        dsimp only
        omega
      · rw [ended]
        dsimp only
        rw [stockOf_returnAccess, List.length_append]
        split
        · rw [List.length_singleton]
          omega
        · rw [List.length_nil]
          omega

/-- Once the first delivery was built, what follows must not fail. -/
theorem conserves_bind_iff
    (reliable : Reliable library encrypts usable) (paid : isFree client peer = false)
    (reached : Reached client peer) (opId : Option Bytes) (tsMs : Int64) (l2 : Bool)
    {rest : List OutRequest -> Act (List OutRequest)}
    {passes : Prop}
    (settles : ContentFits encrypts usable client peer opId ->
      ∀ keys middle, Alike encrypts client middle ->
      (payment library client peer client.purse).map (Purse.draw
        ((if opId.isNone then 1 else 0) + reachCount client peer (client.devicesOf peer))) =
          some middle.purse ->
      client.readings < middle.readings ->
      Settles (rest keys) middle passes fun requests later =>
        middle.readings ≤ later.readings ∧ ∃ more, requests = keys ++ more ∧
          Spends library client.readings (issuerOf client peer) middle more later)
    (shrinks : ∀ keys middle, Alike encrypts client middle ->
      ((exec (rest keys) middle).2.stockOf (issuerOf client peer)).length ≤
        (middle.stockOf (issuerOf client peer)).length) :
    Conserves library client.readings (issuerOf client peer)
      (sendContent library peer (client.devicesOf peer) opId tsMs l2 content >>= rest) client ↔
    ∀ token, nextToken library client peer = some token ->
      (ContentFits encrypts usable client peer opId -> passes) ∧
      (¬ ContentFits encrypts usable client peer opId ->
        ComesBack library client peer token) := by
  have first := settles_paid reliable paid reached.inhabited reached.reachable opId tsMs l2
    content
  cases next : nextToken library client peer with
  | none =>
      refine iff_of_true ?_ nofun
      obtain ⟨error, later, failed, stocks⟩ :=
        sendContent_unpaid (client.devicesOf peer) opId tsMs l2 content paid next
      have whole : exec (sendContent library peer (client.devicesOf peer) opId tsMs l2 content >>=
          rest) client = (.error error, later) := by
        rw [exec_bind, failed]
      refine ⟨fun _ _ ended issuer => ?_, fun _ _ ended => nomatch whole.symm.trans ended⟩
      cases whole.symm.trans ended
      rw [stocks]
      split
      · exact unexpired_prune _ _
      · rfl
  | some token =>
      rw [next] at first
      simp only [Option.some.injEq, forall_eq']
      by_cases fits : ContentFits encrypts usable client peer opId
      · obtain ⟨keys, middle, sent, alike, read, purse, other, takes, tokens⟩ :=
          first.1 ⟨rfl, fits⟩
        have rests := settles fits keys middle alike purse read
        have whole : exec (sendContent library peer (client.devicesOf peer) opId tsMs l2
            content >>= rest) client = exec (rest keys) middle := by
          rw [exec_bind, sent]
        constructor
        · refine fun conserves => ⟨fun _ => ?_, fun misfits => absurd fits misfits⟩
          by_contra refused
          obtain ⟨error, later, failed⟩ := rests.2 refused
          have short := shrinks keys middle alike
          rw [failed] at short
          exact takes.unexpired_ne short (conserves.failed error later (whole.trans failed) _)
        · rintro ⟨passed, -⟩
          obtain ⟨requests, later, ended, after, more, rfl, spends⟩ := rests.1 (passed fits)
          have through := whole.trans ended
          refine ⟨fun _ _ failed => (nomatch through.symm.trans failed), ?_⟩
          intro _ _ succeeded
          cases through.symm.trans succeeded
          exact (Spends.of_takes takes tokens (Nat.le_refl _) read).trans spends after
      · obtain ⟨error, later, failed⟩ := first.2 fun passes => fits passes.2
        have whole : exec (sendContent library peer (client.devicesOf peer) opId tsMs l2
            content >>= rest) client = (.error error, later) := by
          rw [exec_bind, failed]
        obtain ⟨middle, takes, ⟨requests, -, sent⟩ | ⟨result, -, ended⟩⟩ :=
          sendContent_paid (client.devicesOf peer) opId tsMs l2 content paid next
        · cases failed.symm.trans sent
        · cases failed.symm.trans ended
          rw [ComesBack, ← takes.putBack_iff]
          constructor
          · exact fun conserves => ⟨fun holds => absurd holds fits,
              fun _ => conserves.failed error _ whole⟩
          · rintro ⟨-, same⟩
            refine ⟨fun _ _ ended => ?_, fun _ _ ended => nomatch whole.symm.trans ended⟩
            cases whole.symm.trans ended
            exact same fits

/-! ## All deliveries -/

/-- A second token can be taken after the own delivery key was sent. -/
def SecondPaid (library : SendingLibrary) (client : Client) (peer : String) : Prop :=
  ((payment library client peer client.purse).bind fun purse =>
    payment library client peer
      (purse.draw (1 + reachCount client peer (client.devicesOf peer)))).isSome = true

/-- What follows the first delivery goes well. -/
def RestFits (library : SendingLibrary) (encrypts : OlmSession -> Bool) (usable : Hash -> Bool)
    (client : Client) (peer : String) (content : Content) (opId : Bytes) (shares : Bool) : Prop :=
  (shares = true -> SecondPaid library client peer ∧ isValidOpId opId = true) ∧
    CopiesFit encrypts usable client content

/-- The identifier of the first delivery, unless it is drawn. -/
def firstId (opId : Bytes) (shares : Bool) : Option Bytes :=
  if shares then none else some opId

/-- What follows the first delivery goes well, or the first delivery fails and the token comes
back. -/
def DeliveriesKeep (library : SendingLibrary) (encrypts : OlmSession -> Bool)
    (usable : Hash -> Bool) (client : Client) (peer : String) (content : Content) (opId : Bytes)
    (shares : Bool) : Prop :=
  ∀ token, nextToken library client peer = some token ->
    (ContentFits encrypts usable client peer (firstId opId shares) ->
      RestFits library encrypts usable client peer content opId shares) ∧
    (¬ ContentFits encrypts usable client peer (firstId opId shares) ->
      ComesBack library client peer token)

theorem Alike.copiesFit {middle : Client}
    (alike : Alike encrypts client middle) :
    CopiesFit encrypts usable middle content ↔ CopiesFit encrypts usable client content := by
  rw [CopiesFit, CopiesFit, alike.otherDevices, alike.user, alike.canSeal]

theorem Alike.isFree {middle : Client} (alike : Alike encrypts client middle) :
    isFree middle peer = isFree client peer := by
  rw [Engine.isFree, Engine.isFree, Client.hasDeliveryKey, Client.hasDeliveryKey, alike.user,
    alike.peers]

theorem Alike.issuerOf {middle : Client} (alike : Alike encrypts client middle) :
    issuerOf middle peer = issuerOf client peer := by
  rw [Engine.issuerOf, Engine.issuerOf, isHome, isHome, alike.domain]

theorem Alike.devicesOf {middle : Client} (alike : Alike encrypts client middle) :
    middle.devicesOf peer = client.devicesOf peer := by
  rw [Client.devicesOf, Client.devicesOf, alike.peerLog]

theorem Alike.reached {middle : Client} (alike : Alike encrypts client middle)
    (reached : Reached client peer) : Reached middle peer := by
  refine ⟨?_, fun log known device member => ?_⟩
  · rw [alike.devicesOf]
    exact reached.inhabited
  · rw [alike.peerLog] at known
    rw [alike.devicesOf] at member
    rw [alike.isReachable]
    exact reached.reachable log known device member

theorem Alike.secondPaid {middle : Client}
    (alike : Alike encrypts client middle) (purse : middle.purse = client.purse) :
    SecondPaid library middle peer ↔ SecondPaid library client peer := by
  simp only [SecondPaid, alike.payment, alike.reachCount, alike.devicesOf, purse]

/-- The content is delivered after the own delivery key. -/
theorem settles_second
    (reliable : Reliable library encrypts usable) (paid : isFree client peer = false)
    (reached : Reached client peer) (fits : ContentFits encrypts usable client peer none)
    (opts : SealOpts) (keys : List OutRequest) {middle : Client}
    (alike : Alike encrypts client middle)
    (purse : (payment library client peer client.purse).map
      (Purse.draw (1 + reachCount client peer (client.devicesOf peer))) = some middle.purse)
    (read : client.readings < middle.readings) :
    Settles (do
      let sent ← sendContent library peer (client.devicesOf peer) (some opts.opId) opts.tsMs
        opts.l2 content
      finishDirect library peer content opts true (keys ++ sent) : Act (List OutRequest)) middle
      (RestFits library encrypts usable client peer content opts.opId true)
      fun requests later => middle.readings ≤ later.readings ∧ ∃ more, requests = keys ++ more ∧
        Spends library client.readings (issuerOf client peer) middle more later := by
  have paidToo : isFree middle peer = false := alike.isFree.trans paid
  have other : peer ≠ middle.user := (isFree_eq_false.1 paidToo).1
  have reachedToo := alike.reached reached
  rw [← alike.devicesOf]
  have second : (nextToken library middle peer).isSome = true ↔
      SecondPaid library client peer := by
    rw [← isSome_payment (isFree_eq_false.1 paidToo).2, alike.payment, SecondPaid]
    obtain ⟨rest, spent, drawn⟩ := Option.map_eq_some_iff.1 purse
    rw [spent, Option.bind_some, ← drawn]
  refine Settles.mono (settles_bind (settles_paid reliable paidToo reachedToo.inhabited
    reachedToo.reachable (some opts.opId) opts.tsMs opts.l2 content)
    fun passed sent last ended => (settles_finishDirect reliable
      (ended.1.user ▸ other) (passed.2.2 _ rfl) true (keys ++ sent)).mono
        ended.1.copiesFit.symm fun _ requests later done => ?ended) ?passes fun _ _ _ => id
  case ended =>
    obtain ⟨-, readToo, -, token, takes, tokens⟩ := ended
    obtain ⟨same, after, copies, rfl, free⟩ := done
    rw [alike.issuerOf] at takes
    refine ⟨by omega, sent ++ copies, List.append_assoc _ _ _, ?_⟩
    exact (Spends.of_takes takes tokens (Nat.le_of_lt read) readToo).trans
      (Spends.of_same same free) after
  case passes =>
    rw [second, alike.copiesFit, alike.devicesOf, alike.canSeal]
    constructor
    · rintro ⟨follows, copies⟩
      refine ⟨⟨(follows rfl).1, fits.1, ?_⟩, copies⟩
      rintro _ ⟨⟩
      exact (follows rfl).2
    · rintro ⟨⟨paidAgain, -, valid⟩, copies⟩
      exact ⟨fun _ => ⟨paidAgain, valid _ rfl⟩, copies⟩

/-- The deliveries of a message lose no token exactly if what follows the first one goes well,
or the token of the first one comes back. -/
theorem conserves_sendDirect_iff
    (reliable : Reliable library encrypts usable) (paid : isFree client peer = false)
    (reached : Reached client peer) (opts : SealOpts) (share : Option Content) :
    Conserves library client.readings (issuerOf client peer)
      (sendDirect library peer content opts (client.devicesOf peer) share) client ↔
    DeliveriesKeep library encrypts usable client peer content opts.opId share.isSome := by
  cases share with
  | some key =>
      refine conserves_bind_iff reliable paid reached none opts.tsMs opts.l2 ?_ ?_
      · exact fun fits keys middle alike purse read =>
          settles_second reliable paid reached fits opts keys alike purse read
      · intro keys middle alike
        have paidToo : isFree middle peer = false := alike.isFree.trans paid
        have short := length_sendContent library content paidToo (client.devicesOf peer)
          (some opts.opId) opts.tsMs opts.l2
        rw [alike.issuerOf] at short
        rw [exec_bind]
        revert short
        rcases exec (sendContent library peer (client.devicesOf peer) (some opts.opId) opts.tsMs
          opts.l2 content) middle with ⟨error | sent, last⟩
        · exact id
        · intro short
          dsimp only at short ⊢
          rwa [(sameStocks_finishDirect true _).stockOf]
  | none =>
      refine conserves_bind_iff reliable paid reached (some opts.opId) opts.tsMs opts.l2 ?_ ?_
      · intro fits sent middle alike _ _
        have other : peer ≠ middle.user := alike.user ▸ (isFree_eq_false.1 paid).1
        refine (settles_finishDirect reliable other (fits.2 _ rfl) false sent).mono ?_ ?_
        · rw [alike.copiesFit]
          exact ⟨fun fits => fits.2, fun copies => ⟨nofun, copies⟩⟩
        · rintro - requests later ⟨same, after, copies, rfl, free⟩
          exact ⟨after, copies, rfl, Spends.of_same same free⟩
      · intro sent middle _
        rw [(sameStocks_finishDirect false sent).stockOf]

/-! ## Free deliveries -/

/-- Neither the action nor its requests use tokens. -/
structure Free (action : Act (List OutRequest)) (client : Client) : Prop where
  same : SameStocks client (exec action client).2
  tokens : ∀ requests later, exec action client = (.ok requests, later) ->
    requests.flatMap OutRequest.tokens = []

theorem Free.bind {first : Act (List OutRequest)}
    {next : List OutRequest -> Act (List OutRequest)}
    (free : Free first client)
    (rest : ∀ requests middle, exec first client = (.ok requests, middle) ->
      requests.flatMap OutRequest.tokens = [] -> Free (next requests) middle) :
    Free (first >>= next) client := by
  obtain ⟨same, tokens⟩ := free
  rcases ran : exec first client with ⟨error | requests, middle⟩
  · have whole : exec (first >>= next) client = (.error error, middle) := by
      rw [exec_bind, ran]
    rw [ran] at same
    exact ⟨by rwa [whole], fun _ _ ended => nomatch whole.symm.trans ended⟩
  · have whole : exec (first >>= next) client = exec (next requests) middle := by
      rw [exec_bind, ran]
    rw [ran] at same
    obtain ⟨sameToo, tokensToo⟩ := rest requests middle ran (tokens requests middle ran)
    exact ⟨by rw [whole]; exact same.trans sameToo, fun _ _ ended => tokensToo _ _
      (whole.symm.trans ended)⟩

theorem Free.conserves {action : Act (List OutRequest)}
    (free : Free action client) (start : Nat)
    (issuer : Option String) : Conserves library start issuer action client := by
  refine ⟨fun error later failed issuer => ?_, fun requests later ended => ?_⟩
  · have same := free.same
    rw [failed] at same
    rw [same.stockOf]
  · have same := free.same
    rw [ended] at same
    exact .of_same same (free.tokens requests later ended)

theorem free_finishDirect {opts : SealOpts}
    (shares : Bool) {sent : List OutRequest}
    (free : sent.flatMap OutRequest.tokens = []) :
    Free (finishDirect library peer content opts shares sent) client := by
  refine ⟨sameStocks_finishDirect shares sent, ?_⟩
  have copied : Yields (fun requests => requests.flatMap OutRequest.tokens = []) (do
      let copies ← copyToOwn library peer content opts
      return sent ++ copies : Act (List OutRequest)) :=
    yields_bind yields_copyToOwn fun copies none => yields_pure (by simp [free, none])
  cases shares with
  | false => exact copied client
  | true => exact copied { client with dk := client.dk.markShared peer }

theorem free_sendContent
    (free : isFree client peer = true) (devices : List String) (opId : Option Bytes) (tsMs : Int64)
    (l2 : Bool) : Free (sendContent library peer devices opId tsMs l2 content) client :=
  ⟨(sendContent_free devices opId tsMs l2 content free).1,
    (sendContent_free devices opId tsMs l2 content free).2⟩

theorem free_sendDirect
    (free : isFree client peer = true) (opts : SealOpts) (devices : List String)
    (share : Option Content) :
    Free (sendDirect library peer content opts devices share) client := by
  cases share with
  | none =>
      exact (free_sendContent free _ _ _ _).bind fun sent middle _ empty =>
        free_finishDirect false empty
  | some key =>
      refine (free_sendContent free _ _ _ _).bind fun keys middle ran empty => ?_
      have unsent : Unsent fun client => isFree client peer := fun _ _ _ _ _ _ _ => rfl
      have kept : isFree (exec (sendContent library peer devices none opts.tsMs opts.l2 key)
          client).2 peer = isFree client peer := unsent.keeps_sendContent _ _ _ _ _ _ client
      rw [ran] at kept
      refine (free_sendContent (kept.trans free) _ _ _ _).bind fun sent last _ emptyToo => ?_
      exact free_finishDirect true (by rw [List.flatMap_append, empty, emptyToo]; rfl)

end

end Parvane.Engine
