import Parvane.Engine.Tokens

/-!
# Tokens that are not lost

An action conserves the tokens of a client if a failure leaves them all in their stocks, and
after a success each one that is missing is in one of the requests.  A token is taken before the
envelopes of a delivery are sealed, and put back when sealing fails.
-/

namespace Parvane.Engine

open Wire Sign Identity Parvane.Group Fallible

/-! ## The tokens of a request -/

/-- The token of an envelope. -/
def SealedEnvelope.token (envelope : SealedEnvelope) : Option AnonToken :=
  match envelope.access with
  | some (.anonToken token) => some token
  | _ => none

/-- The tokens of a request.  The envelopes of a request share theirs. -/
def OutRequest.tokens : OutRequest -> List AnonToken
  | .deliverSealed envelopes => (envelopes.filterMap SealedEnvelope.token).dedup
  | _ => []

section

variable {library : SendingLibrary}

theorem yields_sealEnvelope (recipient : DeviceRef) (key : Hash) (access : Access)
    (inner : SealedInner) (l2 : Bool) :
    Yields (fun envelope => envelope.access = some access)
      (sealEnvelope library recipient key access inner l2) :=
  yields_bind_any fun _ => yields_bind_any fun _ => yields_bind_any fun _ => yields_pure rfl

theorem yields_sealTo (log : DeviceLog) (cert : SignedDeviceCertificate) (op : SignedOp)
    (access : Access) (l2 : Bool) (device : DeviceRef) :
    Yields (fun sent => ∀ envelope ∈ sent, envelope.access = some access)
      (sealTo library log cert op access l2 device) := by
  unfold sealTo
  split
  · exact yields_pure nofun
  · refine yields_bind_any fun _ => yields_bind_any fun _ => ?_
    split
    · exact yields_pure nofun
    · refine yields_bind_any fun _ =>
        yields_bind (yields_sealEnvelope _ _ access _ _) fun envelope paid => yields_pure ?_
      rintro _ ⟨⟩
      exact paid

/-- All envelopes carry the same right to deliver. -/
theorem yields_sealForOpts (user : String) (devices : List String) (chat : String)
    (content : Content) (access : Access) (opts : SealOpts) :
    Yields (fun envelopes => ∀ envelope ∈ envelopes, envelope.access = some access)
      (sealForOpts library user devices chat content access opts) := by
  refine yields_bind_any fun _ => yields_bind_any fun _ => yields_bind_any fun _ =>
    yields_bind_any fun _ =>
    yields_bind (yields_mapM (fun device => yields_sealTo _ _ _ access _ device) _)
      fun sent paid => yields_pure fun envelope inside => ?_
  exact paid _ (List.reduceOption_mem_iff.1 inside) envelope rfl

theorem tokens_deliver_key {key : Bytes} {envelopes : List SealedEnvelope}
    (free : ∀ envelope ∈ envelopes, envelope.access = some (.deliveryKey key)) :
    (deliver envelopes).flatMap OutRequest.tokens = [] := by
  have none : envelopes.filterMap SealedEnvelope.token = [] := by
    rw [List.filterMap_eq_nil_iff]
    intro envelope inside
    rw [SealedEnvelope.token, free envelope inside]
  unfold deliver
  split
  · rfl
  · rw [List.flatMap_singleton, OutRequest.tokens, none]
    rfl

theorem tokens_deliver_token {token : AnonToken} {envelopes : List SealedEnvelope}
    (paid : ∀ envelope ∈ envelopes, envelope.access = some (.anonToken token))
    (sent : deliver envelopes ≠ []) : (deliver envelopes).flatMap OutRequest.tokens = [token] := by
  have all : envelopes.filterMap SealedEnvelope.token =
      List.replicate envelopes.length token := by
    rw [← List.map_const', ← List.filterMap_eq_map]
    apply List.filterMap_congr
    intro envelope inside
    rw [SealedEnvelope.token, paid envelope inside]
    rfl
  unfold deliver at sent ⊢
  split
  · next empty => exact absurd (if_pos empty) sent
  · next some =>
      have positive : envelopes.length ≠ 0 := by simpa using some
      rw [List.flatMap_singleton, OutRequest.tokens, all, List.replicate_dedup positive]

end

/-! ## Sending one content -/

section

variable (library : SendingLibrary) (peer : String)

/-- The content is sealed and sent, or the token comes back. -/
theorem exec_sealOrReturn (devices : List String) (content : Content) (access : Access)
    (opts : SealOpts) (client : Client) :
    ∃ later, SameStocks client later ∧
      ((∃ envelopes, (∀ envelope ∈ envelopes, envelope.access = some access) ∧
        exec (sealOrReturn library peer devices content access opts) client =
          (.ok (deliver envelopes),
            if envelopes.isEmpty then returnAccess access later else later)) ∨
      ∃ error, exec (sealOrReturn library peer devices content access opts) client =
        (.error error, returnAccess access later)) := by
  have keeps := SameStocks.of_exec (sealForOpts library peer devices peer content access opts)
    (fun sealFree => sealFree.keeps_sealForOpts _ _ _ _ _ _) client
  rw [sealOrReturn, exec_attempt_bind]
  rcases ran : exec (sealForOpts library peer devices peer content access opts) client
    with ⟨error | envelopes, later⟩
  · rw [ran] at keeps
    exact ⟨later, keeps, .inr ⟨error, rfl⟩⟩
  · rw [ran] at keeps
    refine ⟨later, keeps, .inl ⟨envelopes, yields_sealForOpts _ _ _ _ _ _ client _ _ ran, ?_⟩⟩
    dsimp only
    cases envelopes.isEmpty <;> rfl

variable (devices : List String) (opId : Option Bytes) (tsMs : Int64) (l2 : Bool)
variable (content : Content)

/-- What is done after the delivery was paid for. -/
theorem exec_sendContent {access : Access} {client middle : Client}
    (ran : exec (accessFor library peer) client = (.ok access, middle)) :
    ∃ later, SameStocks middle later ∧
      ((∃ envelopes, (∀ envelope ∈ envelopes, envelope.access = some access) ∧
        exec (sendContent library peer devices opId tsMs l2 content) client =
          (.ok (deliver envelopes),
            if envelopes.isEmpty then returnAccess access later else later)) ∨
      ∃ error, exec (sendContent library peer devices opId tsMs l2 content) client =
        (.error error, returnAccess access later)) := by
  cases opId with
  | some id =>
      rw [sendContent_some, exec_bind, ran]
      exact exec_sealOrReturn library peer devices content access _ middle
  | none =>
      have drawn := SameStocks.of_exec (newOpId library)
        (fun sealFree => sealFree.keeps_newOpId) middle
      have drew : exec (newOpId library) middle = (.ok (library.drawOpId middle.readings),
        { middle with readings := middle.readings + 1 }) := rfl
      rw [drew] at drawn
      rw [sendContent_none, exec_bind, ran]
      dsimp only
      rw [exec_bind, drew]
      obtain ⟨later, same, outcome⟩ := exec_sealOrReturn library peer devices content access
        ⟨library.drawOpId middle.readings, tsMs, l2⟩
        { middle with readings := middle.readings + 1 }
      exact ⟨later, drawn.trans same, outcome⟩

variable {library peer} {client : Client}

/-- A free delivery does not touch the stocks. -/
theorem sendContent_free (free : isFree client peer = true) :
    SameStocks client (exec (sendContent library peer devices opId tsMs l2 content) client).2 ∧
      ∀ requests later,
        exec (sendContent library peer devices opId tsMs l2 content) client =
          (.ok requests, later) ->
        requests.flatMap OutRequest.tokens = [] := by
  obtain ⟨key, ran⟩ := exec_accessFor_free library free
  obtain ⟨later, same, ⟨envelopes, paid, sent⟩ | ⟨error, failed⟩⟩ :=
    exec_sendContent library peer devices opId tsMs l2 content ran
  · rw [returnAccess_key, ite_self] at sent
    rw [sent]
    refine ⟨same, fun requests last ended => ?_⟩
    cases congrArg Prod.fst ended
    exact tokens_deliver_key paid
  · rw [returnAccess_key] at failed
    rw [failed]
    exact ⟨same, fun requests last ended => nomatch congrArg Prod.fst ended⟩

/-- A token that was taken is sent, or put back. -/
theorem sendContent_paid {token : AnonToken}
    (paid : isFree client peer = false) (next : nextToken library client peer = some token) :
    ∃ middle, Takes (library.clock client.readings) (issuerOf client peer) client token middle ∧
      ((∃ requests, requests.flatMap OutRequest.tokens = [token] ∧
        exec (sendContent library peer devices opId tsMs l2 content) client =
          (.ok requests, middle)) ∨
      ∃ result, (∀ requests, result = .ok requests -> requests = []) ∧
        exec (sendContent library peer devices opId tsMs l2 content) client =
          (result, returnAccess (.anonToken token) middle)) := by
  obtain ⟨other, first, same, ran, takes, -⟩ | ⟨none, -⟩ :=
    exec_accessFor_paid library paid
  · cases next.symm.trans same
    obtain ⟨later, kept, ⟨envelopes, carry, sent⟩ | ⟨error, failed⟩⟩ :=
      exec_sendContent library peer devices opId tsMs l2 content ran
    · refine ⟨later, takes.of_same kept, ?_⟩
      by_cases empty : envelopes.isEmpty = true
      · rw [if_pos empty] at sent
        refine .inr ⟨.ok (deliver envelopes), ?_, sent⟩
        rintro _ ⟨⟩
        exact if_pos empty
      · rw [if_neg empty] at sent
        refine .inl ⟨deliver envelopes, tokens_deliver_token carry ?_, sent⟩
        rw [deliver, if_neg empty]
        exact List.cons_ne_nil _ _
    · refine ⟨later, takes.of_same kept, .inr ⟨.error error, ?_, failed⟩⟩
      rintro _ ⟨⟩
  · cases next.symm.trans none

/-- Without a token nothing is sent. -/
theorem sendContent_unpaid
    (paid : isFree client peer = false) (none : nextToken library client peer = none) :
    ∃ error later,
      exec (sendContent library peer devices opId tsMs l2 content) client =
        (.error error, later) ∧
      ∀ issuer, later.stockOf issuer =
        if issuer = issuerOf client peer then
          prune (library.clock client.readings) (client.stockOf issuer)
        else client.stockOf issuer := by
  obtain ⟨token, -, some, -⟩ | ⟨-, error, later, ran, stocks⟩ :=
    exec_accessFor_paid library paid
  · cases none.symm.trans some
  · refine ⟨error, later, ?_, stocks⟩
    cases opId with
    | some id => rw [sendContent_some, exec_bind, ran]
    | none => rw [sendContent_none, exec_bind, ran]

end

/-! ## What conserving means -/

/-- What left the stock of a server went into the requests, each token into one of them, or
had expired when the stock was looked at.  The other stocks are as they were. -/
structure Spends
    (library : SendingLibrary) (start : Nat) (issuer : Option String) (client : Client)
    (requests : List OutRequest) (later : Client) : Prop where
  spent : ∃ spent expired,
    (client.stockOf issuer).Perm (spent ++ (expired ++ later.stockOf issuer)) ∧
    requests.flatMap OutRequest.tokens = spent.map Stocked.token ∧
    ∀ stocked ∈ expired, ∃ reading, start ≤ reading ∧ reading < later.readings ∧
      isUnexpired (library.clock reading) stocked.validUntilMs = false
  others : ∀ other, other ≠ issuer -> later.stockOf other = client.stockOf other

/-- A failure leaves the tokens of each server that have not expired.  After a success each
token that is missing is in one of the requests. -/
structure Conserves
    (library : SendingLibrary) (start : Nat) (issuer : Option String)
    (action : Act (List OutRequest))
    (client : Client) : Prop where
  failed : ∀ error later, exec action client = (.error error, later) ->
    ∀ issuer, unexpired (library.clock start) (later.stockOf issuer) =
      unexpired (library.clock start) (client.stockOf issuer)
  sent : ∀ requests later, exec action client = (.ok requests, later) ->
    Spends library start issuer client requests later

theorem conserves_of_error {library : SendingLibrary} {start : Nat} {issuer : Option String}
    {action : Act (List OutRequest)}
    {client later : Client} {error : ClientError}
    (ran : exec action client = (.error error, later)) :
    Conserves library start issuer action client ↔
      ∀ other, unexpired (library.clock start) (later.stockOf other) =
        unexpired (library.clock start) (client.stockOf other) := by
  refine ⟨fun conserves => conserves.failed error later ran, fun same => ⟨?_, ?_⟩⟩
  · intro _ _ failed
    cases ran.symm.trans failed
    exact same
  · exact fun _ _ sent => nomatch ran.symm.trans sent

theorem conserves_of_ok {library : SendingLibrary} {start : Nat} {issuer : Option String}
    {action : Act (List OutRequest)}
    {client later : Client} {requests : List OutRequest}
    (ran : exec action client = (.ok requests, later)) :
    Conserves library start issuer action client ↔
      Spends library start issuer client requests later := by
  refine ⟨fun conserves => conserves.sent requests later ran, fun spends => ⟨?_, ?_⟩⟩
  · exact fun _ _ failed => nomatch ran.symm.trans failed
  · intro _ _ sent
    cases ran.symm.trans sent
    exact spends

/-- Two runs that give the same, from the same stocks to the same stocks, conserve the tokens
alike. -/
theorem conserves_congr {library : SendingLibrary} {start : Nat} {issuer : Option String}
    {action other : Act (List OutRequest)}
    {client middle : Client} (before : SameStocks client middle)
    (given : (exec action client).1 = (exec other middle).1)
    (after : SameStocks (exec other middle).2 (exec action client).2)
    (readings : (exec action client).2.readings = (exec other middle).2.readings) :
    Conserves library start issuer action client ↔
      Conserves library start issuer other middle := by
  rcases ran : exec other middle with ⟨error | requests, later⟩
  · rw [ran] at given after
    have failed : exec action client = (.error error, (exec action client).2) :=
      Prod.ext given rfl
    rw [conserves_of_error failed, conserves_of_error ran]
    simp only [after.stockOf, before.stockOf]
  · rw [ran] at given after readings
    dsimp only at readings
    have succeeded : exec action client = (.ok requests, (exec action client).2) :=
      Prod.ext given rfl
    rw [conserves_of_ok succeeded, conserves_of_ok ran]
    constructor
    · rintro ⟨spent, others⟩
      simp only [after.stockOf, readings, ← before.stockOf] at spent others
      exact ⟨spent, others⟩
    · rintro ⟨spent, others⟩
      simp only [← after.stockOf, ← readings, before.stockOf] at spent others
      exact ⟨spent, others⟩

/-- Two actions that run alike conserve the tokens alike. -/
theorem conserves_of_exec_eq {library : SendingLibrary} {start : Nat} {issuer : Option String}
    {action other : Act (List OutRequest)}
    {client middle : Client} (ran : exec action client = exec other middle)
    (same : SameStocks client middle) :
    Conserves library start issuer action client ↔
      Conserves library start issuer other middle :=
  conserves_congr same (by rw [ran]) (by rw [ran]; exact .refl _) (by rw [ran])

namespace Spends

variable {library : SendingLibrary} {start : Nat} {issuer : Option String}
variable {client middle later : Client} {requests more : List OutRequest}

theorem of_same
    (same : SameStocks client later)
    (free : requests.flatMap OutRequest.tokens = []) :
    Spends library start issuer client requests later where
  spent := by
    refine ⟨[], [], ?_, free, nofun⟩
    rw [same.stockOf]
    rfl
  others other _ := same.stockOf other

theorem of_takes {token : AnonToken}
    (takes : Takes (library.clock client.readings) issuer client token later)
    (paid : requests.flatMap OutRequest.tokens = [token])
    (began : start ≤ client.readings) (read : client.readings < later.readings) :
    Spends library start issuer client requests later where
  spent := by
    obtain ⟨first, rfl, taken⟩ := takes.taken
    let good (stocked : Stocked) : Bool :=
      isUnexpired (library.clock client.readings) stocked.validUntilMs
    refine ⟨[first], (client.stockOf issuer).filter fun stocked => !good stocked, ?_, paid, ?_⟩
    · calc (client.stockOf issuer).Perm ((client.stockOf issuer).filter good ++
            (client.stockOf issuer).filter fun stocked => !good stocked) :=
          (List.filter_append_perm good _).symm
        _ |>.Perm (first :: later.stockOf issuer ++
            (client.stockOf issuer).filter fun stocked => !good stocked) :=
          taken.append_right _
        _ |>.Perm _ := List.perm_append_comm.cons first
    · intro stocked member
      refine ⟨client.readings, began, read, ?_⟩
      simpa [good] using (List.mem_filter.1 member).2
  others := takes.others

theorem trans
    (first : Spends library start issuer client requests middle)
    (second : Spends library start issuer middle more later)
    (read : middle.readings ≤ later.readings) :
    Spends library start issuer client (requests ++ more) later where
  spent := by
    obtain ⟨spent, expired, left, paid, old⟩ := first.spent
    obtain ⟨alsoSpent, alsoExpired, alsoLeft, alsoPaid, alsoOld⟩ := second.spent
    refine ⟨spent ++ alsoSpent, expired ++ alsoExpired, ?_, ?_, fun stocked member => ?_⟩
    · calc (client.stockOf issuer).Perm (spent ++ (expired ++ middle.stockOf issuer)) := left
        _ |>.Perm (spent ++ (expired ++
            (alsoSpent ++ (alsoExpired ++ later.stockOf issuer)))) :=
          (alsoLeft.append_left expired).append_left spent
        _ |>.Perm (spent ++ (alsoSpent ++ (expired ++
            (alsoExpired ++ later.stockOf issuer)))) := by
          apply List.Perm.append_left
          rw [← List.append_assoc, ← List.append_assoc alsoSpent]
          exact List.perm_append_comm.append_right _
        _ |>.Perm _ := by
          rw [List.append_assoc, List.append_assoc]
    · rw [List.flatMap_append, paid, alsoPaid, List.map_append]
    · obtain member | member := List.mem_append.1 member
      · obtain ⟨reading, began, before, expired⟩ := old stocked member
        exact ⟨reading, began, Nat.lt_of_lt_of_le before read, expired⟩
      · exact alsoOld stocked member
  others other different := (second.others other different).trans (first.others other different)

end Spends

/-! ## What is left after a token was taken -/

namespace Takes

variable {now : Int64} {issuer : Option String} {client middle later : Client}
variable {token : AnonToken}

theorem unexpired_stockOf (takes : Takes now issuer client token middle) :
    unexpired now (client.stockOf issuer) = {token} + unexpired now (middle.stockOf issuer) := by
  obtain ⟨first, rfl, taken⟩ := takes.taken
  have good : isUnexpired now first.validUntilMs = true :=
    (List.mem_filter.1 (taken.mem_iff.2 List.mem_cons_self)).2
  calc unexpired now (client.stockOf issuer)
      = unexpired now (prune now (client.stockOf issuer)) := (unexpired_prune now _).symm
    _ = unexpired now ([first] ++ middle.stockOf issuer) := unexpired_perm taken
    _ = {first.token} + unexpired now (middle.stockOf issuer) := by
        rw [unexpired_append, unexpired_singleton, if_pos good]

/-- As long as the stock of the server does not grow, the token is missing. -/
theorem unexpired_ne
    (takes : Takes now issuer client token middle)
    (shrinks : (later.stockOf issuer).length ≤ (middle.stockOf issuer).length) :
    unexpired now (later.stockOf issuer) ≠ unexpired now (client.stockOf issuer) := by
  intro same
  obtain ⟨first, -, taken⟩ := takes.taken
  have before : (prune now (client.stockOf issuer)).length =
      (middle.stockOf issuer).length + 1 := taken.length_eq
  have after : (prune now (later.stockOf issuer)).length ≤ (later.stockOf issuer).length :=
    List.length_filter_le _ _
  have counts := congrArg Multiset.card same
  simp only [unexpired, Multiset.coe_card, List.length_map] at counts
  omega

/-- A token that is put back counts only if it comes into the stock from which it was taken,
and does not expire there at once. -/
theorem putBack_iff (takes : Takes now issuer client token middle) :
    (∀ other, unexpired now ((returnAccess (.anonToken token) middle).stockOf other) =
      unexpired now (client.stockOf other)) ↔
    Engine.homeOf client token = issuer ∧
      isUnexpired now (Engine.restocked client token).validUntilMs = true := by
  have stocks (other : Option String) :
      unexpired now ((returnAccess (.anonToken token) middle).stockOf other) =
        unexpired now (middle.stockOf other) +
          if other = Engine.homeOf client token ∧
              isUnexpired now (Engine.restocked client token).validUntilMs = true then
            {token} else 0 := by
    rw [stockOf_returnAccess, unexpired_append, takes.homeOf, takes.restocked]
    congr 1
    by_cases home : other = Engine.homeOf client token
    · rw [if_pos home, unexpired_singleton]
      simp only [home, true_and]
      rfl
    · rw [if_neg home, if_neg fun both => home both.1]
      rfl
  constructor
  · intro same
    have here := same issuer
    rw [stocks, takes.unexpired_stockOf, add_comm, add_left_inj] at here
    by_contra away
    rw [if_neg fun both => away ⟨both.1.symm, both.2⟩] at here
    exact Multiset.singleton_ne_zero token here.symm
  · rintro ⟨home, good⟩ other
    rw [stocks]
    by_cases same : other = issuer
    · rw [if_pos ⟨same.trans home.symm, good⟩, same, takes.unexpired_stockOf, add_comm]
    · rw [if_neg fun both => same (both.1.trans home), add_zero, takes.others other same]

end Takes

end Parvane.Engine
