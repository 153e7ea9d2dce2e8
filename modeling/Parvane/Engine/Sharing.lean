import Parvane.Engine.Epochs
import Parvane.Engine.Sealing

/-!
# When keys reach a member

To deliver to another user costs a token unless the delivery key of that user is known.
Whether the keys of an epoch reach all members therefore depends on what was spent on the
members before.
-/

namespace Parvane.Engine

open Wire Sign Identity Parvane.Group Fallible

/-! ## Tokens -/

/-- What sending uses up: tokens, and the readings of the clock and of the random source. -/
structure Purse where
  stock : List Stocked
  foreignTokens : Std.ExtTreeMap String ForeignTokens
  readings : Nat

def Purse.draw (count : Nat) (purse : Purse) : Purse :=
  { purse with readings := purse.readings + count }

namespace Client

variable (client : Client)

def purse : Purse := ⟨client.stock, client.foreignTokens, client.readings⟩

def withPurse (purse : Purse) : Client :=
  { client with
    stock := purse.stock
    foreignTokens := purse.foreignTokens
    readings := purse.readings }

def devicesOf (user : String) : List String :=
  ((client.peerLog user).map fun log => log.devices.keys).getD []

/-- The delivery key of a user is known. -/
def hasDeliveryKey (user : String) : Bool :=
  ((client.peers[user]? : Option Peer).bind Peer.deliveryKey).isSome

end Client

section

variable (library : SendingLibrary) (client : Client)

/-- Pay for a delivery to another user. -/
def payment (user : String) (purse : Purse) : Option Purse :=
  if client.hasDeliveryKey user then some purse
  else
    (stockFor (client.withPurse purse) user).bind fun stock =>
      let taken := takeToken (library.clock purse.readings) stock
      taken.1.map fun _ => (setStock user taken.2 (client.withPurse (purse.draw 1))).purse

end

section

variable {library : SendingLibrary} {encrypts : OlmSession -> Bool} {usable : Hash -> Bool}
variable {client state : Client}

theorem Alike.payment (alike : Alike encrypts client state) (user : String) (purse : Purse) :
    payment library state user purse = payment library client user purse := by
  have home : isHome state (serverOf user) = isHome client (serverOf user) := by
    rw [isHome, isHome, alike.domain]
  have stock (purse : Purse) :
      stockFor (state.withPurse purse) user = stockFor (client.withPurse purse) user := by
    change (if isHome state (serverOf user) = true then _ else _) =
      if isHome client (serverOf user) = true then _ else _
    rw [home]
    rfl
  have rest (stock : List Stocked) (purse : Purse) :
      (setStock user stock (state.withPurse purse)).purse =
        (setStock user stock (client.withPurse purse)).purse := by
    change (if isHome state (serverOf user) = true then _ else _ : Client).purse =
      (if isHome client (serverOf user) = true then _ else _ : Client).purse
    rw [home]
    split <;> rfl
  have known : state.hasDeliveryKey user = client.hasDeliveryKey user := by
    rw [Client.hasDeliveryKey, Client.hasDeliveryKey, alike.peers]
  rw [Engine.payment, Engine.payment, known]
  simp only [stock, rest]

theorem Alike.of_setStock (user : String) (stock : List Stocked) (client : Client) :
    Alike encrypts client (setStock user stock client) ∧
      (setStock user stock client).dk = client.dk := by
  unfold setStock
  split
  · exact ⟨⟨rfl, rfl, rfl, rfl, rfl, rfl, rfl, rfl, fun _ => rfl⟩, rfl⟩
  · exact ⟨⟨rfl, rfl, rfl, rfl, rfl, rfl, rfl, rfl, fun _ => rfl⟩, rfl⟩

/-- The delivery is paid for if it can be. -/
theorem settles_accessFor {user : String} (other : user ≠ client.user) :
    Settles (accessFor library user) client
      ((payment library client user client.purse).isSome = true) fun _ later =>
        Alike encrypts client later ∧ later.dk = client.dk ∧
          payment library client user client.purse = some later.purse := by
  unfold accessFor payment Client.hasDeliveryKey
  refine settles_get_bind ?_
  rw [if_neg other]
  cases (client.peers[user]? : Option Peer).bind Peer.deliveryKey with
  | some key =>
      refine (settles_pure ⟨.refl client, rfl, rfl⟩).mono (by simp) fun _ _ _ => id
  | none =>
      change Settles _ client (((stockFor client user).bind fun stock => _).isSome = true)
        fun _ later => _ ∧ _ ∧ ((stockFor client user).bind fun stock => _) = _
      cases stockFor client user with
      | none => exact (settles_check_error rfl).mono (by simp) fun _ _ _ => id
      | some stock =>
          refine settles_check_ok (rfl : fetched (some stock) (.token user) = .ok stock) ?_
          unfold nowMs nextReading
          simp only [bind_assoc, pure_bind]
          refine settles_modifyGet_bind (settles_modify_bind ?_)
          dsimp only
          let read : Client := { client with readings := client.readings + 1 }
          have kept : Alike encrypts read _ ∧ _ := Alike.of_setStock user
            (takeToken (library.clock client.readings) stock).2 read
          cases taken : (takeToken (library.clock client.readings) stock).1 with
          | none =>
              exact (settles_check_error rfl).mono (by simp [taken, Client.purse]) fun _ _ _ => id
          | some token =>
              refine settles_check_ok rfl ((settles_pure ?_).mono (by simp [taken, Client.purse])
                fun _ _ _ => id)
              refine ⟨Alike.trans ?_ kept.1, kept.2, ?_⟩
              · exact ⟨rfl, rfl, rfl, rfl, rfl, rfl, rfl, rfl, fun _ => rfl⟩
              · dsimp only [Option.bind_some, Client.purse]
                rw [taken]
                rfl

/-- Each of some devices of a user gets a content. -/
def Delivers (library : SendingLibrary) (content : Content) (user : String)
    (devices : List String) (requests : List OutRequest) : Prop :=
  ∃ envelopes, .deliverSealed envelopes ∈ requests ∧
    ∀ device ∈ devices, ∃ envelope ∈ envelopes, Carries library content ⟨user, device⟩ envelope

/-- An envelope for some devices that can be reached is sent. -/
theorem settles_sealed
    (reliable : Reliable library encrypts usable)
    {peer : String} {devices : List String}
    (inhabited : devices ≠ [])
    (reachable : ∀ log, client.peerLog peer = some log -> ∀ device ∈ devices,
      isReachable client log ⟨peer, device⟩ = true)
    (alike : Alike encrypts client state) (content : Content) (access : Access) {opts : SealOpts}
    (valid : isValidOpId opts.opId = true) :
    Settles (sealOrReturn library peer devices content access opts) state
      (CanSeal encrypts usable client peer devices) fun requests later =>
        Alike encrypts client later ∧ later.dk = state.dk ∧
          later.purse = state.purse.draw (reachCount client peer devices) ∧
          Delivers library content peer devices requests := by
  have before := settles_sealForOpts reliable peer devices peer content access valid state
  refine (settles_attempt before ?_ ?_ : Settles _ state (_ ∧ True) _).mono ?_ fun _ _ _ => id
  · rintro ⟨log, known, -, -⟩ envelopes later ⟨seals, carried⟩
    have knownBefore : client.peerLog peer = some log := (alike.peerLog peer).symm.trans known
    have carried (device : String) (member : device ∈ devices) :=
      carried log known device member ((alike.isReachable log _).trans
        (reachable log knownBefore device member))
    have sent : envelopes.isEmpty = false := by
      obtain ⟨device, member⟩ := List.exists_mem_of_ne_nil devices inhabited
      obtain ⟨envelope, inside, -⟩ := carried device member
      simpa using List.ne_nil_of_mem inside
    rw [alike.reachCount] at seals
    dsimp only
    rw [sent]
    refine settles_pure ⟨alike.trans seals.alike, ?_, ?_, envelopes, ?_, carried⟩
    · rw [seals.same]
    · rw [seals.same]
      rfl
    · rw [deliver, sent]
      exact List.mem_singleton_self _
  · intro error later
    exact ⟨error, _, rfl⟩
  · rw [and_true, alike.canSeal]

/-- A content is sent if it can be paid for and sealed. -/
theorem settles_sendContent
    (reliable : Reliable library encrypts usable) {peer : String} (other : peer ≠ client.user)
    {devices : List String}
    (inhabited : devices ≠ [])
    (reachable : ∀ log, client.peerLog peer = some log -> ∀ device ∈ devices,
      isReachable client log ⟨peer, device⟩ = true)
    {opId : Option Bytes} (valid : ∀ id ∈ opId, isValidOpId id = true) (tsMs : Int64) (l2 : Bool)
    (content : Content) :
    Settles (sendContent library peer devices opId tsMs l2 content) client
      ((payment library client peer client.purse).isSome = true ∧
        CanSeal encrypts usable client peer devices) fun requests later =>
          Alike encrypts client later ∧ later.dk = client.dk ∧
            (payment library client peer client.purse).map
              (Purse.draw ((if opId.isNone then 1 else 0) + reachCount client peer devices)) =
                some later.purse ∧
            Delivers library content peer devices requests := by
  have paying : Settles (accessFor library peer) client _
    fun _ later => Alike encrypts client later ∧ _ := settles_accessFor other
  cases opId with
  | some id =>
      rw [sendContent_some]
      refine settles_bind paying ?_
      rintro - access middle ⟨alike, dk, paid⟩
      rw [paid]
      refine (settles_sealed reliable inhabited reachable alike content access
        (valid id rfl)).mono Iff.rfl ?_
      rintro - requests later ⟨alike, sameDk, purse, delivers⟩
      exact ⟨alike, sameDk.trans dk, by simp [purse], delivers⟩
  | none =>
      rw [sendContent_none]
      refine settles_bind paying ?_
      rintro - access middle ⟨alike, dk, paid⟩
      rw [paid]
      unfold newOpId nextReading
      simp only [bind_assoc, pure_bind]
      refine settles_modifyGet_bind ?_
      have alike : Alike encrypts client { middle with readings := middle.readings + 1 } :=
        alike.trans ⟨rfl, rfl, rfl, rfl, rfl, rfl, rfl, rfl, fun _ => rfl⟩
      refine (settles_sealed reliable inhabited reachable alike content access
        (reliable.opId _)).mono Iff.rfl ?_
      rintro - requests later ⟨alike, sameDk, purse, delivers⟩
      refine ⟨alike, sameDk.trans dk, ?_, delivers⟩
      rw [purse]
      simp [Purse.draw, Client.purse, Nat.add_assoc]

/-! ## What has to be there -/

/-- Only an active device of a log that is not empty is sent to in the sealed format. -/
theorem choose_eq_sealed (sticky : Std.ExtTreeSet String) (user : String) (log : DeviceLog)
    (device : String) :
    (choose sticky user (some log) device none).1 = .sealedV2 ↔
      0 < log.version ∧ (log.active device).isSome = true := by
  by_cases written : 0 < log.version
  · have kept : (some log).filter (fun log => decide (0 < log.version)) = some log := by
      simp [written]
    rw [choose, kept]
    dsimp only
    split
    · next active => simp [written, active]
    · next gone => split <;> simp [gone]
  · have dropped : (some log).filter (fun log => decide (0 < log.version)) = none := by
      simpa using Nat.eq_zero_of_not_pos written
    rw [choose, dropped]
    dsimp only
    refine iff_of_false ?_ fun active => written active.1
    split <;> simp

/-- The devices are chosen one after the other. -/
theorem settles_chooseSealed (peer : String) (log : DeviceLog) (devices : List String)
    (client : Client) :
    Settles (devices.forM (chooseSealed peer (some log))) client
      (∀ device ∈ devices, 0 < log.version ∧ (log.active device).isSome = true) fun _ later =>
        later = { client with sticky := later.sticky } := by
  induction devices generalizing client with
  | nil =>
      have done : Settles (pure ⟨⟩ : Act PUnit) client True fun _ later =>
          later = { client with sticky := later.sticky } := settles_pure rfl
      exact done.mono (by simp) fun _ _ _ => id
  | cons device devices inductionHypothesis =>
      have chosen : Settles (chooseSealed peer (some log) device) client
          (0 < log.version ∧ (log.active device).isSome = true) fun _ later =>
            later = { client with sticky := later.sticky } := by
        unfold chooseSealed
        refine settles_modifyGet_bind ?_
        rw [← choose_eq_sealed client.sticky peer log device]
        have decides (format : SendFormat) : format = .sealedV2 ↔
            ∃ value, demand (format == .sealedV2) .forbidden = .ok value := by
          simp
        exact settles_liftM (decides _) fun _ _ => rfl
      refine Settles.mono (settles_bind chosen fun _ _ middle same =>
        (inductionHypothesis middle).mono Iff.rfl ?_) (by simp) fun _ _ _ => id
      intro _ _ later sameLater
      rw [sameLater, same]

end

end Parvane.Engine
