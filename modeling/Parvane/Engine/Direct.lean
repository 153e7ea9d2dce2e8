import Parvane.Engine.Deliveries
import Parvane.Engine.Renames

/-!
# Direct messages

A direct message is checked before anything is sealed; the variants differ in what they draw
before and note afterwards.  No token is lost exactly if the deliveries lose none.
-/

namespace Parvane.Engine

open Wire Sign Identity Parvane.Group Fallible

/-! ## The whole message -/

section

variable {library : SendingLibrary} {encrypts : OlmSession -> Bool} {usable : Hash -> Bool}
variable {client : Client} {peer : String} {content : Content}

/-- A message is sealed once all that is needed is there. -/
structure Ready (client : Client) (peer : String) : Prop where
  other : checkPeer client peer = .ok ()
  own : checkPeer client client.user = .ok ()
  inhabited : peer = client.user ∨ client.devicesOf peer ≠ []
  active : ∀ log, client.peerLog peer = some log -> ∀ device ∈ client.devicesOf peer,
    0 < log.version ∧ (log.active device).isSome = true

/-- No token is lost if nothing is sealed or the deliveries are free. -/
def KeepsTokens (library : SendingLibrary) (encrypts : OlmSession -> Bool)
    (usable : Hash -> Bool) (client : Client) (peer : String) (content : Content) (opId : Bytes)
    (shares : Bool) : Prop :=
  Ready client peer -> isFree client peer = false ->
    DeliveriesKeep library encrypts usable client peer content opId shares

theorem exists_log_of_checkPeer
    (other : peer ≠ client.user)
    (checked : checkPeer client peer = .ok ()) :
    ∃ log, client.peerLog peer = some log ∧
      ∀ device ∈ log.devices.keys, client.sessions.contains ⟨peer, device⟩ = true := by
  have found : ∃ log, client.peerLog peer = some log ∧
      (log.devices.keys.all fun device => (peer == client.user && device == client.deviceId) ||
        client.sessions.contains ⟨peer, device⟩) = true := by
    unfold checkPeer at checked
    dsimp only at checked
    rw [if_pos (bne_iff_ne.2 other)] at checked
    cases claims : (client.logBehind[peer]? : Option Nat) with
    | none =>
        simp only [claims, bind_eq_ok, demand_eq_ok, fetched_eq_ok] at checked
        obtain ⟨_, -, _, -, _, -, found⟩ := checked
        exact found
    | some claimed =>
        simp only [claims, bind_eq_ok, demand_eq_ok, fetched_eq_ok] at checked
        obtain ⟨_, -, _, -, _, -, _, -, found⟩ := checked
        exact found
  obtain ⟨log, known, all⟩ := found
  refine ⟨log, known, fun device member => ?_⟩
  have here := List.all_eq_true.1 all device member
  rwa [beq_false_of_ne other, Bool.false_and, Bool.false_or] at here

theorem devicesOf_eq_keys {log : DeviceLog}
    (known : client.peerLog peer = some log) : client.devicesOf peer = log.devices.keys := by
  rw [Client.devicesOf, known]
  rfl

theorem Ready.reached
    (ready : Ready client peer)
    (paid : isFree client peer = false) : Reached client peer := by
  have other := (isFree_eq_false.1 paid).1
  refine ⟨ready.inhabited.resolve_left other, fun log known device member => ?_⟩
  obtain ⟨_, same, sessions⟩ := exists_log_of_checkPeer other ready.other
  cases known.symm.trans same
  rw [isReachable, (ready.active log known device member).2, Bool.true_and]
  rw [devicesOf_eq_keys known] at member
  exact sessions device member

theorem conserves_check_iff {start : Nat} {issuer : Option String} {check : Except ClientError Unit}
    {next : Unit -> Act (List OutRequest)} :
    Conserves library start issuer (liftM check >>= next) client ↔
      (check = .ok () -> Conserves library start issuer (next ()) client) := by
  cases check with
  | error error =>
      have whole : exec (liftM (.error error : Except ClientError Unit) >>= next) client =
          (.error error, client) := by
        rw [exec_bind, exec_liftM]
      refine iff_of_true ((conserves_of_error whole).2 fun _ => rfl) nofun
  | ok value =>
      have whole : exec (liftM (.ok value : Except ClientError Unit) >>= next) client =
          exec (next value) client := by
        rw [exec_bind, exec_liftM]
      rw [conserves_of_exec_eq whole (.refl client)]
      exact ⟨fun conserves _ => conserves, fun conserves => conserves rfl⟩

/-- The devices are chosen without a look at the stocks. -/
theorem sameStocks_chooseSealed (log : Option DeviceLog) (devices : List String) :
    SameStocks client (exec (devices.forM (chooseSealed peer log)) client).2 := by
  have keeps {τ : Type} (part : Client -> τ)
      (apart : ∀ client sticky, part { client with sticky := sticky } = part client) :
      Keeps part (devices.forM (chooseSealed peer log)) :=
    keeps_forM fun device _ => keeps_bind (keeps_modifyGet fun client => apart client _) fun _ =>
      keeps_liftM _
  refine ⟨fun issuer => ?_, fun token => ?_, fun token => ?_⟩
  · refine keeps (fun client => client.stockOf issuer) (fun client sticky => ?_) client
    cases issuer <;> rfl
  · exact keeps (fun client => homeOf client token) (fun _ _ => rfl) client
  · exact keeps (fun client => restocked client token) (fun _ _ => rfl) client

/-- The deliveries follow if all devices are active. -/
theorem conserves_chosen_iff
    (library : SendingLibrary) {log : DeviceLog} (known : client.peerLog peer = some log)
    (start : Nat) (issuer : Option String)
    (action : Act (List OutRequest)) :
    ∃ sticky, Conserves library start issuer
      ((client.devicesOf peer).forM (chooseSealed peer (client.peerLog peer)) >>= fun _ => action)
      client ↔
    ((∀ device ∈ client.devicesOf peer, 0 < log.version ∧ (log.active device).isSome = true) ->
      Conserves library start issuer action { client with sticky := sticky }) := by
  have same : SameStocks client
      (exec ((client.devicesOf peer).forM (chooseSealed peer (client.peerLog peer))) client).2 :=
    sameStocks_chooseSealed _ _
  rw [known] at same ⊢
  have settles := settles_chooseSealed peer log (client.devicesOf peer) client
  by_cases active : ∀ device ∈ client.devicesOf peer,
      0 < log.version ∧ (log.active device).isSome = true
  · obtain ⟨_, later, chosen, kept⟩ := settles.1 active
    rw [chosen] at same
    have whole : exec ((client.devicesOf peer).forM (chooseSealed peer (some log)) >>=
        fun _ => action) client = exec action later := by
      rw [exec_bind, chosen]
    refine ⟨later.sticky, ?_⟩
    rw [conserves_of_exec_eq whole same, ← kept]
    exact ⟨fun conserves _ => conserves, fun conserves => conserves active⟩
  · obtain ⟨error, later, failed⟩ := settles.2 active
    rw [failed] at same
    have whole : exec ((client.devicesOf peer).forM (chooseSealed peer (some log)) >>=
        fun _ => action) client = (.error error, later) := by
      rw [exec_bind, failed]
    refine ⟨client.sticky, iff_of_true ((conserves_of_error whole).2 fun other => ?_)
      fun all => absurd all active⟩
    rw [same.stockOf]

/-- A message to a user who is another one and whose delivery key is not known. -/
theorem conserves_prepareDirectOpts_paid
    (reliable : Reliable library encrypts usable) (paid : isFree client peer = false)
    (opts : DirectOpts) :
    Conserves library client.readings (issuerOf client peer)
      (prepareDirectOpts library peer content opts) client ↔
    (Ready client peer -> DeliveriesKeep library encrypts usable client peer content opts.opId
      (sharesKey client peer opts.shareDk)) := by
  have other := (isFree_eq_false.1 paid).1
  have share : (if sharesKey client peer opts.shareDk = true then some client.deliveryKeyContent
      else none).isSome = sharesKey client peer opts.shareDk := by
    cases sharesKey client peer opts.shareDk <;> rfl
  have deliveries (reached : Reached client peer) (sticky : Std.ExtTreeSet String) :
      Conserves library client.readings (issuerOf client peer)
        (sendDirect library peer content (sealOptsOf client peer content opts)
          (client.devicesOf peer)
          (if sharesKey client peer opts.shareDk then some client.deliveryKeyContent else none))
        { client with sticky := sticky } ↔
      DeliveriesKeep library encrypts usable client peer content opts.opId
        (sharesKey client peer opts.shareDk) := by
    have alike : Alike encrypts client { client with sticky := sticky } :=
      ⟨rfl, rfl, rfl, rfl, rfl, rfl, rfl, rfl, fun _ => rfl⟩
    have sent := @conserves_sendDirect_iff library encrypts usable { client with sticky := sticky }
      peer content reliable paid ⟨reached.inhabited, reached.reachable⟩
      (sealOptsOf client peer content opts)
      (if sharesKey client peer opts.shareDk then some client.deliveryKeyContent else none)
    rw [share] at sent
    refine sent.trans (forall₂_congr fun token _ => and_congr_left fun _ =>
      imp_congr_right fun _ => and_congr_left fun _ => imp_congr_right fun _ =>
      and_congr_left fun _ => ?_)
    exact alike.secondPaid rfl
  rw [prepareDirectOpts_eq, conserves_of_exec_eq (exec_get_bind _ client) (.refl client),
    conserves_check_iff]
  constructor
  · intro conserves ready
    have rest := conserves_check_iff.1 (conserves_check_iff.1 (conserves ready.other) ready.own)
    obtain ⟨log, known, -⟩ := exists_log_of_checkPeer other ready.other
    obtain ⟨sticky, chosen⟩ := conserves_chosen_iff library known client.readings
      (issuerOf client peer) _
    refine (deliveries (ready.reached paid) sticky).1 (chosen.1 (rest ?_) (ready.active log known))
    exact (demand_eq_ok _ _ _).2 (by simpa using ready.inhabited)
  · intro keeps checked
    rw [conserves_check_iff]
    intro own
    rw [conserves_check_iff]
    intro inhabited
    obtain ⟨log, known, -⟩ := exists_log_of_checkPeer other checked
    obtain ⟨sticky, chosen⟩ := conserves_chosen_iff library known client.readings
      (issuerOf client peer) _
    refine chosen.2 fun active => ?_
    have ready : Ready client peer := by
      refine ⟨checked, own, ?_, ?_⟩
      · simpa using (demand_eq_ok _ _ _).1 inhabited
      · intro other same
        cases known.symm.trans same
        exact active
    exact (deliveries (ready.reached paid) sticky).2 (keeps ready)

theorem conserves_prepareDirectOpts_iff
    (reliable : Reliable library encrypts usable) (client : Client) (peer : String)
    (content : Content) (opts : DirectOpts) :
    Conserves library client.readings (issuerOf client peer)
      (prepareDirectOpts library peer content opts) client ↔
    KeepsTokens library encrypts usable client peer content opts.opId
      (sharesKey client peer opts.shareDk) := by
  cases free : isFree client peer with
  | false =>
      rw [conserves_prepareDirectOpts_paid reliable free, KeepsTokens, free]
      exact ⟨fun keeps ready _ => keeps ready, fun keeps ready => keeps ready rfl⟩
  | true =>
      refine iff_of_true ?_ fun _ paid => nomatch free.symm.trans paid
      rw [prepareDirectOpts_eq, conserves_of_exec_eq (exec_get_bind _ client) (.refl client),
        conserves_check_iff]
      intro checked
      rw [conserves_check_iff]
      intro own
      rw [conserves_check_iff]
      intro _
      have same : SameStocks client (exec ((client.devicesOf peer).forM
          (chooseSealed peer (client.peerLog peer))) client).2 := sameStocks_chooseSealed _ _
      have unsent : Unsent fun client => isFree client peer := fun _ _ _ _ _ _ _ => rfl
      have kept : isFree (exec ((client.devicesOf peer).forM
          (chooseSealed peer (client.peerLog peer))) client).2 peer = isFree client peer :=
        keeps_forM (fun device _ => unsent.keeps_chooseSealed _ _ device) client
      rcases chosen : exec ((client.devicesOf peer).forM
          (chooseSealed peer (client.peerLog peer))) client with ⟨error | done, later⟩
      · rw [chosen] at same
        refine (conserves_of_error (by rw [exec_bind, chosen])).2 fun other => ?_
        rw [same.stockOf]
      · rw [chosen] at same kept
        rw [conserves_of_exec_eq (by rw [exec_bind, chosen]) same]
        exact (free_sendDirect (kept.trans free) _ _ _).conserves _ _

end

/-! ## The variants -/

/-- The client after some readings. -/
def Client.afterReadings (count : Nat) (client : Client) : Client :=
  { client with readings := client.readings + count }

theorem sameStocks_afterReadings (count : Nat) (client : Client) :
    SameStocks client (client.afterReadings count) :=
  ⟨fun issuer => by cases issuer <;> rfl, fun _ => rfl, fun _ => rfl⟩

/-- What is noted after all deliveries touches no stock. -/
theorem conserves_noting_iff {library : SendingLibrary} {start : Nat} {issuer : Option String}
    {action : Act (List OutRequest)}
    {client : Client} {noting : Client -> Client}
    (same : ∀ client, SameStocks client (noting client) ∧
      (noting client).readings = client.readings) :
    Conserves library start issuer (do
      let out ← action
      modify noting
      return out) client ↔
    Conserves library start issuer action client := by
  have whole : exec (do
      let out ← action
      modify noting
      return out : Act (List OutRequest)) client = match exec action client with
        | (.error error, later) => (.error error, later)
        | (.ok requests, later) => (.ok requests, noting later) := by
    rw [exec_bind]
    rcases exec action client with ⟨error | requests, later⟩ <;> rfl
  apply conserves_congr (.refl client) <;> rw [whole] <;>
    rcases exec action client with ⟨error | requests, later⟩
  · rfl
  · rfl
  · exact .refl later
  · exact (same later).1
  · rfl
  · exact (same later).2

section

variable {library : SendingLibrary} {encrypts : OlmSession -> Bool} {usable : Hash -> Bool}

theorem conserves_afterReadings_iff
    (reliable : Reliable library encrypts usable) (client : Client) (count : Nat) (peer : String)
    (content : Content) (opts : DirectOpts) :
    Conserves library (client.readings + count) (issuerOf client peer)
      (prepareDirectOpts library peer content opts) (client.afterReadings count) ↔
    KeepsTokens library encrypts usable (client.afterReadings count) peer content opts.opId
      (sharesKey client peer opts.shareDk) :=
  conserves_prepareDirectOpts_iff reliable (client.afterReadings count) peer content opts

theorem conserves_prepareDirectId_iff
    (reliable : Reliable library encrypts usable) (client : Client) (peer : String)
    (content : Content) (opId : Bytes) :
    Conserves library (client.readings + 1) (issuerOf client (client.currentAddress peer))
      (prepareDirectId library peer content opId) client ↔
    KeepsTokens library encrypts usable (client.afterReadings 1) (client.currentAddress peer)
      content opId (sharesKey client (client.currentAddress peer) true) := by
  rw [← conserves_afterReadings_iff reliable client 1 (client.currentAddress peer) content
    ⟨opId, true, false, library.clock client.readings⟩]
  refine (@conserves_of_exec_eq _ _ _ _ ?_ _ _ ?begun (sameStocks_afterReadings 1 client)).trans ?_
  case begun =>
    unfold prepareDirectId nowMs nextReading
    simp only [bind_assoc, pure_bind]
    rw [exec_get_bind, exec_modifyGet_bind]
    rfl
  split
  · exact conserves_noting_iff fun state =>
      ⟨⟨fun issuer => by cases issuer <;> rfl, fun _ => rfl, fun _ => rfl⟩, rfl⟩
  · simp only [bind_pure]

end

/-- A direct message loses no token exactly if no token is taken, or what follows the first
delivery goes well, or the first delivery fails and its token comes back. -/
theorem direct_conserves_iff
    {library : SendingLibrary}
    {encrypts : OlmSession -> Bool}
    {usable : Hash -> Bool}
    (reliable : Reliable library encrypts usable) :
    (∀ client peer content opts,
      Conserves library client.readings (issuerOf client peer)
        (prepareDirectOpts library peer content opts) client ↔
      KeepsTokens library encrypts usable client peer content opts.opId
        (sharesKey client peer opts.shareDk)) ∧
    (∀ client peer content opId shareDk,
      Conserves library (client.readings + 1) (issuerOf client peer)
        (prepareDirectInner library peer content opId shareDk) client ↔
      KeepsTokens library encrypts usable (client.afterReadings 1) peer content opId
        (sharesKey client peer shareDk)) ∧
    (∀ client peer content opId,
      Conserves library (client.readings + 1) (issuerOf client (client.currentAddress peer))
        (prepareDirectId library peer content opId) client ↔
      KeepsTokens library encrypts usable (client.afterReadings 1) (client.currentAddress peer)
        content opId (sharesKey client (client.currentAddress peer) true)) ∧
    ∀ client peer content,
      Conserves library (client.readings + 2) (issuerOf client (client.currentAddress peer))
        (prepareDirect library peer content) client ↔
      KeepsTokens library encrypts usable (client.afterReadings 2) (client.currentAddress peer)
        content (library.drawOpId client.readings)
        (sharesKey client (client.currentAddress peer) true) := by
  refine ⟨conserves_prepareDirectOpts_iff reliable, ?_, conserves_prepareDirectId_iff reliable, ?_⟩
  · intro client peer content opId shareDk
    have begun : exec (prepareDirectInner library peer content opId shareDk) client =
        exec (prepareDirectOpts library peer content
          ⟨opId, shareDk, false, library.clock client.readings⟩) (client.afterReadings 1) := by
      unfold prepareDirectInner nowMs nextReading
      simp only [bind_assoc, pure_bind]
      rw [exec_modifyGet_bind, Client.afterReadings]
    rw [conserves_of_exec_eq begun (sameStocks_afterReadings 1 client)]
    exact conserves_afterReadings_iff reliable client 1 peer content _
  · intro client peer content
    have begun : exec (prepareDirect library peer content) client =
        exec (prepareDirectId library peer content (library.drawOpId client.readings))
          (client.afterReadings 1) := by
      unfold prepareDirect newOpId nextReading
      simp only [bind_assoc, pure_bind]
      rw [exec_modifyGet_bind, Client.afterReadings]
    rw [conserves_of_exec_eq begun (sameStocks_afterReadings 1 client)]
    exact conserves_prepareDirectId_iff reliable (client.afterReadings 1) peer content _

/-! ## A sample -/

theorem reliable_plainLibrary : Reliable plainLibrary (fun _ => true) fun _ => true where
  opId _ := (by decide : isValidOpId (List.replicate 16 112) = true)
  encrypt session plain := iff_of_true ⟨_, rfl⟩ rfl
  again _ _ _ := rfl
  hpke _ _ _ plain := iff_of_true ⟨_, rfl⟩ rfl

def sampleToken (number : UInt8) : AnonToken := ⟨[7], [number], [], []⟩

/-- A client with some tokens of the own server, who can send to another user of that server but
does not know the delivery key. -/
def payingClient (numbers : List UInt8) : Client :=
  { Client.fresh "a@x.org" "d" "x.org" [] zeroKey zeroKey zeroKey with
    ownLog := sampleLog 1
    myCert := some (sampleSigned 1)
    peers := (∅ : Std.ExtTreeMap String Peer).insert "b@x.org" (samplePeer 2)
    sessions := (∅ : Std.ExtTreeMap DeviceRef OlmSession).insert ⟨"b@x.org", "d"⟩ []
    stock := numbers.map fun number => ⟨sampleToken number, 1000000⟩
    tokenKeys := [⟨[7], 1000000⟩] }

def sampleText : Content := ⟨some (.text false)⟩

/-- With two tokens the own delivery key and the content are sent. -/
theorem direct_conserves_iff_sample :
    Conserves plainLibrary 2 none (prepareDirect plainLibrary "b@x.org" sampleText)
      (payingClient [1, 2]) := by
  have current : (payingClient [1, 2]).currentAddress "b@x.org" = "b@x.org" := by
    decide +kernel
  have home : issuerOf (payingClient [1, 2]) "b@x.org" = none := by
    decide +kernel
  have kept := (direct_conserves_iff reliable_plainLibrary).2.2.2 (payingClient [1, 2]) "b@x.org"
    sampleText
  rw [current, home] at kept
  refine kept.2 fun _ _ token _ => ⟨fun _ => ?_, fun misfits => absurd ?_ misfits⟩
  · have second : SecondPaid plainLibrary ((payingClient [1, 2]).afterReadings 2) "b@x.org" := by
      unfold SecondPaid
      decide +kernel
    have alone : ((payingClient [1, 2]).afterReadings 2).otherDevices = [] := by
      decide +kernel
    exact ⟨fun _ => ⟨second, by decide +kernel⟩, .inl alone⟩
  · have shares : sharesKey (payingClient [1, 2]) "b@x.org" true = true := by
      decide +kernel
    have known : ((payingClient [1, 2]).afterReadings 2).peerLog "b@x.org" = some (sampleLog 2) :=
      rfl
    rw [shares]
    refine ⟨⟨sampleLog 2, known, rfl, fun device member cert active => ?_⟩, nofun⟩
    have devices : ((payingClient [1, 2]).afterReadings 2).devicesOf "b@x.org" = ["d"] := by
      decide +kernel
    rw [devices] at member
    cases List.mem_singleton.1 member
    have first : (sampleLog 2).active "d" =
        some ⟨sampleCert 2, sampleHashOf 2, sampleHashOf 2⟩ := by
      decide +kernel
    cases first.symm.trans active
    refine ⟨sampleHashOf 2, rfl, fun works found => ?_⟩
    obtain ⟨_, -, rfl⟩ := Option.map_eq_some_iff.1 found
    have address : checkDevice ⟨"b@x.org", "d"⟩ = .ok () := by decide +kernel
    exact ⟨rfl, address, rfl⟩

/-- With one token the own delivery key is sent, and then there is none for the content. -/
theorem token_lost_before_content :
    ¬ Conserves plainLibrary 2 none (prepareDirect plainLibrary "b@x.org" sampleText)
      (payingClient [1]) := by
  have failed : errorOf (exec (prepareDirect plainLibrary "b@x.org" sampleText)
      (payingClient [1])).1 = some (.need (.token "b@x.org")) := by
    decide +kernel
  have gone : (exec (prepareDirect plainLibrary "b@x.org" sampleText)
      (payingClient [1])).2.stock = [] := by
    decide +kernel
  intro conserves
  have same := conserves.failed _ _ (Prod.ext (eq_of_errorOf failed) rfl) none
  have before : unexpired (plainLibrary.clock 2) ((payingClient [1]).stockOf none) =
      {sampleToken 1} := rfl
  rw [before, Client.stockOf, gone] at same
  exact Multiset.singleton_ne_zero _ same.symm

end Parvane.Engine
