import Parvane.Engine.Refusals
import Parvane.Foundation.Greatest

/-!
# Keys that come to all devices

Each device of a user may rotate the delivery key and the state key, and sends the new one
to the others and to the contacts.  A device takes over the key with the greatest number,
so that all come to the same key, as long as no two keys have one number and no number is
too far ahead.
-/

namespace Parvane.Engine

open Wire Sign Identity Parvane.Group Fallible Convergence

/-! ## Shares -/

/-- A key that is shared, with its number. -/
inductive KeyShare
  | delivery (key : Hash) (generation : UInt64)
  | state (key : Hash) (version : UInt32)
  deriving DecidableEq

/-- The content by which a user sends a key. -/
def KeyShare.content (user : String) : KeyShare -> ContentKind
  | .delivery key generation => .deliveryKey ⟨key.bytes, generation⟩
  | .state key version => .stateKey ⟨some ⟨user⟩, key.bytes, version⟩

namespace Client

/-- A new delivery key. -/
def rotateDeliveryKey (client : Client) (fresh : Hash) (exclude : List String) : Client :=
  { client with dk := (client.dk.rotate fresh exclude).1 }

/-- A new version of the state key. -/
def rotateStateKey (client : Client) (fresh : Hash) (version : UInt32) : Client :=
  { client with stateKeys := client.stateKeys.replace fresh (nextKeyVersion version) }

/-- The delivery key with its generation. -/
def deliveryKey (client : Client) : Hash × UInt64 :=
  (client.dk.key, client.dk.generation)

/-- The state key with its version. -/
def stateKey (client : Client) : Option (Hash × UInt32) :=
  client.stateKeys.current

/-- The delivery key that is known of a user. -/
def peerKey (client : Client) (user : String) : Option (Bytes × UInt64) :=
  (client.peers[user]? : Option Peer).bind Peer.deliveryKey

/-- The generation of that key, or zero if none is known. -/
def peerGeneration (client : Client) (user : String) : UInt64 :=
  ((client.peerKey user).map Prod.snd).getD 0

end Client

/-! ## Devices, contacts and what is under way -/

/-- The devices of a user, the contacts of the user, and the shares that were sent. -/
structure KeySystem (δ γ : Type) where
  devices : δ -> Client
  contacts : γ -> Client
  sent : List KeyShare

inductive KeyEvent (δ γ : Type)
  | made (device : δ) (share : KeyShare)
  | took (device : δ) (share : KeyShare)
  | reached (contact : γ) (key : Hash) (generation : UInt64)
  | other
  deriving DecidableEq

/-- A generation is at most so far ahead of the one that is held that it can be taken. -/
def InReach (held : UInt64) : KeyShare -> Prop
  | .delivery _ generation => generation.toNat ≤ held.toNat + maxGenerationJump
  | .state .. => True

instance (held : UInt64) : (share : KeyShare) -> Decidable (InReach held share)
  | .delivery _ generation =>
      inferInstanceAs (Decidable (generation.toNat ≤ held.toNat + maxGenerationJump))
  | .state .. => inferInstanceAs (Decidable True)

section

variable {δ γ : Type} [DecidableEq δ] [DecidableEq γ] (library : Library) (user : String)

/-- A device makes a key, a device or a contact gets a share, or something else happens. -/
inductive KeyStep (system : KeySystem δ γ) : KeyEvent δ γ -> KeySystem δ γ -> Prop
  | rotateDelivery
      (device : δ)
      (fresh : Hash)
      (exclude : List String)
      (later : Client)
      (rotated : later = (system.devices device).rotateDeliveryKey fresh exclude) :
      KeyStep system (.made device (.delivery later.dk.key later.dk.generation))
        { system with
          devices := Function.update system.devices device later
          sent := .delivery later.dk.key later.dk.generation :: system.sent }
  | rotateState
      (device : δ)
      (old fresh : Hash)
      (version : UInt32)
      (current : (system.devices device).stateKey = some (old, version)) :
      KeyStep system (.made device (.state fresh (nextKeyVersion version)))
        { system with
          devices := Function.update system.devices device
            ((system.devices device).rotateStateKey fresh version)
          sent := .state fresh (nextKeyVersion version) :: system.sent }
  | take
      (device : δ)
      (share : KeyShare)
      (seq : UInt64)
      (fromDevice : String)
      (opened : Opened)
      (wasSent : share ∈ system.sent)
      (content : opened.content.kind = some (share.content user))
      (inReach : InReach (system.devices device).dk.generation share) :
      KeyStep system (.took device share)
        { system with
          devices := Function.update system.devices device
            (exec (takeMessage library seq user fromDevice opened) (system.devices device)).2 }
  | takeFar
      (device : δ)
      (share : KeyShare)
      (seq : UInt64)
      (fromDevice : String)
      (opened : Opened)
      (content : opened.content.kind = some (share.content user))
      (far : ¬InReach (system.devices device).dk.generation share) :
      KeyStep system .other
        { system with
          devices := Function.update system.devices device
            (exec (takeMessage library seq user fromDevice opened) (system.devices device)).2 }
  | reach
      (contact : γ)
      (key : Hash)
      (generation : UInt64)
      (seq : UInt64)
      (fromDevice : String)
      (opened : Opened)
      (wasSent : .delivery key generation ∈ system.sent)
      (content : opened.content.kind =
        some (KeyShare.content user (.delivery key generation)))
      (inReach : InReach ((system.contacts contact).peerGeneration user)
        (.delivery key generation)) :
      KeyStep system (.reached contact key generation)
        { system with
          contacts := Function.update system.contacts contact
            (exec (takeMessage library seq user fromDevice opened) (system.contacts contact)).2 }
  | reachFar
      (contact : γ)
      (key : Hash)
      (generation : UInt64)
      (seq : UInt64)
      (fromDevice : String)
      (opened : Opened)
      (content : opened.content.kind =
        some (KeyShare.content user (.delivery key generation)))
      (far : ¬InReach ((system.contacts contact).peerGeneration user)
        (.delivery key generation)) :
      KeyStep system .other
        { system with
          contacts := Function.update system.contacts contact
            (exec (takeMessage library seq user fromDevice opened) (system.contacts contact)).2 }
  | other
      (later : KeySystem δ γ)
      (sameSent : later.sent = system.sent)
      (sameDevices : ∀ device, (later.devices device).user = (system.devices device).user ∧
        (later.devices device).deliveryKey = (system.devices device).deliveryKey ∧
        (later.devices device).stateKey = (system.devices device).stateKey)
      (sameContacts : ∀ contact, (later.contacts contact).user = (system.contacts contact).user ∧
        (later.contacts contact).peerKey user = (system.contacts contact).peerKey user) :
      KeyStep system .other later

end

/-! ## Taking a share -/

section

variable {client : Client} {opened : Opened}

theorem ofBytes_bytes (key : Hash) : FixedBytes.ofBytes? 32 key.bytes = some key := by
  rw [FixedBytes.ofBytes?, dif_pos key.length_eq]

theorem deliveryKey_adopt (own : OwnDeliveryKey) (key : Hash) (generation : UInt64) :
    ((own.adopt key.bytes generation).key, (own.adopt key.bytes generation).generation) =
      if generationStepOk own.generation generation then (key, generation)
      else (own.key, own.generation) := by
  rw [OwnDeliveryKey.adopt, ofBytes_bytes]
  dsimp only
  split <;> rfl

/-- Noting a version of a log changes no key. -/
theorem noteAuthorLog_eq (user : String) (version : UInt64) (client : Client) :
    ∃ behind, noteAuthorLog user version client = { client with logBehind := behind } := by
  unfold noteAuthorLog
  split
  · exact ⟨_, rfl⟩
  · exact ⟨_, rfl⟩

/-- A device takes a delivery key of the user if its generation is the next, or not far
beyond. -/
theorem takeMessage_delivery
    (library : Library)
    {key : Hash} {generation : UInt64} (seq : UInt64) (fromDevice : String)
    (content : opened.content.kind =
      some (KeyShare.content client.user (.delivery key generation))) :
    ∃ later, (exec (takeMessage library seq client.user fromDevice opened) client).2 = later ∧
      later.user = client.user ∧ later.stateKey = client.stateKey ∧
      later.deliveryKey =
        if generationStepOk client.dk.generation generation then (key, generation)
        else client.deliveryKey := by
  obtain ⟨behind, noted⟩ := noteAuthorLog_eq client.user opened.msg.authorLogVersion client
  refine ⟨_, rfl, ?_⟩
  rw [takeMessage, exec_modify_bind, exec_get_bind, noted, content]
  dsimp only [KeyShare.content]
  rw [exec_modify_bind]
  dsimp only
  rw [if_pos rfl]
  exact ⟨rfl, rfl, deliveryKey_adopt client.dk key generation⟩

theorem fromShare_content {key : Hash} {version : UInt32} {user : String}
    (valid : isValidAddress user = true) :
    StateKeys.fromShare ⟨some ⟨user⟩, key.bytes, version⟩ user = .ok (key, version) := by
  simp [StateKeys.fromShare, present, checkUser, valid, require, ofBytes_bytes, bind, Except.bind,
    pure, Except.pure]

/-- A device takes a state key of the user if its version is greater. -/
theorem takeMessage_state
    (library : Library)
    {key : Hash} {version : UInt32} (valid : isValidAddress client.user = true) (seq : UInt64)
    (fromDevice : String)
    (content : opened.content.kind = some (KeyShare.content client.user (.state key version))) :
    ∃ later, (exec (takeMessage library seq client.user fromDevice opened) client).2 = later ∧
      later.user = client.user ∧ later.deliveryKey = client.deliveryKey ∧
      later.stateKey =
        if client.stateKeys.isNewer version then some (key, version) else client.stateKey := by
  obtain ⟨behind, noted⟩ := noteAuthorLog_eq client.user opened.msg.authorLogVersion client
  refine ⟨_, rfl, ?_⟩
  rw [takeMessage_of_stateKey library seq client.user fromDevice content, noted, takeStateKeyShare,
    exec_get_bind]
  dsimp only
  rw [if_neg (by simp), fromShare_content valid]
  refine ⟨rfl, rfl, ?_⟩
  change (client.stateKeys.accept key version).current = _
  rw [StateKeys.accept]
  split <;> rfl

/-- A contact takes a delivery key of the user if its generation is the next, or not far
beyond. -/
theorem takeMessage_peer
    (library : Library)
    {user : String} {key : Hash} {generation : UInt64} (isOther : user ≠ client.user) (seq : UInt64)
    (fromDevice : String)
    (content : opened.content.kind = some (KeyShare.content user (.delivery key generation))) :
    ∃ later, (exec (takeMessage library seq user fromDevice opened) client).2 = later ∧
      later.user = client.user ∧
      later.peerKey user =
        if generationStepOk (client.peerGeneration user) generation then
          some (key.bytes, generation)
        else client.peerKey user := by
  obtain ⟨behind, noted⟩ := noteAuthorLog_eq user opened.msg.authorLogVersion client
  refine ⟨_, rfl, ?_⟩
  rw [takeMessage, exec_modify_bind, exec_get_bind, noted, content]
  dsimp only [KeyShare.content]
  rw [exec_modify_bind]
  dsimp only
  rw [if_neg isOther, takePeerKey, if_pos key.length_eq]
  refine ⟨rfl, ?_⟩
  rw [Client.peerKey, exec_pure]
  dsimp only
  rw [Std.ExtTreeMap.getElem?_insert_self, Option.bind_some, Client.peerGeneration,
    Client.peerKey]
  cases (client.peers[user]? : Option Peer) with
  | none =>
      dsimp only [Option.getD_none, Option.bind_none, Option.map_none]
      split <;> rfl
  | some peer =>
      dsimp only [Option.getD_some, Option.bind_some]
      split <;> rfl

end

/-! ## The newest of the keys that were seen -/

/-- The delivery keys among some shares. -/
def deliveries (shares : Set KeyShare) : Set (Hash × UInt64) :=
  { pair | .delivery pair.1 pair.2 ∈ shares }

/-- The state keys among some shares. -/
def stateKeysOf (shares : Set KeyShare) : Set (Hash × UInt32) :=
  { pair | .state pair.1 pair.2 ∈ shares }

def generationOf (pair : Hash × UInt64) : Nat := pair.2.toNat

def versionOf (pair : Hash × UInt32) : Nat := pair.2.toNat

/-- A device holds the newest of the keys that it has seen. -/
structure Newest (user : String) (seen : Set KeyShare) (client : Client) : Prop where
  isUser : client.user = user
  delivery : IsTopOf generationOf (deliveries seen) (some client.deliveryKey)
  state : IsTopOf versionOf (stateKeysOf seen) client.stateKey

/-- A contact knows the newest of the delivery keys of a user that it has heard of. -/
structure Known (user : String) (heard : Set KeyShare) (client : Client) : Prop where
  isOther : user ≠ client.user
  delivery : ∃ slot, client.peerKey user = slot.map (fun pair => (pair.1.bytes, pair.2)) ∧
    IsTopOf generationOf (deliveries heard) slot

section

variable (seen : Set KeyShare)

include seen

theorem deliveries_delivery (key : Hash) (generation : UInt64) :
    deliveries (seen ∪ {.delivery key generation}) = deliveries seen ∪ {(key, generation)} := by
  ext pair
  simp [deliveries, Prod.ext_iff]

theorem deliveries_state (key : Hash) (version : UInt32) :
    deliveries (seen ∪ {.state key version}) = deliveries seen := by
  ext pair
  simp [deliveries]

theorem stateKeysOf_state (key : Hash) (version : UInt32) :
    stateKeysOf (seen ∪ {.state key version}) = stateKeysOf seen ∪ {(key, version)} := by
  ext pair
  simp [stateKeysOf, Prod.ext_iff]

theorem stateKeysOf_delivery (key : Hash) (generation : UInt64) :
    stateKeysOf (seen ∪ {.delivery key generation}) = stateKeysOf seen := by
  ext pair
  simp [stateKeysOf]

end

theorem saturatingSucc_spec (value : UInt64) :
    value.toNat ≤ (Domain.saturatingSucc value).toNat ∧
      0 < (Domain.saturatingSucc value).toNat := by
  rw [Domain.saturatingSucc]
  cases found : Domain.checkedSucc value with
  | none =>
      -- the last generation there is stays
      rw [Domain.checkedSucc, ite_eq_right_iff] at found
      have last : UInt64.size ≤ value.toNat + 1 := not_lt.1 fun small => nomatch found small
      exact ⟨le_rfl, Nat.lt_of_succ_lt_succ (lt_of_lt_of_le (by decide) last)⟩
  | some next =>
      rw [Option.getD_some, Domain.checkedSucc_eq_some found]
      exact ⟨Nat.le_succ _, Nat.succ_pos _⟩

theorem le_nextKeyVersion (version : UInt32) : version.toNat ≤ (nextKeyVersion version).toNat := by
  rw [nextKeyVersion]
  split
  · rename_i small
    rw [UInt32.toNat_add, UInt32.toNat_one, Nat.mod_eq_of_lt small]
    exact Nat.le_succ _
  · exact le_rfl

variable {key : Hash}

theorem generationStepOk_of_far {held generation : UInt64}
    (far : ¬InReach held (.delivery key generation)) :
    generationStepOk held generation = false := by
  rw [Bool.eq_false_iff]
  exact fun accepted => far ((generationStepOk_iff held generation).1 accepted).2

/-- A generation that is in reach is taken if it is greater. -/
theorem isTopOf_generationStep {seen : Set (Hash × UInt64)}
    {slot : Option (Hash × UInt64)}
    {held generation : UInt64} (top : IsTopOf generationOf seen slot)
    (isHeld : held = (slot.map Prod.snd).getD 0)
    (key : Hash) (positive : 0 < generation.toNat)
    (inReach : InReach held (.delivery key generation)) :
    IsTopOf generationOf (seen ∪ {(key, generation)})
      (if generationStepOk held generation then some (key, generation) else slot) := by
  have next := top.keepGreatest (key, generation)
  have accepts : generationStepOk held generation = true ↔ held.toNat < generation.toNat := by
    rw [generationStepOk_iff]
    exact and_iff_left inReach
  by_cases greater : held.toNat < generation.toNat
  · rw [if_pos (accepts.2 greater)]
    cases slot with
    | none => exact next
    | some current =>
        subst isHeld
        have newer : generationOf current < generationOf (key, generation) := greater
        rwa [keepGreatest_some, if_pos newer] at next
  · rw [if_neg fun accepted => greater (accepts.1 accepted)]
    cases slot with
    | none =>
        subst isHeld
        exact absurd positive greater
    | some current =>
        subst isHeld
        have notNewer : ¬generationOf current < generationOf (key, generation) := greater
        rwa [keepGreatest_some, if_neg notNewer] at next

namespace Newest

variable {user : String} {seen : Set KeyShare} {client later : Client}

section

variable (newest : Newest user seen client)

include newest

theorem congr
    (sameUser : later.user = client.user) (sameDelivery : later.deliveryKey = client.deliveryKey)
    (sameState : later.stateKey = client.stateKey) : Newest user seen later where
  isUser := sameUser.trans newest.isUser
  delivery := sameDelivery ▸ newest.delivery
  state := sameState ▸ newest.state

theorem rotateDeliveryKey
    (fresh : Hash) (exclude : List String) :
    Newest user
      (seen ∪ {.delivery fresh (Domain.saturatingSucc client.dk.generation)})
      (client.rotateDeliveryKey fresh exclude) := by
  refine ⟨newest.isUser, ?_, ?_⟩
  · rw [deliveries_delivery]
    exact newest.delivery.put (saturatingSucc_spec client.dk.generation).1
  · rw [stateKeysOf_delivery]
    exact newest.state

theorem rotateStateKey {old : Hash} {version : UInt32}
    (current : client.stateKey = some (old, version))
    (fresh : Hash) :
    Newest user (seen ∪ {.state fresh (nextKeyVersion version)})
      (client.rotateStateKey fresh version) := by
  refine ⟨newest.isUser, ?_, ?_⟩
  · rw [deliveries_state]
    exact newest.delivery
  · have top := newest.state
    rw [current] at top
    rw [stateKeysOf_state]
    exact top.put (le_nextKeyVersion version)

/-- A delivery key that is in reach is taken if it is newer. -/
theorem takeDelivery {generation : UInt64}
    (positive : 0 < generation.toNat)
    (inReach : InReach client.dk.generation (.delivery key generation))
    (sameUser : later.user = client.user) (sameState : later.stateKey = client.stateKey)
    (taken : later.deliveryKey =
      if generationStepOk client.dk.generation generation then (key, generation)
      else client.deliveryKey) : Newest user (seen ∪ {.delivery key generation}) later := by
  refine ⟨sameUser.trans newest.isUser, ?_, ?_⟩
  · rw [deliveries_delivery, taken, apply_ite some]
    exact isTopOf_generationStep newest.delivery rfl key positive inReach
  · rw [stateKeysOf_delivery, sameState]
    exact newest.state

/-- A state key is taken if it is newer. -/
theorem takeState {version : UInt32}
    (sameUser : later.user = client.user) (sameDelivery : later.deliveryKey = client.deliveryKey)
    (taken : later.stateKey =
      if client.stateKeys.isNewer version then some (key, version) else client.stateKey) :
    Newest user (seen ∪ {.state key version}) later := by
  refine ⟨sameUser.trans newest.isUser, ?_, ?_⟩
  · rw [deliveries_state, sameDelivery]
    exact newest.delivery
  · have top := newest.state.keepGreatest (key, version)
    rw [stateKeysOf_state, taken, StateKeys.isNewer, ← Client.stateKey]
    cases held : client.stateKey with
    | none =>
        rw [held] at top
        exact top
    | some current =>
        have isNewer : (Option.all (fun current => current.2 < version) (some current)) = true ↔
            versionOf current < versionOf (key, version) := by
          rw [Option.all_some, decide_eq_true_iff]
          exact UInt32.lt_iff_toNat_lt
        rw [held, keepGreatest_some] at top
        by_cases newer : versionOf current < versionOf (key, version)
        · rw [if_pos (isNewer.2 newer)]
          rwa [if_pos newer] at top
        · rw [if_neg fun accepted => newer (isNewer.1 accepted)]
          rwa [if_neg newer] at top

end

end Newest

/-- A contact takes a delivery key that is in reach if it is newer. -/
theorem Known.takeDelivery
    {user : String} {heard : Set KeyShare} {client later : Client} {generation : UInt64}
    (known : Known user heard client) (positive : 0 < generation.toNat)
    (inReach : InReach (client.peerGeneration user) (.delivery key generation))
    (sameUser : later.user = client.user)
    (taken : later.peerKey user =
      if generationStepOk (client.peerGeneration user) generation then
        some (key.bytes, generation)
      else client.peerKey user) : Known user (heard ∪ {.delivery key generation}) later := by
  obtain ⟨slot, isSlot, top⟩ := known.delivery
  have isHeld : client.peerGeneration user = (slot.map Prod.snd).getD 0 := by
    rw [Client.peerGeneration, isSlot, Option.map_map]
    rfl
  refine ⟨sameUser ▸ known.isOther,
    if generationStepOk (client.peerGeneration user) generation then some (key, generation)
    else slot, ?_, ?_⟩
  · rw [taken, isSlot, apply_ite (Option.map _)]
    rfl
  · rw [deliveries_delivery]
    exact isTopOf_generationStep top isHeld key positive inReach

theorem Known.congr {user : String} {heard : Set KeyShare} {client later : Client}
    (known : Known user heard client) (sameUser : later.user = client.user)
    (sameKey : later.peerKey user = client.peerKey user) : Known user heard later where
  isOther := sameUser ▸ known.isOther
  delivery := sameKey ▸ known.delivery

/-! ## Whole runs -/

section

variable {δ γ : Type}

/-- Each device holds the newest of what it has seen, each contact of what it has heard,
and all of that was sent. -/
structure Tracks
    (user : String) (seen : δ -> Set KeyShare) (heard : γ -> Set KeyShare)
    (system : KeySystem δ γ) : Prop where
  devices : ∀ device, Newest user (seen device) (system.devices device)
  contacts : ∀ contact, Known user (heard contact) (system.contacts contact)
  seen_sent : ∀ device, ∀ share ∈ seen device, share ∈ system.sent
  heard_sent : ∀ contact, ∀ share ∈ heard contact, share ∈ system.sent
  positive : ∀ key generation, KeyShare.delivery key generation ∈ system.sent ->
    0 < generation.toNat

/-- What a device has seen after some events. -/
def seenAfter (seen : δ -> Set KeyShare) (events : List (KeyEvent δ γ)) (device : δ) :
    Set KeyShare :=
  seen device ∪ { share | .made device share ∈ events ∨ .took device share ∈ events }

/-- What a contact has heard after some events. -/
def heardAfter (heard : γ -> Set KeyShare) (events : List (KeyEvent δ γ)) (contact : γ) :
    Set KeyShare :=
  heard contact ∪ { share | ∃ key generation, share = .delivery key generation ∧
    .reached contact key generation ∈ events }

theorem seenAfter_cons
    (seen : δ -> Set KeyShare) (event : KeyEvent δ γ)
    (events : List (KeyEvent δ γ)) :
    seenAfter seen (event :: events) = seenAfter (seenAfter seen [event]) events := by
  funext device
  ext share
  simp only [seenAfter, Set.mem_union, Set.mem_ofPred_eq, List.mem_cons, List.not_mem_nil,
    or_false]
  tauto

theorem heardAfter_cons
    (heard : γ -> Set KeyShare) (event : KeyEvent δ γ)
    (events : List (KeyEvent δ γ)) :
    heardAfter heard (event :: events) = heardAfter (heardAfter heard [event]) events := by
  funext contact
  ext share
  simp only [heardAfter, Set.mem_union, Set.mem_ofPred_eq, List.mem_cons, List.not_mem_nil,
    or_false]
  constructor
  · rintro (inside | ⟨key, generation, rfl, now | later⟩)
    · exact .inl (.inl inside)
    · exact .inl (.inr ⟨key, generation, rfl, now⟩)
    · exact .inr ⟨key, generation, rfl, later⟩
  · rintro ((inside | ⟨key, generation, rfl, now⟩) | ⟨key, generation, rfl, later⟩)
    · exact .inl inside
    · exact .inr ⟨key, generation, rfl, .inl now⟩
    · exact .inr ⟨key, generation, rfl, .inr later⟩

variable {library : Library} {user : String} {seen : δ -> Set KeyShare}
variable {heard : γ -> Set KeyShare} {system next : KeySystem δ γ}

theorem mem_seenAfter_single {event : KeyEvent δ γ} {device : δ} {share : KeyShare} :
    share ∈ seenAfter seen [event] device ↔
      share ∈ seen device ∨ .made device share = event ∨ .took device share = event := by
  simp [seenAfter]

variable {event : KeyEvent δ γ}

/-- After an event that is none of a device, the device has seen nothing else. -/
theorem seenAfter_of_ne {device : δ}
    (notMade : ∀ share, .made device share ≠ event)
    (notTook : ∀ share, .took device share ≠ event) :
    seenAfter seen [event] device = seen device := by
  ext share
  rw [mem_seenAfter_single]
  simp [notMade, notTook]

theorem heardAfter_of_ne {contact : γ}
    (notReached : ∀ key generation, .reached contact key generation ≠ event) :
    heardAfter heard [event] contact = heard contact := by
  ext share
  simp [heardAfter, notReached]

/-- A device has seen the share that it made or took. -/
theorem seenAfter_own {device : δ} {share : KeyShare}
    (own : event = .made device share ∨ event = .took device share) :
    seenAfter seen [event] device = seen device ∪ {share} := by
  ext other
  rw [mem_seenAfter_single]
  rcases own with rfl | rfl
  · simp [eq_comm, or_comm]
  · simp [eq_comm, or_comm]

section

variable (tracks : Tracks user seen heard system)

include tracks

/-- An event of a device keeps track of it if the device holds the newest of what it saw. -/
theorem Tracks.device [DecidableEq δ]
    {device : δ} {share : KeyShare} {later : Client} {sent : List KeyShare}
    (own : event = .made device share ∨ event = .took device share)
    (more : ∀ other ∈ system.sent, other ∈ sent) (wasSent : share ∈ sent)
    (positive : ∀ key generation, .delivery key generation ∈ sent -> 0 < generation.toNat)
    (newest : Newest user (seen device ∪ {share}) later) :
    Tracks user (seenAfter seen [event]) (heardAfter heard [event])
      { system with devices := Function.update system.devices device later, sent := sent } := by
  have notHeard (contact : γ) : heardAfter heard [event] contact = heard contact :=
    heardAfter_of_ne fun key generation => by rcases own with rfl | rfl <;> exact nofun
  have isOwn {other : δ} (different : other ≠ device) :
      seenAfter seen [event] other = seen other := by
    apply seenAfter_of_ne
    · rcases own with rfl | rfl <;> simp [different]
    · rcases own with rfl | rfl <;> simp [different]
  refine ⟨fun other => ?_, fun contact => ?_, fun other => ?_, fun contact => ?_, positive⟩
  · by_cases same : other = device
    · subst same
      rw [seenAfter_own own]
      simpa using newest
    · rw [isOwn same]
      simpa [same] using tracks.devices other
  · rw [notHeard]
    exact tracks.contacts contact
  · by_cases same : other = device
    · subst same
      rw [seenAfter_own own]
      rintro found (before | rfl)
      · exact more found (tracks.seen_sent other found before)
      · exact wasSent
    · rw [isOwn same]
      exact fun found before => more found (tracks.seen_sent other found before)
  · rw [notHeard]
    exact fun found before => more found (tracks.heard_sent contact found before)

/-- A share that reaches a contact keeps track of it if the contact knows the newest. -/
theorem Tracks.contact [DecidableEq γ]
    {contact : γ} {generation : UInt64} {later : Client}
    (reached : event = .reached contact key generation)
    (wasSent : .delivery key generation ∈ system.sent)
    (known : Known user (heard contact ∪ {.delivery key generation}) later) :
    Tracks user (seenAfter seen [event]) (heardAfter heard [event])
      { system with contacts := Function.update system.contacts contact later } := by
  subst reached
  have isHeard : ∀ other, heardAfter (δ := δ) heard [.reached contact key generation] other =
      if other = contact then heard contact ∪ {.delivery key generation} else heard other := by
    intro other
    ext share
    split
    · next same =>
        subst same
        simp [heardAfter]
    · next different => simp [heardAfter, different]
  have notSeen (device : δ) :
      seenAfter seen [.reached contact key generation] device = seen device :=
    seenAfter_of_ne nofun nofun
  refine ⟨fun device => ?_, fun other => ?_, fun device => ?_, fun other => ?_, tracks.positive⟩
  · rw [notSeen]
    exact tracks.devices device
  · rw [isHeard]
    by_cases same : other = contact
    · subst same
      simpa using known
    · simpa [same] using tracks.contacts other
  · rw [notSeen]
    exact tracks.seen_sent device
  · rw [isHeard]
    split
    · next same =>
        rintro found (before | rfl)
        · exact tracks.heard_sent contact found before
        · exact wasSent
    · exact tracks.heard_sent other

/-- What leaves all keys alone keeps track. -/
theorem Tracks.other
    (isOther : event = .other) (sameSent : next.sent = system.sent)
    (devices : ∀ device, Newest user (seen device) (next.devices device))
    (contacts : ∀ contact, Known user (heard contact) (next.contacts contact)) :
    Tracks user (seenAfter seen [event]) (heardAfter heard [event]) next := by
  subst isOther
  have notSeen : seenAfter (γ := γ) seen [.other] = seen :=
    funext fun device => seenAfter_of_ne nofun nofun
  have notHeard : heardAfter (δ := δ) heard [.other] = heard :=
    funext fun contact => heardAfter_of_ne nofun
  rw [notSeen, notHeard]
  exact ⟨devices, contacts, sameSent ▸ tracks.seen_sent, sameSent ▸ tracks.heard_sent,
    sameSent ▸ tracks.positive⟩

/-- One step keeps track of all keys. -/
theorem Tracks.step [DecidableEq δ]
    [DecidableEq γ] (valid : isValidAddress user = true)
    (step : KeyStep library user system event next) :
    Tracks user (seenAfter seen [event]) (heardAfter heard [event]) next := by
  cases step with
  | rotateDelivery device fresh exclude later rotated =>
      subst rotated
      refine tracks.device (.inl rfl) (fun other => List.mem_cons_of_mem _) List.mem_cons_self
        ?_ ((tracks.devices device).rotateDeliveryKey fresh exclude)
      rintro key generation (_ | ⟨_, before⟩)
      · exact (saturatingSucc_spec _).2
      · exact tracks.positive key generation before
  | rotateState device old fresh version current =>
      refine tracks.device (.inl rfl) (fun other => List.mem_cons_of_mem _) List.mem_cons_self
        ?_ ((tracks.devices device).rotateStateKey current fresh)
      rintro key generation (_ | ⟨_, before⟩)
      exact tracks.positive key generation before
  | take device share seq fromDevice opened wasSent content inReach =>
      have newest := tracks.devices device
      have isUser := newest.isUser
      subst isUser
      refine tracks.device (.inr rfl) (fun other => id) wasSent tracks.positive ?_
      cases share with
      | delivery key generation =>
          obtain ⟨later, isLater, sameUser, sameState, taken⟩ :=
            takeMessage_delivery library seq fromDevice content
          rw [isLater]
          exact newest.takeDelivery (tracks.positive key generation wasSent) inReach sameUser
            sameState taken
      | state key version =>
          obtain ⟨later, isLater, sameUser, sameDelivery, taken⟩ :=
            takeMessage_state library valid seq fromDevice content
          rw [isLater]
          exact newest.takeState sameUser sameDelivery taken
  | takeFar device share seq fromDevice opened content far =>
      have newest := tracks.devices device
      have isUser := newest.isUser
      subst isUser
      refine tracks.other rfl rfl (fun other => ?_) tracks.contacts
      by_cases same : other = device
      · subst same
        cases share with
        | state key version => exact absurd trivial far
        | delivery key generation =>
            have refused := generationStepOk_of_far far
            obtain ⟨later, isLater, sameUser, sameState, taken⟩ :=
              takeMessage_delivery library seq fromDevice content
            dsimp only
            rw [Function.update_self, isLater]
            rw [if_neg (Bool.eq_false_iff.1 refused)] at taken
            exact newest.congr sameUser taken sameState
      · simpa [same] using tracks.devices other
  | reach contact key generation seq fromDevice opened wasSent content inReach =>
      have known := tracks.contacts contact
      obtain ⟨later, isLater, sameUser, taken⟩ :=
        takeMessage_peer library known.isOther seq fromDevice content
      rw [isLater]
      exact tracks.contact rfl wasSent
        (known.takeDelivery (tracks.positive key generation wasSent) inReach sameUser taken)
  | reachFar contact key generation seq fromDevice opened content far =>
      refine tracks.other rfl rfl tracks.devices fun other => ?_
      by_cases same : other = contact
      · subst same
        have known := tracks.contacts other
        have refused := generationStepOk_of_far far
        obtain ⟨later, isLater, sameUser, taken⟩ :=
          takeMessage_peer library known.isOther seq fromDevice content
        dsimp only
        rw [Function.update_self, isLater]
        rw [if_neg (Bool.eq_false_iff.1 refused)] at taken
        exact known.congr sameUser taken
      · simpa [same] using tracks.contacts other
  | other later sameSent sameDevices sameContacts =>
      refine tracks.other rfl sameSent (fun device => ?_) fun contact => ?_
      · obtain ⟨sameUser, sameDelivery, sameState⟩ := sameDevices device
        exact (tracks.devices device).congr sameUser sameDelivery sameState
      · obtain ⟨sameUser, sameKey⟩ := sameContacts contact
        exact (tracks.contacts contact).congr sameUser sameKey

/-- A run keeps track of all keys. -/
theorem Tracks.run [DecidableEq δ]
    [DecidableEq γ] {final : KeySystem δ γ}
    {events : List (KeyEvent δ γ)}
    (valid : isValidAddress user = true)
    (run : Run (KeyStep library user) system events final) :
    Tracks user (seenAfter seen events) (heardAfter heard events) final := by
  induction run generalizing seen heard with
  | nil system =>
      have notSeen : seenAfter (γ := γ) seen [] = seen := by
        funext device
        simp [seenAfter]
      have notHeard : heardAfter (δ := δ) heard [] = heard := by
        funext contact
        simp [heardAfter]
      rwa [notSeen, notHeard]
  | cons first rest inductionHypothesis =>
      rw [seenAfter_cons, heardAfter_cons]
      exact inductionHypothesis (tracks.step valid first)

end

end

/-! ## Agreement -/

/-- All devices of a user hold one key, and a contact knows this key or none. -/
structure SharedStart {δ γ : Type}
    (user : String) (delivery : Hash × UInt64)
    (state : Option (Hash × UInt32))
    (system : KeySystem δ γ) : Prop where
  valid : isValidAddress user = true
  positive : 0 < delivery.2.toNat
  sent : system.sent =
    .delivery delivery.1 delivery.2 :: (state.map fun key => .state key.1 key.2).toList
  devices : ∀ device, (system.devices device).user = user ∧
    (system.devices device).deliveryKey = delivery ∧ (system.devices device).stateKey = state
  contacts : ∀ contact, user ≠ (system.contacts contact).user ∧
    ((system.contacts contact).peerKey user = none ∨
      (system.contacts contact).peerKey user = some (delivery.1.bytes, delivery.2))

/-- Every share was held at the start, or each device made it or took it. -/
def Delivered {δ γ : Type}
    (system final : KeySystem δ γ)
    (events : List (KeyEvent δ γ)) : Prop :=
  ∀ share ∈ final.sent, share ∈ system.sent ∨
    ∀ device, .made device share ∈ events ∨ .took device share ∈ events

/-- The generation is the highest of those that were sent. -/
def Highest (sent : List KeyShare) (generation : UInt64) : Prop :=
  ∀ key other, KeyShare.delivery key other ∈ sent -> other ≤ generation

/-- The highest generation and the highest version belong to one key each. -/
structure OneHighest (sent : List KeyShare) : Prop where
  delivery : ∀ first second generation, .delivery first generation ∈ sent ->
    .delivery second generation ∈ sent -> Highest sent generation -> first = second
  state : ∀ first second version, .state first version ∈ sent ->
    .state second version ∈ sent ->
    (∀ key other, .state key other ∈ sent -> other ≤ version) -> first = second

section

variable {δ γ : Type} {library : Library} {user : String} {system final : KeySystem δ γ}
variable {delivery : Hash × UInt64} {state : Option (Hash × UInt32)}

/-- At the start each device has seen the shared keys, and a contact may have. -/
theorem SharedStart.tracks (start : SharedStart user delivery state system) :
    Tracks user (fun _ => { share | share ∈ system.sent })
      (fun contact => { share | share = .delivery delivery.1 delivery.2 ∧
        (system.contacts contact).peerKey user ≠ none }) system := by
  have isSent : .delivery delivery.1 delivery.2 ∈ system.sent := by
    rw [start.sent]
    exact List.mem_cons_self
  have onlySent {share : KeyShare} (member : share ∈ system.sent) :
      share = .delivery delivery.1 delivery.2 ∨ ∃ key ∈ state, share = .state key.1 key.2 := by
    rw [start.sent, List.mem_cons] at member
    simpa [eq_comm] using member
  have keys : deliveries { share | share ∈ system.sent } = {delivery} := by
    ext pair
    rw [deliveries, Set.mem_ofPred_eq, start.sent]
    simp [Prod.ext_iff]
  refine ⟨fun device => ?_, fun contact => ?_, fun device share => id, ?_, ?_⟩
  · obtain ⟨isUser, holdsDelivery, holdsState⟩ := start.devices device
    refine ⟨isUser, ?_, ?_⟩
    · rw [keys, holdsDelivery]
      exact ⟨rfl, fun other member => (show other = delivery from member) ▸ le_rfl⟩
    · have states : stateKeysOf { share | share ∈ system.sent } = { key | key ∈ state } := by
        ext pair
        rw [stateKeysOf, Set.mem_ofPred_eq, start.sent]
        cases state <;> simp [Prod.ext_iff, eq_comm]
      rw [states, holdsState]
      cases state with
      | none => simp [IsTopOf]
      | some key => simp [IsTopOf]
  · obtain ⟨isOther, unknown | known⟩ := start.contacts contact
    · exact ⟨isOther, none, unknown, by simp [IsTopOf, deliveries, unknown]⟩
    · refine ⟨isOther, some delivery, known, ?_⟩
      simp [IsTopOf, deliveries, known]
  · rintro contact share ⟨rfl, -⟩
    exact isSent
  · intro key generation member
    rcases onlySent member with isDelivery | ⟨state, -, isState⟩
    · cases isDelivery
      exact start.positive
    · cases isState

/-- Devices that have seen all that was sent agree. -/
theorem Tracks.agree {seen : δ -> Set KeyShare} {heard : γ -> Set KeyShare}
    (tracks : Tracks user seen heard final) (one : OneHighest final.sent)
    (all : ∀ device, ∀ share ∈ final.sent, share ∈ seen device) (first second : δ) :
    (final.devices first).deliveryKey = (final.devices second).deliveryKey ∧
      (final.devices first).stateKey = (final.devices second).stateKey := by
  have newest (device : δ) :
      Newest user { share | share ∈ final.sent } (final.devices device) := by
    have isAll : seen device = { share | share ∈ final.sent } :=
      Set.Subset.antisymm (tracks.seen_sent device) (all device)
    exact isAll ▸ tracks.devices device
  constructor
  · refine Option.some.inj ((newest first).delivery.unique_of_greatest ?_
      (newest second).delivery)
    rintro ⟨key, generation⟩ member ⟨other, sameGeneration⟩ inside ranks greatest
    cases UInt64.toNat_inj.1 ranks
    rw [one.delivery key other generation member inside fun key other inside =>
      UInt64.le_iff_toNat_le.2 (greatest (key, other) inside)]
  · refine (newest first).state.unique_of_greatest ?_ (newest second).state
    rintro ⟨key, version⟩ member ⟨other, sameVersion⟩ inside ranks greatest
    cases UInt32.toNat_inj.1 ranks
    rw [one.state key other version member inside fun key other inside =>
      UInt32.le_iff_toNat_le.2 (greatest (key, other) inside)]

/-- A contact that has heard of the highest generation knows its key. -/
theorem Tracks.knows
    {seen : δ -> Set KeyShare} {heard : γ -> Set KeyShare} {contact : γ} {generation : UInt64}
    (tracks : Tracks user seen heard final) (one : OneHighest final.sent)
    (isHeard : .delivery key generation ∈ heard contact) (highest : Highest final.sent generation) :
    (final.contacts contact).peerKey user = some (key.bytes, generation) := by
  obtain ⟨slot, isSlot, top⟩ := (tracks.contacts contact).delivery
  have inside : (key, generation) ∈ deliveries (heard contact) := isHeard
  cases slot with
  | none =>
      rw [show deliveries (heard contact) = ∅ from top] at inside
      cases inside
  | some known =>
      have wasSent := tracks.heard_sent contact _ top.1
      have atLeast : generation ≤ known.2 := UInt64.le_iff_toNat_le.2 (top.2 _ inside)
      have sameGeneration := UInt64.le_antisymm atLeast (highest known.1 known.2 wasSent)
      have sameKey := one.delivery key known.1 generation
        (tracks.heard_sent contact _ isHeard) (sameGeneration ▸ wasSent) highest
      rw [isSlot, sameKey, sameGeneration]
      rfl

/-- Devices of a user that start from one key and rotate the delivery key and the state key
come to the same keys once all shares are delivered, and so does a contact that got the key
of the highest generation.  The highest generation and the highest version have to belong
to one key each, and a generation too far ahead of what is held counts as not delivered. -/
theorem keys_converge
    [DecidableEq δ]
    [DecidableEq γ]
    {events : List (KeyEvent δ γ)}
    (start : SharedStart user delivery state system)
    (run : Run (KeyStep library user) system events final)
    (one : OneHighest final.sent)
    (delivered : Delivered system final events) :
    (∀ first second, (final.devices first).deliveryKey = (final.devices second).deliveryKey ∧
      (final.devices first).stateKey = (final.devices second).stateKey) ∧
    ∀ contact key generation, .reached contact key generation ∈ events ->
      Highest final.sent generation ->
        (final.contacts contact).peerKey user = some (key.bytes, generation) := by
  have tracks := start.tracks.run start.valid run
  refine ⟨tracks.agree one fun device share member => ?_, ?_⟩
  · exact (delivered share member).imp_right fun everywhere => everywhere device
  · intro contact key generation reached highest
    exact tracks.knows one (.inr ⟨key, generation, rfl, reached⟩) highest

end

/-- Two devices of a user and a contact, before any rotation. -/
def sharedSystem : KeySystem Bool Unit where
  devices := fun device =>
    Client.fresh "a@x.org" (if device then "d" else "e") "x.org" [] zeroKey zeroKey zeroKey
  contacts := fun _ => Client.fresh "b@x.org" "d" "x.org" [] zeroKey zeroKey zeroKey
  sent := [.delivery zeroKey 1]

theorem shared_sharedSystem : SharedStart "a@x.org" (zeroKey, 1) none sharedSystem where
  valid := by decide +kernel
  positive := by decide
  sent := rfl
  devices := fun device => ⟨rfl, rfl, rfl⟩
  contacts
    | () => ⟨by decide, by decide +kernel⟩

/-- The second generation, with a key of one byte. -/
def secondShare (byte : UInt8) : KeyShare :=
  .delivery ⟨List.replicate 32 byte, List.length_replicate⟩ 2

/-- A share of the user "a" as it arrives. -/
def sampleShare (share : KeyShare) : Opened where
  sender := ⟨sampleCert 1, zeroKey, zeroKey⟩
  header := ⟨msgDomain, contentOp, [], none, [], 0⟩
  msg := ⟨none, [], 0⟩
  content := ⟨some (share.content "a@x.org")⟩
  disposition := .show

theorem oneHighest_secondShare (byte : UInt8) :
    OneHighest [secondShare byte, .delivery zeroKey 1] where
  delivery := by
    simp only [secondShare, List.mem_cons, List.not_mem_nil, or_false, KeyShare.delivery.injEq]
    rintro first second generation (⟨rfl, rfl⟩ | ⟨rfl, rfl⟩) (⟨rfl, same⟩ | ⟨rfl, same⟩) -
    · rfl
    · cases same
    · cases same
    · rfl
  state := by simp [secondShare]

/-- A device rotates the key, and the other device and the contact get it. -/
theorem keys_converge_sample :
    ∃ (final : KeySystem Bool Unit) (events : List (KeyEvent Bool Unit)),
      .made true (secondShare 1) ∈ events ∧
      (∀ first second, (final.devices first).deliveryKey = (final.devices second).deliveryKey ∧
        (final.devices first).stateKey = (final.devices second).stateKey) ∧
      ∀ contact key generation, .reached contact key generation ∈ events ->
        Highest final.sent generation ->
          (final.contacts contact).peerKey "a@x.org" = some (key.bytes, generation) := by
  let share := secondShare 1
  obtain ⟨final, run, sent⟩ : ∃ final, Run (KeyStep burnLibrary "a@x.org") sharedSystem
      [.made true share, .took false share, .reached () _ 2] final ∧
      final.sent = [share, .delivery zeroKey 1] :=
    ⟨_, .cons (.rotateDelivery true _ [] _ rfl)
      (.cons (.take false share 0 "d" (sampleShare share) (by decide) rfl (by decide +kernel))
        (.cons (.reach () _ 2 0 "d" (sampleShare share) (by decide) rfl
          (by decide +kernel)) (.nil _))), rfl⟩
  refine ⟨final, _, List.mem_cons_self, keys_converge shared_sharedSystem run ?_ ?_⟩
  · rw [sent]
    exact oneHighest_secondShare 1
  · rw [Delivered, sent]
    decide +kernel

/-- Two devices that rotate the key at once keep their own ones. -/
theorem concurrent_rotations_differ :
    ∃ (final : KeySystem Bool Unit) (events : List (KeyEvent Bool Unit)),
      SharedStart "a@x.org" (zeroKey, 1) none sharedSystem ∧
      Run (KeyStep burnLibrary "a@x.org") sharedSystem events final ∧
      Delivered sharedSystem final events ∧
      (final.devices true).deliveryKey ≠ (final.devices false).deliveryKey := by
  let first := secondShare 1
  let second := secondShare 2
  have run : Run (KeyStep burnLibrary "a@x.org") sharedSystem
      [.made true first, .made false second, .took false first, .took true second] _ :=
    .cons (.rotateDelivery true _ [] _ rfl) (.cons (.rotateDelivery false _ [] _ rfl)
      (.cons (.take false first 0 "d" (sampleShare first) (by decide) rfl (by decide +kernel))
        (.cons (.take true second 0 "e" (sampleShare second) (by decide) rfl (by decide +kernel))
          (.nil _))))
  refine ⟨_, _, shared_sharedSystem, run, ?_, ?_⟩
  · rw [Delivered]
    decide +kernel
  · decide +kernel

end Parvane.Engine
