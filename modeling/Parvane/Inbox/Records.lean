import Parvane.Core
import Parvane.Foundation.Run
import Parvane.Inbox.Cursor
import Mathlib.Data.List.Sort

/-!
# Pages of the inbox and how a client opens them

The server numbers the records of a device's inbox and deletes old ones.  A client asks
for the records after its cursor and opens the ones it gets.  Opening an envelope goes
through keys and logs of the client; what comes of it is a parameter here, and so are the
coding of records and the types of envelopes.
-/

namespace Parvane.Inbox

open Wire (Bytes)

/-- What the client has to fetch before it can go on. -/
inductive Need
  | peerLog (user : String) (after : Nat)
  | bundle (user : String)
  | token (user : String)
  | rootChanged (user : String)
  | groupLog (group : Bytes) (after : Nat)
  | groupKeys (group : Bytes) (epoch : Nat)
  | forbidden
  deriving DecidableEq

inductive ClientError
  | need (need : Need)
  | proto (error : ProtoError)
  deriving DecidableEq

/-- The content of a record, with sealed envelopes `σ` and group envelopes `γ`. -/
inductive Item (σ γ : Type)
  | sealedEnvelope (envelope : σ)
  | groupEnvelope (envelope : γ)
  | legacyV1 (json : Bytes)
  | groupState (group : Option Ref) (version : Nat)
  | deviceRevoked (deviceId : String)
  | deviceAdded (deviceId : String) (logVersion : Nat)
  | journal (kind seq : Nat)
  deriving DecidableEq

structure InboxRecord (σ γ : Type) where
  seq : Nat
  receivedMs : Int
  item : Option (Item σ γ)
  deriving DecidableEq

/-- What the host is told.  The events of an opened envelope are of type `ε`. -/
inductive Event (ε : Type)
  | opened (event : ε)
  | skipped (seq : Nat)
  | legacyV1 (seq : Nat) (json : Bytes)
  | groupChanged (seq : Nat) (group : Ref) (version : Nat)
  | deviceRevoked (seq : Nat) (deviceId : String)
  | deviceAdded (deviceId : String) (logVersion : Nat)
  | journal (kind seq : Nat)

variable {σ γ ρ ε : Type}

/-! ## The server -/

/-- A row of `inbox_log` of one device. -/
structure Row where
  seq : Nat
  item : Bytes
  receivedAt : Int
  deriving DecidableEq, Repr

/-- The coding of records that the server uses. -/
structure Coding (σ γ : Type) where
  decode : Bytes -> Option (InboxRecord σ γ)
  encodedLen : InboxRecord σ γ -> Nat

def syncScan : Nat := 4096
def inboxTtlSecs : Int := 30 * 86400
def ackedKeepSecs : Int := 86400

/-- Delete expired records, and sooner those that the device has acknowledged. -/
def gc (now : Int) (ackedSeq : Nat) (log : List Row) : List Row :=
  (log.filter fun row => !(row.receivedAt < now - inboxTtlSecs)).filter fun row =>
    !(row.receivedAt < now - ackedKeepSecs && row.seq ≤ ackedSeq)

def orderBySeq (log : List Row) : List Row :=
  log.insertionSort fun first second => first.seq ≤ second.seq

def budgetOf (maxBytes : Nat) : Nat :=
  if maxBytes == 0 then pageBudget else min maxBytes pageBudget

/-- The last number whose record fits the page, going by the lengths. -/
def lastFitting (budget : Nat) : List (Nat × Nat) -> Option Nat -> Nat -> Option Nat
  | [], last, _ => last
  | (seq, length) :: sizes, last, used =>
      if last.isSome && budget < used + (length + 32) then last
      else lastFitting budget sizes (some seq) (used + (length + 32))

/-- Fill a page up to a budget, with one record at least. -/
def fillPage (coding : Coding σ γ) (budget : Nat) :
    List (InboxRecord σ γ) -> List (InboxRecord σ γ) -> Nat -> List (InboxRecord σ γ) × Bool
  | [], page, _ => (page, false)
  | record :: records, page, used =>
      if !page.isEmpty && budget < used + (coding.encodedLen record + 4) then (page, true)
      else fillPage coding budget records (page ++ [record])
        (used + (coding.encodedLen record + 4))

def paginate (coding : Coding σ γ) (records : List (InboxRecord σ γ)) (maxBytes : Nat) :
    List (InboxRecord σ γ) × Bool :=
  fillPage coding (budgetOf maxBytes) records [] 0

/-- The record of a row, unless its bytes cannot be read. -/
def Row.record (coding : Coding σ γ) (row : Row) : Option (InboxRecord σ γ) :=
  (coding.decode row.item).map fun record =>
    { record with seq := row.seq, receivedMs := row.receivedAt * 1000 }

/-- A page of the records after a number.  The numbers are read before the records, and
the log may change in between. -/
def syncPage (coding : Coding σ γ) (log later : List Row) (after maxBytes : Nat) :
    List (InboxRecord σ γ) × Bool :=
  let sizes := ((orderBySeq (log.filter fun row => after < row.seq)).take syncScan).map
    fun row => (row.seq, row.item.length)
  let full := sizes.length == syncScan
  match lastFitting (budgetOf maxBytes) sizes none 0 with
  | none => ([], false)
  | some last =>
      let cut := sizes.getLast?.any fun size => size.1 != last
      let rows := orderBySeq (later.filter fun row => after < row.seq && row.seq ≤ last)
      let (page, more) := paginate coding (rows.filterMap (Row.record coding)) maxBytes
      (page, more || (full || cut))

/-! ## The client -/

/-- What a client uses besides its cursor.  The keys and logs are of type `ρ`. -/
structure Engine (γ ρ : Type) where
  deviceId : String
  lastError : Option ProtoError
  pendingGroup : List (Nat × γ)
  rest : ρ

/-- What opening a record goes through. -/
structure Openers (σ γ ρ ε : Type) where
  /-- The limits that are checked when a record is decoded. -/
  decodeChecked : InboxRecord σ γ -> Result Unit
  openSealedMode : Engine γ ρ -> Nat -> σ -> Bool ->
    Engine γ ρ × Except ClientError (List ε)
  openGroup : Engine γ ρ -> Nat -> γ -> Engine γ ρ × Except ClientError (List ε)
  ownRevoked : ρ -> String -> Bool
  forgetRevokedDevice : ρ -> String -> ρ
  isCall : ε -> Bool

structure Client (γ ρ : Type) where
  cursor : Cursor
  engine : Engine γ ρ

namespace Client

/-- A record that was opened moves the cursor. -/
def applied (client : Client γ ρ) (seq : Nat) (events : List (Event ε)) :
    Client γ ρ × Except ClientError (List (Event ε)) :=
  ({ client with cursor := client.cursor.markApplied seq }, .ok events)

/-- A record that could not be opened counts as an attempt. -/
def failed (client : Client γ ρ) (seq : Nat) (error : ProtoError) :
    Client γ ρ × Except ClientError (List (Event ε)) :=
  let (cursor, outcome) := client.cursor.markFailed seq
  let client := { client with cursor, engine := { client.engine with lastError := some error } }
  match outcome with
  | .skipped => (client, .ok [.skipped seq])
  | .retry => (client, .ok [])

variable (openers : Openers σ γ ρ ε)

/-- A record outside the log: a live notice, or the signal of a call. -/
def openLive (client : Client γ ρ) (item : Option (Item σ γ)) :
    Option (Client γ ρ × Except ClientError (List (Event ε))) :=
  match item with
  | some (.deviceAdded deviceId logVersion) =>
      some (client, .ok [.deviceAdded deviceId logVersion])
  | some (.journal kind seq) => some (client, .ok [.journal kind seq])
  | some (.sealedEnvelope envelope) =>
      let (engine, result) := openers.openSealedMode client.engine 0 envelope true
      some ({ client with engine },
        result.map fun events => (events.filter openers.isCall).map .opened)
  | _ => none

/-- A record of the log. -/
def openLogged (client : Client γ ρ) (seq : Nat) (item : Option (Item σ γ)) :
    Client γ ρ × Except ClientError (List (Event ε)) :=
  if client.cursor.isDone seq then (client, .ok [])
  else
    match item with
    | none => client.applied seq [.skipped seq]
    | some (.legacyV1 json) => client.applied seq [.legacyV1 seq json]
    | some (.groupState (some group) version) =>
        client.applied seq [.groupChanged seq group version]
    | some (.groupState none _) => client.applied seq [.skipped seq]
    | some (.deviceRevoked deviceId) =>
        let engine :=
          if deviceId != client.engine.deviceId && openers.ownRevoked client.engine.rest deviceId then
            { client.engine with rest := openers.forgetRevokedDevice client.engine.rest deviceId }
          else client.engine
        { client with engine }.applied seq [.deviceRevoked seq deviceId]
    | some (.deviceAdded deviceId logVersion) =>
        client.applied seq [.deviceAdded deviceId logVersion]
    | some (.journal kind journalSeq) => client.applied seq [.journal kind journalSeq]
    | some (.sealedEnvelope envelope) =>
        let (engine, result) := openers.openSealedMode client.engine seq envelope false
        match result with
        | .ok events => { client with engine }.applied seq (events.map .opened)
        | .error (.need need) => ({ client with engine }, .error (.need need))
        | .error (.proto error) => { client with engine }.failed seq error
    | some (.groupEnvelope envelope) =>
        let (engine, result) := openers.openGroup client.engine seq envelope
        match result with
        | .ok events => { client with engine }.applied seq (events.map .opened)
        | .error (.need (.groupKeys _ _)) =>
            -- The keys come in a message of their own: the envelope waits for them.
            { client with
              engine := { engine with
                pendingGroup := engine.pendingGroup ++ [(seq, envelope)] } }.applied seq []
        | .error (.need need) => ({ client with engine }, .error (.need need))
        | .error (.proto error) => { client with engine }.failed seq error

/-- Open a record of the inbox. -/
def openRecord (client : Client γ ρ) (record : InboxRecord σ γ) :
    Client γ ρ × Except ClientError (List (Event ε)) :=
  match openers.decodeChecked record with
  | .error error => (client, .error (.proto error))
  | .ok () =>
      match (if record.seq = 0 then openLive openers client record.item else none) with
      | some result => result
      | none => openLogged openers client record.seq record.item

end Client

end Parvane.Inbox
