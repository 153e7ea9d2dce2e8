import Parvane.Engine.Messages
import Parvane.Foundation.Action

/-!
# Connections of the anonymous channel

A sender who must not be known opens a connection of its own for each recipient.  A
planner chooses the connection for a request: requests to one recipient share it for a
minute, and a public request gets one for itself.  The host asks from time to time for
the connections whose minute is over, and reports those that broke.
-/

namespace Parvane.Anonymous

open Wire Engine

/-- How long a connection serves one recipient. -/
def anonSeriesMs : Int64 := 60000

/-- Whom a connection is for. -/
inductive AnonTarget
  | user (address : String)
  | group (id : Bytes)
  | «public»
  deriving DecidableEq

/-- The connection that was chosen for a request. -/
structure AnonAssignment where
  conn : UInt64
  «open» : Bool
  closeAfter : Bool
  deriving DecidableEq

structure AnonConn where
  id : UInt64
  target : AnonTarget
  openedMs : Int64
  deriving DecidableEq

structure AnonPlanner where
  conns : List AnonConn := []
  nextId : UInt64 := 0
  deriving DecidableEq

structure DeliverSealedRequest where
  envelopes : List SealedEnvelope

structure DeliverGroupRequest where
  envelope : Option GroupEnvelope

/-- The decoders of the two requests that have a recipient. -/
structure Library where
  decodeDeliverSealed : Bytes -> Option DeliverSealedRequest
  decodeDeliverGroup : Bytes -> Option DeliverGroupRequest

/-- The method of a request and its body. -/
abbrev Request := String × Bytes

/-- The recipient of a request.  Every copy of a message is for the same user. -/
def anonTarget (library : Library) (method : String) (body : Bytes) : Result AnonTarget :=
  if method = "msg.deliver_sealed" then do
    let request ← present (library.decodeDeliverSealed body) .malformed
    let first ← present (request.envelopes.head?.bind fun envelope => envelope.recipient)
      (.invalidField "recipient")
    require (!request.envelopes.any fun envelope =>
      envelope.recipient.map (fun device => device.address) != some first.address)
      (.invalidField "recipient")
    return .user first.address
  else if method = "msg.deliver_group" then do
    let request ← present (library.decodeDeliverGroup body) .malformed
    let group ← present (request.envelope.bind fun envelope => envelope.group)
      (.invalidField "group")
    return .group group.id
  else return .public

/-- The difference of two times is that of machine integers. -/
def AnonConn.inSeries (conn : AnonConn) (nowMs : Int64) : Bool :=
  nowMs - conn.openedMs < anonSeriesMs

namespace AnonPlanner

variable (planner : AnonPlanner)

/-- The connection that a request can share. -/
def reused (target : AnonTarget) (nowMs : Int64) : Option AnonConn :=
  if target ≠ .public then
    planner.conns.find? fun conn => conn.target = target && conn.inSeries nowMs
  else none

/-- The connection for one request. -/
def assign (target : AnonTarget) (nowMs : Int64) : AnonAssignment × AnonPlanner :=
  match planner.reused target nowMs with
  | some conn => (⟨conn.id, false, false⟩, planner)
  | none =>
      let id := planner.nextId + 1
      -- An earlier connection of the recipient is forgotten.
      let conns :=
        if target = .public then planner.conns
        else (planner.conns.filter fun conn => conn.target ≠ target) ++ [⟨id, target, nowMs⟩]
      (⟨id, true, target = .public⟩, ⟨conns, id⟩)

/-- The connections for several requests.  Each is assigned before the next is read. -/
def plan (library : Library) (requests : List Request) (nowMs : Int64) :
    Fallible ProtoError AnonPlanner (List AnonAssignment) :=
  requests.mapM fun (method, body) => do
    let target ← liftM (anonTarget library method body)
    modifyGet fun planner => planner.assign target nowMs

/-- The connections whose series is over. -/
def expired (nowMs : Int64) : List UInt64 × AnonPlanner :=
  let (old, keep) := planner.conns.partition fun conn =>
    anonSeriesMs ≤ nowMs - conn.openedMs
  (old.map fun conn => conn.id, { planner with conns := keep })

/-- The host closed a connection. -/
def closed (id : UInt64) : AnonPlanner :=
  { planner with conns := planner.conns.filter fun conn => conn.id ≠ id }

variable {planner} {target : AnonTarget} {nowMs : Int64}

theorem assign_of_reused {conn : AnonConn} (found : planner.reused target nowMs = some conn) :
    planner.assign target nowMs = (⟨conn.id, false, false⟩, planner) := by
  rw [assign, found]

theorem reused_public : planner.reused .public nowMs = none := rfl

theorem of_reused {conn : AnonConn} (found : planner.reused target nowMs = some conn) :
    conn ∈ planner.conns ∧ conn.target = target ∧ target ≠ .public ∧ conn.inSeries nowMs := by
  unfold reused at found
  split at found
  · next named =>
      have fits := List.find?_some found
      rw [Bool.and_eq_true, decide_eq_true_iff] at fits
      exact ⟨List.mem_of_find?_eq_some found, fits.1, named, fits.2⟩
  · cases found

theorem assign_public : planner.assign .public nowMs =
    (⟨planner.nextId + 1, true, true⟩, { planner with nextId := planner.nextId + 1 }) := by
  simp [assign, reused_public]

theorem assign_of_new
    (named : target ≠ .public) (isNew : planner.reused target nowMs = none) :
    planner.assign target nowMs =
      (⟨planner.nextId + 1, true, false⟩,
        ⟨(planner.conns.filter fun conn => conn.target ≠ target) ++
            [⟨planner.nextId + 1, target, nowMs⟩],
          planner.nextId + 1⟩) := by
  simp [assign, isNew, named]

theorem mem_expired {id : UInt64} :
    id ∈ (planner.expired nowMs).1 ↔
      ∃ conn ∈ planner.conns, conn.id = id ∧ conn.inSeries nowMs = false := by
  simp [expired, AnonConn.inSeries, List.partition_eq_filter_filter, and_assoc, and_comm]

theorem mem_conns_expired {conn : AnonConn} :
    conn ∈ (planner.expired nowMs).2.conns ↔
      conn ∈ planner.conns ∧ conn.inSeries nowMs = true := by
  simp [expired, AnonConn.inSeries, List.partition_eq_filter_filter]

theorem mem_conns_closed {id : UInt64} {conn : AnonConn} :
    conn ∈ (planner.closed id).conns ↔ conn ∈ planner.conns ∧ conn.id ≠ id := by
  simp [closed]

/-! ## Plans -/

/-- One recipient after the other gets a connection. -/
def assignAll (planner : AnonPlanner) (nowMs : Int64) :
    List AnonTarget -> List AnonAssignment × AnonPlanner
  | [] => ([], planner)
  | target :: targets =>
      let (assignment, next) := planner.assign target nowMs
      let (assignments, final) := assignAll next nowMs targets
      (assignment :: assignments, final)

end AnonPlanner

/-- The recipients of the requests before the first that has none, and its error. -/
def targets (library : Library) : List Request -> List AnonTarget × Option ProtoError
  | [] => ([], none)
  | (method, body) :: requests =>
      match anonTarget library method body with
      | .error error => ([], some error)
      | .ok target =>
          let (others, failure) := targets library requests
          (target :: others, failure)

namespace AnonPlanner

/-- A plan serves the recipients up to the first request that has none. -/
theorem exec_plan
    (library : Library) (planner : AnonPlanner) (requests : List Request) (nowMs : Int64) :
    Fallible.exec (plan library requests nowMs) planner =
      (match (targets library requests).2 with
        | none => .ok (planner.assignAll nowMs (targets library requests).1).1
        | some error => .error error,
        (planner.assignAll nowMs (targets library requests).1).2) := by
  induction requests generalizing planner with
  | nil => simp [plan, targets, assignAll]
  | cons request requests inductionHypothesis =>
      obtain ⟨method, body⟩ := request
      have rest (next : AnonPlanner) := inductionHypothesis next
      unfold plan at rest ⊢
      rw [List.mapM_cons, Fallible.exec_bind, Fallible.exec_bind, Fallible.exec_liftM, targets]
      cases anonTarget library method body with
      | error error => rfl
      | ok target =>
          simp only [Fallible.exec_modifyGet, Fallible.exec_bind, rest, assignAll]
          cases (targets library requests).2 <;> simp

end AnonPlanner

/-! ## What the host sees -/

/-- A connection that was given to the host for a recipient. -/
structure Handing where
  target : AnonTarget
  nowMs : Int64
  assignment : AnonAssignment
  deriving DecidableEq

namespace Handing

def conn (handing : Handing) : UInt64 := handing.assignment.conn

def opens (handing : Handing) : Bool := handing.assignment.open

end Handing

/-- What the host learns about connections. -/
inductive Event
  | handed (handing : Handing)
  | expired (ids : List UInt64)
  | closed (id : UInt64)
  deriving DecidableEq

/-- After this event the connection is not used any more. -/
def Event.Ends (id : UInt64) : Event -> Prop
  | .handed _ => False
  | .expired ids => id ∈ ids
  | .closed other => other = id

/-- The calls of the host. -/
inductive Call
  | assign (target : AnonTarget) (nowMs : Int64)
  | plan (requests : List Request) (nowMs : Int64)
  | expired (nowMs : Int64)
  | closed (id : UInt64)

section

variable (library : Library) (planner : AnonPlanner)

/-- What recipients were given. -/
def handings (nowMs : Int64) (targets : List AnonTarget) (assignments : List AnonAssignment) :
    List Event :=
  List.zipWith (fun target assignment => .handed ⟨target, nowMs, assignment⟩) targets assignments

/-- A call, with what the host learns from its answer.  From a plan that fails it learns of
no connection. -/
def perform : Call -> List Event × AnonPlanner
  | .assign target nowMs =>
      let (assignment, next) := planner.assign target nowMs
      ([.handed ⟨target, nowMs, assignment⟩], next)
  | .plan requests nowMs =>
      match Fallible.exec (AnonPlanner.plan library requests nowMs) planner with
      | (.ok assignments, next) =>
          (handings nowMs (targets library requests).1 assignments, next)
      | (.error _, next) => ([], next)
  | .expired nowMs =>
      let (ids, next) := planner.expired nowMs
      ([.expired ids], next)
  | .closed id => ([.closed id], planner.closed id)

end

/-- One call with what the host learned. -/
def Step (library : Library) (planner : AnonPlanner) (label : Call × List Event)
    (next : AnonPlanner) : Prop :=
  perform library planner label.1 = (label.2, next)

/-- What the host learned from all its calls. -/
def history (labels : List (Call × List Event)) : List Event :=
  labels.flatMap fun label => label.2

/-! ## A sample -/

/-- A message for the group `x/01`, as it is sent. -/
def groupBody : Bytes := [0x0a, 8, 0x0a, 6, 0x0a, 1, 0x78, 0x12, 1, 1]

/-- Decoders that know the message for the group and the empty request. -/
def sampleLibrary : Library where
  decodeDeliverSealed body := if body = [] then some ⟨[]⟩ else none
  decodeDeliverGroup body :=
    if body = groupBody then some ⟨some ⟨some ⟨"x", [1]⟩, 0, [], [], []⟩⟩
    else if body = [] then some ⟨none⟩
    else none

end Parvane.Anonymous
