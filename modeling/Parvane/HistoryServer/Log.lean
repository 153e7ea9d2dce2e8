import Parvane.Foundation.Run
import Parvane.Sign
import Mathlib.Data.List.Sort
import Std.Data.ExtTreeSet.Lemmas

/-!
# The history log of an account on the server

The server keeps the encrypted history of a user as a log.  A device appends records and
reads pages of them, and a checkpoint replaces the records it summarises by a few chunks.
The three tables are modelled by their rows of one user, since every query names the user.
-/

namespace Parvane.HistoryServer

open Wire (Bytes)

/-- The refusals that reach a device. -/
inductive ErrorCode
  | invalid
  | duplicate
  | limit
  | unavailable
  deriving DecidableEq, Repr

/-- A row of `user_history_log`. -/
structure Row where
  seq : Nat
  opId : Bytes
  record : Bytes
  chunk : Bool
  deriving DecidableEq, Repr

/-- The row of `user_history_head`. -/
structure Head where
  nextSeq : Nat
  records : Nat
  bytes : Nat
  deriving DecidableEq, Repr

/-- The row of `user_history_checkpoint`. -/
structure Checkpoint where
  id : Nat
  uptoSeq : Nat
  summarySeq : Nat
  chunkSeqs : List Nat
  createdMs : Int
  deriving DecidableEq, Repr

structure Tables where
  log : List Row := []
  head : Option Head := none
  checkpoint : Option Checkpoint := none
  deriving DecidableEq, Repr

structure AppendRequest where
  opId : Bytes
  aeadCiphertext : Bytes
  chunk : Bool
  deriving DecidableEq, Repr

structure SyncRequest where
  afterSeq : Nat
  maxBytes : Nat
  skipChunks : Bool
  deriving DecidableEq, Repr

structure SyncResponse where
  records : List Row
  more : Bool
  headSeq : Nat
  compacted : Option Checkpoint
  deriving DecidableEq, Repr

structure CommitRequest where
  expectedCheckpointId : Nat
  uptoSeq : Nat
  summarySeq : Nat
  chunkSeqs : List Nat
  deriving DecidableEq, Repr

structure HistoryLimits where
  maxRecords : Nat
  maxBytes : Nat
  deriving DecidableEq, Repr

def nonceLen : Nat := 12
def tagLen : Nat := 16
def pageBudget : Nat := 716800
def pageItems : Nat := 1024
def getItems : Nat := 256
def maxChunks : Nat := 100000

/-- Numbers of the protocol have to fit the signed integers of the database. -/
def i64Max : Nat := 2 ^ 63 - 1

def toI64 (value : Nat) : Except ErrorCode Nat :=
  if value ≤ i64Max then .ok value else .error .invalid

/-- Refuse unless a condition holds. -/
def demand (condition : Bool) (error : ErrorCode) : Except ErrorCode Unit :=
  if condition then .ok () else .error error

/-! ## Appending a record -/

/-- The record that is stored under the same identifier: the same ciphertext and flag give
its number, others are refused. -/
def existing (tables : Tables) (request : AppendRequest) : Except ErrorCode (Option Nat) :=
  match tables.log.find? fun row => row.opId == request.opId with
  | some row =>
      if row.record == request.aeadCiphertext && row.chunk == request.chunk then
        .ok (some row.seq)
      else .error .duplicate
  | none => .ok none

/-- What is checked before the database is asked. -/
def checkAppend (request : AppendRequest) : Except ErrorCode Unit := do
  demand (Sign.isValidOpId request.opId) .invalid
  demand (nonceLen + tagLen ≤ request.aeadCiphertext.length) .invalid

/-- The row of counters after one more record of some length. -/
def Head.count (head : Option Head) (length : Nat) : Head :=
  match head with
  | none => { nextSeq := 1, records := 1, bytes := length }
  | some head =>
      { nextSeq := head.nextSeq + 1, records := head.records + 1, bytes := head.bytes + length }

/-- The transaction of an append.  There is no result when another append of the same
identifier came first: the transaction is rolled back then. -/
def insertRecord (limits : HistoryLimits) (tables : Tables) (request : AppendRequest) :
    Except ErrorCode (Option (Nat × Tables)) := do
  let head := Head.count tables.head request.aeadCiphertext.length
  -- Larger sums turn into floating point numbers, which the server cannot read back.
  demand (head.nextSeq ≤ i64Max && head.records ≤ i64Max && head.bytes ≤ i64Max) .unavailable
  demand (head.records ≤ limits.maxRecords && head.bytes ≤ limits.maxBytes) .limit
  if tables.log.any fun row => row.seq == head.nextSeq || row.opId == request.opId then
    return none
  let row : Row :=
    { seq := head.nextSeq
      opId := request.opId
      record := request.aeadCiphertext
      chunk := request.chunk }
  return some (head.nextSeq, { tables with head := some head, log := tables.log ++ [row] })

/-! ## Reading -/

def headSeq (tables : Tables) : Nat :=
  tables.head.elim 0 Head.nextSeq

/-- The size of a record on a page, with the bytes that frame it. -/
def Row.pageLength (row : Row) : Nat :=
  (Wire.encodeFields (Wire.uint 1 row.seq ++ Wire.bytes 2 row.opId ++ Wire.bytes 3 row.record ++
    Wire.flag 4 row.chunk)).length + 4

/-- Fill a page up to a budget.  The first record is taken whatever its size; the flag
tells that records are left. -/
def fillPage (budget : Nat) : List Row -> List Row -> Nat -> List Row × Bool
  | [], page, _ => (page, false)
  | row :: rows, page, used =>
      if pageItems ≤ page.length || (!page.isEmpty && budget < used + row.pageLength) then
        (page, true)
      else fillPage budget rows (page ++ [row]) (used + row.pageLength)

/-- The rows of a query in the order of their numbers. -/
def orderBySeq (rows : List Row) : List Row :=
  rows.insertionSort fun first second => first.seq ≤ second.seq

/-- A page of records after a number.  A number before the checkpoint gives the checkpoint
and the records after it. -/
def sync (tables : Tables) (request : SyncRequest) : Except ErrorCode SyncResponse := do
  let after ← toI64 request.afterSeq
  let budget := if request.maxBytes == 0 then pageBudget else min request.maxBytes pageBudget
  let compacted := tables.checkpoint.filter fun checkpoint => request.afterSeq < checkpoint.uptoSeq
  let after ← compacted.elim (pure after) fun checkpoint => toI64 checkpoint.uptoSeq
  let rows := tables.log.filter fun row =>
    after < row.seq && (!request.skipChunks || !row.chunk)
  let (records, more) := fillPage budget ((orderBySeq rows).take (pageItems + 1)) [] 0
  return { records, more, headSeq := headSeq tables, compacted }

/-- The records with the given numbers, in the order asked for, up to the budget. -/
def getRecords (tables : Tables) : List Nat -> List Nat -> List Row -> Nat ->
    Except ErrorCode (List Row)
  | [], _, records, _ => return records
  | seq :: seqs, seen, records, used => do
      if seen.contains seq then getRecords tables seqs seen records used
      else
        let wanted ← toI64 seq
        match tables.log.find? fun row => row.seq == wanted with
        | none => getRecords tables seqs (seq :: seen) records used
        | some row =>
            if !records.isEmpty && pageBudget < used + row.pageLength then return records
            else getRecords tables seqs (seq :: seen) (records ++ [row]) (used + row.pageLength)

def get (tables : Tables) (seqs : List Nat) : Except ErrorCode (List Row) := do
  demand (seqs.length ≤ getItems) .invalid
  getRecords tables seqs [] [] 0

/-! ## Checkpoints -/

/-- The chunks and the summary of a new checkpoint, without repetitions and in order. -/
def CommitRequest.keep (request : CommitRequest) : List Nat :=
  (Std.ExtTreeSet.ofList (request.summarySeq :: request.chunkSeqs) compare).toList

/-- Delete the records between one kept number and the next. -/
def deleteBetween (prev next : Nat) (log : List Row) : List Row :=
  log.filter fun row => !(prev < row.seq && row.seq < next)

/-- Delete the records between the kept numbers, range by range. -/
def deleteRanges : Nat -> List Nat -> List Row -> Except ErrorCode (List Row)
  | _, [], log => return log
  | prev, next :: kept, log => do
      if prev + 1 < next then
        let lower ← toI64 prev
        let upper ← toI64 next
        deleteRanges next kept (deleteBetween lower upper log)
      else deleteRanges next kept log

/-- Number and size of the stored records. -/
def volume (log : List Row) : Nat × Nat :=
  (log.length, (log.map fun row => row.record.length).sum)

def checkpointId (tables : Tables) : Nat :=
  tables.checkpoint.elim 0 Checkpoint.id

def checkpointUpto (tables : Tables) : Nat :=
  tables.checkpoint.elim 0 Checkpoint.uptoSeq

def millis (nowUnix : Int) : Int :=
  max (-(2 ^ 63)) (min (2 ^ 63 - 1) (nowUnix * 1000))

/-- Put a new checkpoint in the place of the present one.  A refusal rolls the transaction
back. -/
def commit (tables : Tables) (request : CommitRequest) (nowUnix : Int) :
    Except ErrorCode (Nat × Tables) := do
  demand (request.chunkSeqs.length ≤ maxChunks && request.summarySeq != 0 &&
    request.summarySeq ≤ request.uptoSeq) .invalid
  let upto ← toI64 request.uptoSeq
  let keep := request.keep
  demand (!keep.any fun seq => seq == 0 || request.uptoSeq < seq) .invalid
  demand (checkpointId tables == request.expectedCheckpointId) .duplicate
  demand (request.uptoSeq ≤ headSeq tables && checkpointUpto tables ≤ request.uptoSeq) .invalid
  -- What is kept has to be a chunk of this log.
  let chunks := (tables.log.filter fun row => row.chunk && row.seq ≤ upto).map Row.seq
  demand (keep.all fun seq => chunks.contains seq) .invalid
  let log ← deleteRanges 0 (keep ++ [request.uptoSeq + 1]) tables.log
  let id ← toI64 (checkpointId tables + 1)
  let summary ← toI64 request.summarySeq
  let chunkSeqs := keep.filter fun seq =>
    seq != request.summarySeq || request.chunkSeqs.contains seq
  -- The counters are taken again from what is left.
  let (records, bytes) := volume log
  return (id,
    { log
      head := tables.head.map fun head => { head with records, bytes }
      checkpoint := some
        { id
          uptoSeq := upto
          summarySeq := summary
          chunkSeqs
          createdMs := millis nowUnix } })

/-! ## The server and its calls -/

/-- An append that is under way.  Between its accesses to the database other requests
take place. -/
inductive Call
  | insert (request : AppendRequest)
  | reread (request : AppendRequest)
  deriving DecidableEq, Repr

structure Server where
  tables : Tables := {}
  calls : List Call := []
  deriving DecidableEq, Repr

/-- What happens at the server: requests arrive, and an append that is under way makes its
next access to the database or loses it. -/
inductive Event
  | append (request : AppendRequest)
  | resume (call : Call)
  | fail (call : Call)
  | sync (request : SyncRequest)
  | get (seqs : List Nat)
  | head
  | commit (request : CommitRequest) (nowUnix : Int)
  deriving DecidableEq, Repr

inductive Reply
  | underWay
  | appended (seq : Nat) (isNew : Bool)
  | page (response : SyncResponse)
  | records (rows : List Row)
  | head (headSeq : Nat) (checkpoint : Option Checkpoint)
  | committed (checkpointId : Nat)
  | refused (error : ErrorCode)
  deriving DecidableEq, Repr

def Server.finish (server : Server) (call : Call) : Server :=
  { server with calls := server.calls.erase call }

/-- The first part of an append: the checks and the search for a repeated identifier. -/
def appendNew (server : Server) (request : AppendRequest) : Server × Reply :=
  match (do checkAppend request; existing server.tables request) with
  | .error error => (server, .refused error)
  | .ok (some seq) => (server, .appended seq false)
  | .ok none => ({ server with calls := .insert request :: server.calls }, .underWay)

/-- The next part of an append: the transaction, or the search after it was rolled back. -/
def resume (limits : HistoryLimits) (server : Server) (call : Call) : Server × Reply :=
  match call with
  | .insert request =>
      match insertRecord limits server.tables request with
      | .error error => (server.finish call, .refused error)
      | .ok none =>
          ({ server.finish call with calls := .reread request :: (server.finish call).calls },
            .underWay)
      | .ok (some (seq, tables)) =>
          ({ server.finish call with tables := tables }, .appended seq true)
  | .reread request =>
      match existing server.tables request with
      | .error error => (server.finish call, .refused error)
      | .ok (some seq) => (server.finish call, .appended seq false)
      | .ok none => (server.finish call, .refused .duplicate)

def handle (limits : HistoryLimits) (server : Server) : Event -> Server × Reply
  | .append request => appendNew server request
  | .resume call => resume limits server call
  | .fail call => (server.finish call, .refused .unavailable)
  | .sync request =>
      match sync server.tables request with
      | .error error => (server, .refused error)
      | .ok response => (server, .page response)
  | .get seqs =>
      match get server.tables seqs with
      | .error error => (server, .refused error)
      | .ok rows => (server, .records rows)
  | .head => (server, .head (headSeq server.tables) server.tables.checkpoint)
  | .commit request nowUnix =>
      match commit server.tables request nowUnix with
      | .error error => (server, .refused error)
      | .ok (id, tables) => ({ server with tables := tables }, .committed id)

/-- Only a call that is under way goes on. -/
def Event.possible (server : Server) : Event -> Prop
  | .resume call => call ∈ server.calls
  | .fail call => call ∈ server.calls
  | _ => True

instance (server : Server) (event : Event) : Decidable (event.possible server) :=
  match event with
  | .append _ | .sync _ | .get _ | .head | .commit _ _ => isTrue trivial
  | .resume call => inferInstanceAs (Decidable (call ∈ server.calls))
  | .fail call => inferInstanceAs (Decidable (call ∈ server.calls))

/-- One step of the server, with the event and the reply. -/
def Step (limits : HistoryLimits) (server : Server) (label : Event × Reply) (next : Server) :
    Prop :=
  label.1.possible server ∧ handle limits server label.1 = (next, label.2)

end Parvane.HistoryServer
