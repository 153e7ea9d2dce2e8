import Parvane.Foundation.Fields

/-!
# Writing an archive

Files are stored without compression.  The header of a file is written before its bytes are known;
the checksum and the size follow them in a descriptor, and once more in the directory at the end.
-/

namespace Parvane.Archive

open Wire (Bytes)
open Layout

def kLocalSig : Nat := 0x04034b50

def kDescriptorSig : Nat := 0x08074b50

def kCentralSig : Nat := 0x02014b50

def kEndSig : Nat := 0x06054b50

def kVersion : Nat := 20

def kFlags : Nat := 0x0808

def kMaxOffset : Nat := 0xFFFFFFFF

def kDirAttr : Nat := 0x10

/-- Room is left for headers and the directory. -/
def kZipMaxBytes : Nat := 0xFFFFFFFF - 64 * 1024 * 1024

def kZipMaxEntries : Nat := 0xFFFF

inductive ExportErrorCode
  | canceled
  | tooLarge
  | failed
  deriving DecidableEq

def exportErrorCodeName (code : ExportErrorCode) : String :=
  match code with
  | .canceled => "canceled"
  | .tooLarge => "too-large"
  | .failed => "failed"

structure ExportError where
  code : ExportErrorCode
  message : Bytes
  deriving DecidableEq

def exportError (code : ExportErrorCode) (message : Bytes) : ExportError :=
  ⟨code, if message.isEmpty then Wire.utf8 (exportErrorCodeName code) else message⟩

abbrev Result :=
  Except ExportError

/-! ## Checksums -/

def crcBit (c : UInt32) : UInt32 :=
  if c &&& 1 = 1 then (0xEDB88320 : UInt32) ^^^ (c >>> 1) else c >>> 1

/-- The entry of a byte in the table. -/
def crcTable (n : UInt8) : UInt32 :=
  Nat.iterate crcBit 8 n.toUInt32

def crcByte (c : UInt32) (byte : UInt8) : UInt32 :=
  crcTable (c.toUInt8 ^^^ byte) ^^^ (c >>> 8)

/-- The checksum of bytes behind others, which have a checksum already. -/
def crc32 (bytes : Bytes) (crc : UInt32) : UInt32 :=
  bytes.foldl crcByte (crc ^^^ 0xFFFFFFFF) ^^^ 0xFFFFFFFF

/-! ## Headers -/

structure ZipTime where
  year : Int := 1980
  month : Int := 1
  day : Int := 1
  hour : Int := 0
  minute : Int := 0
  second : Int := 0

/-- Sixteen bits of a time and of a date. -/
def dosDateTime (at_ : ZipTime) : BitVec 16 × BitVec 16 :=
  let time := BitVec.ofInt 32 at_.hour <<< 11 ||| BitVec.ofInt 32 at_.minute <<< 5 |||
    BitVec.ofInt 32 (at_.second.tdiv 2)
  let date := BitVec.ofInt 32 (max 0 (at_.year - 1980)) <<< 9 |||
    BitVec.ofInt 32 at_.month <<< 5 ||| BitVec.ofInt 32 at_.day
  (time.setWidth 16, date.setWidth 16)

structure Entry where
  name : Bytes
  crc : UInt32 := 0
  size : Nat := 0
  offset : Nat := 0
  isDir : Bool := false
  time : BitVec 16 := 0
  date : BitVec 16 := 0

def le16 (value : Nat) : Field :=
  ⟨2, value⟩

def le32 (value : Nat) : Field :=
  ⟨4, value⟩

@[simp] theorem width_le16 (value : Nat) : (le16 value).width = 2 :=
  rfl

@[simp] theorem width_le32 (value : Nat) : (le32 value).width = 4 :=
  rfl

def localFields (entry : Entry) : List Field :=
  [le32 kLocalSig, le16 kVersion, le16 kFlags, le16 0, le16 entry.time.toNat,
    le16 entry.date.toNat, le32 0, le32 0, le32 0, le16 entry.name.length, le16 0]

def localHead (entry : Entry) : Bytes :=
  write (localFields entry) ++ entry.name

def descriptorFields (entry : Entry) : List Field :=
  [le32 kDescriptorSig, le32 entry.crc.toNat, le32 entry.size, le32 entry.size]

def centralFields (entry : Entry) : List Field :=
  [le32 kCentralSig, le16 kVersion, le16 kVersion, le16 kFlags, le16 0, le16 entry.time.toNat,
    le16 entry.date.toNat, le32 entry.crc.toNat, le32 entry.size, le32 entry.size,
    le16 entry.name.length, le16 0, le16 0, le16 0, le16 0,
    le32 (if entry.isDir then kDirAttr else 0), le32 entry.offset]

def centralHead (entry : Entry) : Bytes :=
  write (centralFields entry) ++ entry.name

def endFields (count start stop : Nat) : List Field :=
  [le32 kEndSig, le16 0, le16 0, le16 count, le16 count, le32 (stop - start), le32 start, le16 0]

/-! ## The writer -/

/-- The bytes that were put out, with what the writer remembers of them.  It asks again and again
whether it is canceled; the answers come one after another. -/
structure ZipWriter where
  out : Bytes
  at_ : ZipTime
  canceled : Nat -> Bool
  asked : Nat
  entries : List Entry
  paths : List Bytes
  offset : Nat
  isOpen : Bool
  finished : Bool

def openWriter (at_ : ZipTime) (canceled : Nat -> Bool) : ZipWriter where
  out := []
  at_ := at_
  canceled := canceled
  asked := 0
  entries := []
  paths := []
  offset := 0
  isOpen := false
  finished := false

def ZipWriter.put (writer : ZipWriter) (bytes : Bytes) : ZipWriter :=
  { writer with out := writer.out ++ bytes, offset := writer.offset + bytes.length }

def failure (message : String) : ExportError :=
  exportError .failed (Wire.utf8 message)

def require (condition : Bool) (error : ExportError) : Result Unit :=
  if condition then .ok () else .error error

def ZipWriter.checkCanceled (writer : ZipWriter) : Result ZipWriter :=
  if writer.canceled writer.asked then .error (exportError .canceled [])
  else .ok { writer with asked := writer.asked + 1 }

def ZipWriter.begin
    (writer : ZipWriter) (path : Bytes) (isDir : Bool) (mtime : Option ZipTime)
    (size : Nat) : Result ZipWriter := do
  let writer ← writer.checkCanceled
  require (!writer.finished) (failure "zip: archive is finished")
  require (!writer.isOpen) (failure "zip: previous entry is not closed")
  let name := if isDir then path ++ Wire.utf8 "/" else path
  require (!writer.paths.contains name)
    (exportError .failed (Wire.utf8 "duplicate path " ++ path))
  require (name.length ≤ 0xFFFF) (failure "zip: name is too long")
  require (writer.entries.length + 1 < kZipMaxEntries) (exportError .tooLarge [])
  require (writer.offset + size ≤ kZipMaxBytes) (exportError .tooLarge [])
  let stamp := dosDateTime (mtime.getD writer.at_)
  let entry : Entry :=
    { name := name, offset := writer.offset, isDir := isDir, time := stamp.1, date := stamp.2 }
  let writer := { writer with
    paths := name :: writer.paths
    entries := writer.entries ++ [entry] }
  return writer.put (localHead entry)

/-- Add bytes to the last file. -/
def Entry.add (entry : Entry) (bytes : Bytes) : Entry :=
  { entry with crc := crc32 bytes entry.crc, size := entry.size + bytes.length }

def ZipWriter.write (writer : ZipWriter) (bytes : Bytes) : Result ZipWriter := do
  require writer.isOpen (failure "zip: no open entry")
  let writer ← writer.checkCanceled
  let entries :=
    match writer.entries.getLast? with
    | none => []
    | some entry => writer.entries.dropLast ++ [entry.add bytes]
  let writer := { writer with entries := entries }.put bytes
  let size := (entries.getLast?.map Entry.size).getD 0
  require (writer.offset ≤ kZipMaxBytes && size ≤ kMaxOffset) (exportError .tooLarge [])
  return writer

def ZipWriter.closeFile (writer : ZipWriter) : Result ZipWriter := do
  require writer.isOpen (failure "zip: no open entry")
  let writer := { writer with isOpen := false }
  let tail :=
    match writer.entries.getLast? with
    | none => []
    | some entry => Layout.write (descriptorFields entry)
  return writer.put tail

def ZipWriter.addDir
    (writer : ZipWriter) (path : Bytes) (mtime : Option ZipTime) : Result ZipWriter := do
  let writer ← writer.begin path true mtime 0
  { writer with isOpen := true }.closeFile

def ZipWriter.beginFile
    (writer : ZipWriter) (path : Bytes) (mtime : Option ZipTime) : Result ZipWriter := do
  let writer ← writer.begin path false mtime 0
  return { writer with isOpen := true }

def ZipWriter.addBytes
    (writer : ZipWriter) (path bytes : Bytes) (mtime : Option ZipTime) : Result ZipWriter := do
  let writer ← writer.begin path false mtime bytes.length
  let writer ← { writer with isOpen := true }.write bytes
  writer.closeFile

/-- An empty chunk is left out. -/
def ZipWriter.writeChunk (writer : ZipWriter) (chunk : Bytes) : Result ZipWriter :=
  if chunk.isEmpty then .ok writer else writer.write chunk

/-- Write the chunks of a source until it has no more. -/
def ZipWriter.writeChunks (writer : ZipWriter) (chunks : List Bytes) : Result ZipWriter := do
  let writer ← writer.checkCanceled
  match chunks with
  | [] => return writer
  | chunk :: rest =>
      let writer ← writer.writeChunk chunk
      writer.writeChunks rest

def ZipWriter.addChunks
    (writer : ZipWriter) (path : Bytes) (chunks : List Bytes)
    (mtime : Option ZipTime) : Result ZipWriter := do
  let writer ← writer.beginFile path mtime
  let writer ← writer.writeChunks chunks
  writer.closeFile

def ZipWriter.finish (writer : ZipWriter) : Result ZipWriter := do
  let writer ← writer.checkCanceled
  require (!writer.isOpen) (failure "zip: previous entry is not closed")
  require (!writer.finished) (failure "zip: archive is finished")
  let start := writer.offset
  let writer := writer.entries.foldl (fun writer entry => writer.put (centralHead entry)) writer
  require (writer.offset ≤ kMaxOffset) (exportError .tooLarge [])
  let writer := writer.put
    (Layout.write (endFields writer.entries.length start writer.offset))
  return { writer with finished := true }

/-! ## Runs -/

inductive ZipCall
  | addDir (path : Bytes) (mtime : Option ZipTime)
  | beginFile (path : Bytes) (mtime : Option ZipTime)
  | write (bytes : Bytes)
  | closeFile
  | addBytes (path bytes : Bytes) (mtime : Option ZipTime)
  | addChunks (path : Bytes) (chunks : List Bytes) (mtime : Option ZipTime)

def ZipWriter.step (writer : ZipWriter) (call : ZipCall) : Result ZipWriter :=
  match call with
  | .addDir path mtime => writer.addDir path mtime
  | .beginFile path mtime => writer.beginFile path mtime
  | .write bytes => writer.write bytes
  | .closeFile => writer.closeFile
  | .addBytes path bytes mtime => writer.addBytes path bytes mtime
  | .addChunks path chunks mtime => writer.addChunks path chunks mtime

/-- Calls one after another, and the end of the archive. -/
def ZipWriter.run (writer : ZipWriter) (calls : List ZipCall) : Result ZipWriter := do
  let writer ← calls.foldlM ZipWriter.step writer
  writer.finish

/-- The checksum of a text that every implementation is tried on. -/
example : crc32 (Wire.utf8 "123456789") 0 = 0xcbf43926 := by
  decide +kernel

theorem crc32_nil (crc : UInt32) : crc32 [] crc = crc := by
  rw [crc32, List.foldl_nil, UInt32.xor_assoc, UInt32.xor_self, UInt32.xor_zero]

/-- The checksum does not depend on how the bytes are cut. -/
theorem crc32_append (first second : Bytes) (crc : UInt32) :
    crc32 (first ++ second) crc = crc32 second (crc32 first crc) := by
  unfold crc32
  rw [List.foldl_append, UInt32.xor_assoc, UInt32.xor_self, UInt32.xor_zero]

theorem crc32_flatten (chunks : List Bytes) (crc : UInt32) :
    chunks.foldl (fun crc chunk => crc32 chunk crc) crc = crc32 chunks.flatten crc := by
  induction chunks generalizing crc with
  | nil => rw [List.foldl_nil, List.flatten_nil, crc32_nil]
  | cons chunk rest inductionHypothesis =>
      rw [List.foldl_cons, inductionHypothesis, List.flatten_cons, crc32_append]

end Parvane.Archive
