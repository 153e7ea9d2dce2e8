import Parvane.Archive.Writer

/-!
# Reading an archive

An archive is read from its end: the end record says where the directory is, the directory where
the files are.  What was laid out is read back, and every number is read as it was written.
-/

namespace Parvane.Archive

open Wire (Bytes)
open Layout

/-- A file as it is read, with the numbers of the directory. -/
structure ZipEntryRead where
  name : Bytes
  data : Bytes
  crc : Nat
  size : Nat
  offset : Nat
  flags : Nat
  attr : Nat

def rd16 (bytes : Bytes) (position : Nat) : Nat :=
  readAt 2 position bytes

def rd32 (bytes : Bytes) (position : Nat) : Nat :=
  readAt 4 position bytes

/-- Read the file that the directory has at a position. -/
def readEntry (bytes : Bytes) (position : Nat) : Option ZipEntryRead :=
  let method := rd16 bytes (position + 10)
  let crc := rd32 bytes (position + 16)
  let size := rd32 bytes (position + 20)
  let nameLength := rd16 bytes (position + 28)
  let offset := rd32 bytes (position + 42)
  let name := slice (position + 46) nameLength bytes
  let localLength := rd16 bytes (offset + 26)
  let dataStart := offset + 30 + localLength + rd16 bytes (offset + 28)
  let data := slice dataStart size bytes
  let descriptor := dataStart + size
  if position + 46 ≤ bytes.length ∧ rd32 bytes position = kCentralSig ∧ method = 0 ∧
      rd32 bytes (position + 24) = size ∧ rd32 bytes offset = kLocalSig ∧
      slice (offset + 30) localLength bytes = name ∧
      rd32 bytes descriptor = kDescriptorSig ∧ rd32 bytes (descriptor + 4) = crc ∧
      rd32 bytes (descriptor + 8) = size ∧ rd32 bytes (descriptor + 12) = size ∧
      (crc32 data 0).toNat = crc then
    some ⟨name, data, crc, size, offset, rd16 bytes (position + 8), rd32 bytes (position + 38)⟩
  else none

/-- Read a number of files of the directory, one behind another. -/
def readEntries (bytes : Bytes) (count position : Nat) : Option (List ZipEntryRead) :=
  match count with
  | 0 => some []
  | count + 1 =>
      (readEntry bytes position).bind fun entry =>
        (readEntries bytes count (position + 46 + entry.name.length)).map fun rest =>
          entry :: rest

def readZip (bytes : Bytes) : Option (List ZipEntryRead) :=
  let last := bytes.length - 22
  let count := rd16 bytes (last + 10)
  let dirSize := rd32 bytes (last + 12)
  let start := rd32 bytes (last + 16)
  if 22 ≤ bytes.length ∧ rd32 bytes last = kEndSig ∧ rd16 bytes (last + 8) = count ∧
      start + dirSize = last then
    readEntries bytes count start
  else none

/-! ## The layout of an archive -/

/-- A file as it is written. -/
structure File where
  entry : Entry
  data : Bytes

def localRecord (file : File) : Bytes :=
  localHead file.entry ++ file.data ++ write (descriptorFields file.entry)

def localRecords (files : List File) : Bytes :=
  files.flatMap localRecord

def directory (files : List File) : Bytes :=
  files.flatMap fun file => centralHead file.entry

/-- The numbers of a file are those of its bytes, and fit their fields. -/
structure IsFile (file : File) : Prop where
  crc : file.entry.crc = crc32 file.data 0
  size : file.entry.size = file.data.length
  nameFits : file.entry.name.length ≤ 0xFFFF
  sizeFits : file.entry.size ≤ kMaxOffset
  offsetFits : file.entry.offset ≤ kMaxOffset

/-- Every file starts where the files before it end. -/
def Placed (files : List File) : Prop :=
  ∀ before file behind, files = before ++ file :: behind ->
    file.entry.offset = (localRecords before).length

/-- What is read of a file: nothing is cut off. -/
def readOf (file : File) : ZipEntryRead where
  name := file.entry.name
  data := file.data
  crc := file.entry.crc.toNat
  size := file.entry.size
  offset := file.entry.offset
  flags := kFlags
  attr := if file.entry.isDir then kDirAttr else 0

section

variable {bytes front back : Bytes} {entry : Entry} {file : File} {files : List File}
  {position start : Nat}

theorem width_localFields (entry : Entry) : width (localFields entry) = 30 := by
  simp [localFields]

theorem width_centralFields (entry : Entry) : width (centralFields entry) = 46 := by
  simp [centralFields]

theorem length_localHead (entry : Entry) : (localHead entry).length = 30 + entry.name.length := by
  rw [localHead, List.length_append, length_write, width_localFields]

theorem length_centralHead (entry : Entry) :
    (centralHead entry).length = 46 + entry.name.length := by
  rw [centralHead, List.length_append, length_write, width_centralFields]

/-- The numbers of the directory are read as they were written. -/
structure ReadsCentral (bytes : Bytes) (position : Nat) (entry : Entry) : Prop where
  inside : position + 46 ≤ bytes.length
  signature : rd32 bytes position = kCentralSig
  flags : rd16 bytes (position + 8) = kFlags
  method : rd16 bytes (position + 10) = 0
  crc : rd32 bytes (position + 16) = entry.crc.toNat
  size : rd32 bytes (position + 20) = entry.size
  again : rd32 bytes (position + 24) = entry.size
  nameLength : rd16 bytes (position + 28) = entry.name.length
  attr : rd32 bytes (position + 38) = if entry.isDir then kDirAttr else 0
  offset : rd32 bytes (position + 42) = entry.offset
  name : slice (position + 46) entry.name.length bytes = entry.name

theorem readsCentral
    (isFile : IsFile file)
    (isBytes : bytes = front ++ (centralHead file.entry ++ back))
    (isPosition : position = front.length) : ReadsCentral bytes position file.entry := by
  have crcFits := file.entry.crc.toNat_lt
  have sizeFits := isFile.sizeFits
  have offsetFits := isFile.offsetFits
  have nameFits := isFile.nameFits
  unfold kMaxOffset at sizeFits offsetFits
  rw [centralHead, List.append_assoc] at isBytes
  subst isBytes isPosition
  have attr : (if file.entry.isDir then kDirAttr else 0) < 256 ^ 4 := by
    split <;> decide
  constructor
  case inside =>
    rw [List.length_append, List.length_append, length_write, width_centralFields]
    omega
  case signature => exact readAt_first rfl (by decide)
  case flags => exact readAt_field 3 rfl (by simp [centralFields]) (by decide)
  case method => exact readAt_field 4 rfl (by simp [centralFields]) (by decide)
  case crc => exact readAt_field 7 rfl (by simp [centralFields]) (by omega)
  case size => exact readAt_field 8 rfl (by simp [centralFields]) (by omega)
  case again => exact readAt_field 9 rfl (by simp [centralFields]) (by omega)
  case nameLength => exact readAt_field 10 rfl (by simp [centralFields]) (by omega)
  case attr => exact readAt_field 15 rfl (by simp [centralFields]) attr
  case offset => exact readAt_field 16 rfl (by simp [centralFields]) (by omega)
  case name =>
    rw [← List.append_assoc]
    refine slice_append ?_ rfl
    rw [List.length_append, length_write, width_centralFields]

/-- The header of a file, its bytes and its descriptor are read as they were written. -/
structure ReadsLocal (bytes : Bytes) (file : File) : Prop where
  signature : rd32 bytes file.entry.offset = kLocalSig
  nameLength : rd16 bytes (file.entry.offset + 26) = file.entry.name.length
  noExtra : rd16 bytes (file.entry.offset + 28) = 0
  name : slice (file.entry.offset + 30) file.entry.name.length bytes = file.entry.name
  data : slice (file.entry.offset + 30 + file.entry.name.length) file.data.length bytes = file.data
  descriptor :
    let position := file.entry.offset + 30 + file.entry.name.length + file.data.length
    rd32 bytes position = kDescriptorSig ∧
      rd32 bytes (position + 4) = file.entry.crc.toNat ∧
      rd32 bytes (position + 8) = file.entry.size ∧
      rd32 bytes (position + 12) = file.entry.size

theorem readsLocal
    (isFile : IsFile file)
    (isBytes : bytes = front ++ (localRecord file ++ back))
    (isOffset : file.entry.offset = front.length) : ReadsLocal bytes file := by
  have crcFits := file.entry.crc.toNat_lt
  have sizeFits := isFile.sizeFits
  have nameFits := isFile.nameFits
  unfold kMaxOffset at sizeFits
  have fromHead : bytes = front ++ (write (localFields file.entry) ++
      (file.entry.name ++ (file.data ++ (write (descriptorFields file.entry) ++ back)))) := by
    rw [isBytes, localRecord, localHead]
    simp only [List.append_assoc]
  have fromName : bytes = (front ++ write (localFields file.entry)) ++
      (file.entry.name ++ (file.data ++ (write (descriptorFields file.entry) ++ back))) := by
    rw [fromHead, List.append_assoc]
  have fromData : bytes = (front ++ localHead file.entry) ++
      (file.data ++ (write (descriptorFields file.entry) ++ back)) := by
    rw [fromHead, localHead]
    simp only [List.append_assoc]
  have fromDescriptor : bytes = (front ++ localHead file.entry ++ file.data) ++
      (write (descriptorFields file.entry) ++ back) := by
    rw [fromData]
    simp only [List.append_assoc]
  constructor
  case signature =>
    rw [isOffset, fromHead]
    exact readAt_first rfl (by decide)
  case nameLength =>
    rw [isOffset, fromHead]
    exact readAt_field 9 rfl (by simp [localFields]) (by omega)
  case noExtra =>
    rw [isOffset, fromHead]
    exact readAt_field 10 rfl (by simp [localFields]) (by decide)
  case name =>
    rw [isOffset, fromName]
    refine slice_append ?_ rfl
    rw [List.length_append, length_write, width_localFields]
  case data =>
    rw [isOffset, fromData]
    refine slice_append ?_ rfl
    rw [List.length_append, length_localHead, Nat.add_assoc]
  case descriptor =>
    have position : front.length + 30 + file.entry.name.length + file.data.length =
        (front ++ localHead file.entry ++ file.data).length := by
      rw [List.length_append, List.length_append, length_localHead, Nat.add_assoc front.length]
    dsimp only
    rw [isOffset, fromDescriptor, position]
    exact ⟨readAt_first rfl (by decide),
      readAt_field 1 rfl (by simp [descriptorFields]) (by omega),
      readAt_field 2 rfl (by simp [descriptorFields]) (by omega),
      readAt_field 3 rfl (by simp [descriptorFields]) (by omega)⟩

theorem readEntry_eq
    (isFile : IsFile file) (central : ReadsCentral bytes position file.entry)
    (reads : ReadsLocal bytes file) : readEntry bytes position = some (readOf file) := by
  obtain ⟨signature, sameCrc, sameSize, again⟩ := reads.descriptor
  have size := isFile.size
  have noExtra : file.entry.offset + 30 + file.entry.name.length + 0 =
      file.entry.offset + 30 + file.entry.name.length := rfl
  rw [size] at sameSize again
  unfold readEntry
  dsimp only
  rw [central.signature, central.method, central.crc, central.size, central.again,
    central.nameLength, central.offset, central.name, central.flags, central.attr,
    reads.signature, reads.nameLength, reads.noExtra, noExtra, reads.name, size, reads.data,
    signature, sameCrc, sameSize, again, ← isFile.crc, if_pos]
  · rw [readOf, size]
  · exact ⟨central.inside, rfl, rfl, rfl, rfl, rfl, rfl, rfl, rfl, rfl, rfl⟩

theorem localRecords_append (files others : List File) :
    localRecords (files ++ others) = localRecords files ++ localRecords others :=
  List.flatMap_append

theorem directory_append (files others : List File) :
    directory (files ++ others) = directory files ++ directory others :=
  List.flatMap_append

theorem readsLocal_of_mem
    (isFile : ∀ file ∈ files, IsFile file) (placed : Placed files)
    (isBytes : bytes = localRecords files ++ back)
    (member : file ∈ files) : ReadsLocal bytes file := by
  obtain ⟨before, behind, cut⟩ := List.append_of_mem member
  refine @readsLocal _ (localRecords before) (localRecords behind ++ back) _ (isFile file member) ?_
    (placed before file behind cut)
  have fromFile : localRecords files =
      localRecords before ++ (localRecord file ++ localRecords behind) := by
    rw [cut, localRecords_append]
    rfl
  rw [isBytes, fromFile]
  simp only [List.append_assoc]

/-- The directory is read from any file on. -/
theorem readEntries_eq
    (isFile : ∀ file ∈ files, IsFile file) (placed : Placed files)
    (isBytes : bytes = localRecords files ++ (directory files ++ back))
    {before rest : List File} (cut : files = before ++ rest) :
    readEntries bytes rest.length ((localRecords files).length + (directory before).length) =
      some (rest.map readOf) := by
  induction rest generalizing before with
  | nil => rfl
  | cons file rest inductionHypothesis =>
      have member : file ∈ files := by
        rw [cut]
        exact List.mem_append_right _ List.mem_cons_self
      have wholeFile := isFile file member
      have central : ReadsCentral bytes
          ((localRecords files).length + (directory before).length) file.entry := by
        refine @readsCentral _ (localRecords files ++ directory before) (directory rest ++ back) _ _
          wholeFile ?_ List.length_append.symm
        have fromFile : directory files =
            directory before ++ (centralHead file.entry ++ directory rest) := by
          rw [cut, directory_append]
          rfl
        rw [isBytes, fromFile]
        simp only [List.append_assoc]
      have reads : ReadsLocal bytes file := readsLocal_of_mem isFile placed isBytes member
      have tail := @inductionHypothesis (before ++ [file]) (by rw [cut]; simp)
      have next : (localRecords files).length + (directory before).length + 46 +
          (readOf file).name.length =
          (localRecords files).length + (directory (before ++ [file])).length := by
        have one : directory [file] = centralHead file.entry := List.flatMap_singleton ..
        rw [directory_append, List.length_append, one, length_centralHead, readOf]
        dsimp only
        omega
      rw [List.length_cons, readEntries, readEntry_eq wholeFile central reads, Option.bind_some,
        next, tail]
      rfl

theorem width_endFields (count start stop : Nat) : width (endFields count start stop) = 22 := by
  simp [endFields]

/-- The end record is read as it was written. -/
structure ReadsEnd (bytes : Bytes) (files : List File) : Prop where
  size : bytes.length = (localRecords files ++ directory files).length + 22
  signature : rd32 bytes (localRecords files ++ directory files).length = kEndSig
  onDisk : rd16 bytes ((localRecords files ++ directory files).length + 8) = files.length
  count : rd16 bytes ((localRecords files ++ directory files).length + 10) = files.length
  dirSize : rd32 bytes ((localRecords files ++ directory files).length + 12) =
    (directory files).length
  start : rd32 bytes ((localRecords files ++ directory files).length + 16) =
    (localRecords files).length

theorem readsEnd
    (few : files.length < kZipMaxEntries)
    (fits : (localRecords files ++ directory files).length ≤ kMaxOffset)
    (isBytes : bytes = localRecords files ++ directory files ++
      write (endFields files.length (localRecords files).length
        (localRecords files ++ directory files).length)) : ReadsEnd bytes files := by
  have fromEnd : bytes = (localRecords files ++ directory files) ++
      (write (endFields files.length (localRecords files).length
        (localRecords files ++ directory files).length) ++ []) := by
    rw [isBytes, List.append_nil]
  have dirSize : (localRecords files ++ directory files).length - (localRecords files).length =
      (directory files).length := by
    rw [List.length_append, Nat.add_sub_cancel_left]
  have total : (localRecords files ++ directory files).length =
      (localRecords files).length + (directory files).length :=
    List.length_append
  unfold kZipMaxEntries at few
  unfold kMaxOffset at fits
  constructor
  case size => rw [isBytes, List.length_append, length_write, width_endFields]
  case signature =>
    rw [fromEnd]
    exact readAt_first rfl (by decide)
  case onDisk =>
    rw [fromEnd]
    exact readAt_field 3 rfl (by simp [endFields]) (by omega)
  case count =>
    rw [fromEnd]
    exact readAt_field 4 rfl (by simp [endFields]) (by omega)
  case dirSize =>
    rw [fromEnd, ← dirSize]
    exact readAt_field 5 rfl (by simp [endFields]) (by omega)
  case start =>
    rw [fromEnd]
    exact readAt_field 6 rfl (by simp [endFields]) (by omega)

/-- What was laid out is read back. -/
theorem readZip_eq
    (isFile : ∀ file ∈ files, IsFile file) (placed : Placed files)
    (few : files.length < kZipMaxEntries)
    (fits : (localRecords files ++ directory files).length ≤ kMaxOffset)
    (isBytes : bytes = localRecords files ++ directory files ++
      write (endFields files.length (localRecords files).length
        (localRecords files ++ directory files).length)) :
    readZip bytes = some (files.map readOf) := by
  have reads := readsEnd few fits isBytes
  have last : bytes.length - 22 = (localRecords files ++ directory files).length := by
    rw [reads.size, Nat.add_sub_cancel]
  have entries := @readEntries_eq bytes _ files isFile placed
    (by rw [isBytes, List.append_assoc]) [] files rfl
  rw [show directory ([] : List File) = [] from rfl, List.length_nil, Nat.add_zero] at entries
  unfold readZip
  dsimp only
  rw [last, reads.signature, reads.onDisk, reads.count, reads.dirSize, reads.start, if_pos, entries]
  refine ⟨?_, rfl, rfl, List.length_append.symm⟩
  rw [reads.size]
  exact Nat.le_add_left _ _

end

end Parvane.Archive
