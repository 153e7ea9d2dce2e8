import Parvane.Archive.Reader
import Parvane.Core

/-!
# What an archive gives back

While it is written, an archive is the records of its files, and the last one may be open.  At the
end it has everything that a reader looks for, so it gives back what was written.
-/

namespace Parvane.Archive

open Wire (Bytes)
open Layout

section

variable {writer next : ZipWriter} {files : List File} {file : File} {path name data bytes : Bytes}

/-! ## Invariants -/

/-- What was put out is a layout of files, the numbers of which are right. -/
structure Laid (writer : ZipWriter) (files : List File) (written : Bytes) : Prop where
  out : writer.out = written
  offset : writer.offset = written.length
  entries : writer.entries = files.map File.entry
  isFile : ∀ file ∈ files, IsFile file
  placed : Placed files
  few : files.length < kZipMaxEntries
  unfinished : writer.finished = false

/-- Every file is written to its end. -/
structure Closed (writer : ZipWriter) (files : List File) : Prop where
  laid : Laid writer files (localRecords files)
  isOpen : writer.isOpen = false

/-- The last file is still written. -/
structure Opened (writer : ZipWriter) (files : List File) (file : File) : Prop where
  laid : Laid writer (files ++ [file]) (localRecords files ++ localHead file.entry ++ file.data)
  isOpen : writer.isOpen = true

/-- Some file of a name has these bytes so far. -/
def Writing (writer : ZipWriter) (files : List File) (name data : Bytes) : Prop :=
  ∃ file, file.entry.name = name ∧ file.data = data ∧ Opened writer files file

theorem Laid.congr {written : Bytes}
    (laid : Laid writer files written) (sameOut : next.out = writer.out)
    (sameOffset : next.offset = writer.offset) (sameEntries : next.entries = writer.entries)
    (sameFinished : next.finished = writer.finished) : Laid next files written where
  out := sameOut.trans laid.out
  offset := sameOffset.trans laid.offset
  entries := sameEntries.trans laid.entries
  isFile := laid.isFile
  placed := laid.placed
  few := laid.few
  unfinished := sameFinished.trans laid.unfinished

/-- A file behind others starts where they end. -/
theorem placed_concat :
    Placed (files ++ [file]) ↔
      Placed files ∧ file.entry.offset = (localRecords files).length := by
  constructor
  · intro placed
    refine ⟨fun before other behind cut => ?_, placed files file [] rfl⟩
    refine placed before other (behind ++ [file]) ?_
    rw [cut, List.append_assoc, List.cons_append]
  · rintro ⟨placed, atEnd⟩ before other behind cut
    rcases List.eq_nil_or_concat behind with rfl | ⟨middle, last, rfl⟩
    · obtain ⟨rfl, same⟩ := List.append_inj' cut rfl
      cases same
      exact atEnd
    · rw [List.concat_eq_append, ← List.cons_append, ← List.append_assoc] at cut
      obtain ⟨rfl, -⟩ := List.append_inj' cut rfl
      exact placed before other middle rfl

theorem entries_concat :
    (files ++ [file]).map File.entry = files.map File.entry ++ [file.entry] := by
  rw [List.map_append, List.map_singleton]

/-! ## Steps -/

@[simp] theorem require_eq_ok {condition : Bool} {error : ExportError} {value : Unit} :
    require condition error = .ok value ↔ condition = true := by
  cases condition <;> simp [require]

theorem checkCanceled_eq_ok :
    writer.checkCanceled = .ok next ↔
      writer.canceled writer.asked = false ∧ next = { writer with asked := writer.asked + 1 } := by
  unfold ZipWriter.checkCanceled
  cases writer.canceled writer.asked <;> simp [eq_comm]

/-- A new file starts where the writer is, with nothing written. -/
structure Begins (writer next : ZipWriter) (name : Bytes) (size : Nat) (entry : Entry) : Prop where
  sameName : entry.name = name
  crc : entry.crc = 0
  noSize : entry.size = 0
  offset : entry.offset = writer.offset
  nameFits : name.length ≤ 0xFFFF
  few : writer.entries.length + 1 < kZipMaxEntries
  fits : writer.offset + size ≤ kZipMaxBytes
  isOpen : writer.isOpen = false
  unfinished : writer.finished = false
  nextOut : next.out = writer.out ++ localHead entry
  nextOffset : next.offset = writer.offset + (localHead entry).length
  nextEntries : next.entries = writer.entries ++ [entry]
  nextFinished : next.finished = false

theorem begin_spec {isDir : Bool} {mtime : Option ZipTime} {size : Nat}
    (began : writer.begin path isDir mtime size = .ok next) :
    ∃ entry, Begins writer next (if isDir then path ++ Wire.utf8 "/" else path) size entry := by
  unfold ZipWriter.begin at began
  simp only [bind_eq_ok, require_eq_ok, checkCanceled_eq_ok, decide_eq_true_eq,
    Bool.not_eq_true'] at began
  obtain ⟨asked, ⟨-, rfl⟩, -, unfinished, -, isOpen, -, -, -, nameFits, -, few, -, fits, isNext⟩ :=
    began
  cases isNext
  exact ⟨_, rfl, rfl, rfl, rfl, nameFits, few, fits, isOpen, unfinished, rfl, rfl, rfl, unfinished⟩

/-- After a new file has begun, it is the last one, and open. -/
theorem Closed.begin {name : Bytes} {size : Nat} {entry : Entry}
    (closed : Closed writer files) (begins : Begins writer next name size entry) :
    Writing { next with isOpen := true } files name [] := by
  have laid := closed.laid
  have fits := begins.fits
  refine ⟨⟨entry, []⟩, begins.sameName, rfl, ?_, rfl⟩
  constructor
  case out =>
    rw [List.append_nil, ← laid.out]
    exact begins.nextOut
  case offset =>
    rw [List.append_nil, List.length_append, ← laid.offset]
    exact begins.nextOffset
  case entries =>
    rw [entries_concat, ← laid.entries]
    exact begins.nextEntries
  case isFile =>
    intro other member
    rcases List.mem_append.1 member with isOld | isNew
    · exact laid.isFile other isOld
    · rw [List.mem_singleton.1 isNew]
      constructor
      case crc =>
        dsimp only
        rw [crc32_nil]
        exact begins.crc
      case size => exact begins.noSize
      case nameFits =>
        dsimp only
        rw [begins.sameName]
        exact begins.nameFits
      case sizeFits =>
        dsimp only
        rw [begins.noSize]
        exact Nat.zero_le _
      case offsetFits =>
        dsimp only
        rw [begins.offset]
        unfold kMaxOffset kZipMaxBytes at *
        omega
  case placed =>
    refine placed_concat.2 ⟨laid.placed, ?_⟩
    rw [← laid.offset]
    exact begins.offset
  case few =>
    have few := begins.few
    rw [laid.entries, List.length_map] at few
    rwa [List.length_append]
  case unfinished => exact begins.nextFinished

theorem write_spec
    (writing : Writing writer files name data)
    (wrote : writer.write bytes = .ok next) : Writing next files name (data ++ bytes) := by
  obtain ⟨file, rfl, rfl, laid, isOpen⟩ := writing
  have last : writer.entries.getLast? = some file.entry := by
    rw [laid.entries, entries_concat, List.getLast?_concat]
  have front : writer.entries.dropLast = files.map File.entry := by
    rw [laid.entries, entries_concat, List.dropLast_concat]
  unfold ZipWriter.write at wrote
  simp only [bind_eq_ok, require_eq_ok, checkCanceled_eq_ok, isOpen, true_and] at wrote
  obtain ⟨-, asked, ⟨-, rfl⟩, -, fits, isNext⟩ := wrote
  dsimp only at fits isNext
  rw [last] at fits isNext
  dsimp only at fits isNext
  rw [front] at fits isNext
  rw [List.getLast?_concat, Option.map_some, Option.getD_some, Bool.and_eq_true, decide_eq_true_eq,
    decide_eq_true_eq] at fits
  cases isNext
  refine ⟨⟨file.entry.add bytes, file.data ++ bytes⟩, rfl, rfl, ?_, rfl⟩
  have isOld := laid.isFile file (List.mem_append_right _ List.mem_cons_self)
  have records : localRecords files ++ localHead (file.entry.add bytes) ++ (file.data ++ bytes) =
      localRecords files ++ localHead file.entry ++ file.data ++ bytes := by
    have sameHead : localHead (file.entry.add bytes) = localHead file.entry := rfl
    rw [sameHead, ← List.append_assoc]
  constructor
  case out =>
    dsimp only [ZipWriter.put]
    rw [laid.out, records]
  case offset =>
    dsimp only [ZipWriter.put]
    rw [laid.offset, ← List.length_append, records]
  case entries =>
    rw [entries_concat]
    rfl
  case isFile =>
    intro other member
    rcases List.mem_append.1 member with isBefore | isLast
    · exact laid.isFile other (List.mem_append_left _ isBefore)
    · rw [List.mem_singleton.1 isLast]
      constructor
      case crc =>
        dsimp only [Entry.add]
        rw [isOld.crc, crc32_append]
      case size =>
        dsimp only [Entry.add]
        rw [isOld.size, List.length_append]
      case nameFits => exact isOld.nameFits
      case sizeFits => exact fits.2
      case offsetFits => exact isOld.offsetFits
  case placed =>
    obtain ⟨placed, atEnd⟩ := placed_concat.1 laid.placed
    exact placed_concat.2 ⟨placed, atEnd⟩
  case few =>
    have few := laid.few
    rwa [List.length_append] at few ⊢
  case unfinished => exact laid.unfinished

theorem closeFile_spec
    (writing : Writing writer files name data) (closed : writer.closeFile = .ok next) :
    ∃ file, file.entry.name = name ∧ file.data = data ∧ Closed next (files ++ [file]) := by
  obtain ⟨file, rfl, rfl, laid, isOpen⟩ := writing
  have last : writer.entries.getLast? = some file.entry := by
    rw [laid.entries, entries_concat, List.getLast?_concat]
  unfold ZipWriter.closeFile at closed
  simp only [bind_eq_ok, require_eq_ok, isOpen, true_and] at closed
  obtain ⟨-, isNext⟩ := closed
  rw [last] at isNext
  cases isNext
  have records : localRecords (files ++ [file]) =
      localRecords files ++ localHead file.entry ++ file.data ++
        write (descriptorFields file.entry) := by
    have one : localRecords [file] = localRecord file := List.flatMap_singleton ..
    rw [localRecords_append, one, localRecord]
    simp only [List.append_assoc]
  refine ⟨file, rfl, rfl, ?_, rfl⟩
  constructor
  case out =>
    dsimp only [ZipWriter.put]
    rw [laid.out, records]
  case offset =>
    dsimp only [ZipWriter.put]
    rw [laid.offset, ← List.length_append, records]
  case entries => exact laid.entries
  case isFile => exact laid.isFile
  case placed => exact laid.placed
  case few => exact laid.few
  case unfinished => exact laid.unfinished

theorem writeChunks_spec {chunks : List Bytes}
    (writing : Writing writer files name data) (wrote : writer.writeChunks chunks = .ok next) :
    Writing next files name (data ++ chunks.flatten) := by
  have asked {writer next : ZipWriter} {data : Bytes}
      (writing : Writing writer files name data)
      (notCanceled : writer.checkCanceled = .ok next) : Writing next files name data := by
    obtain ⟨file, sameName, sameData, laid, isOpen⟩ := writing
    obtain ⟨-, rfl⟩ := checkCanceled_eq_ok.1 notCanceled
    exact ⟨file, sameName, sameData, laid.congr rfl rfl rfl rfl, isOpen⟩
  induction chunks generalizing writer data with
  | nil =>
      rw [ZipWriter.writeChunks, bind_eq_ok] at wrote
      obtain ⟨middle, notCanceled, isNext⟩ := wrote
      cases isNext
      rw [List.flatten_nil, List.append_nil]
      exact asked writing notCanceled
  | cons chunk rest inductionHypothesis =>
      rw [ZipWriter.writeChunks, bind_eq_ok] at wrote
      obtain ⟨middle, notCanceled, wrote⟩ := wrote
      have stillWriting := asked writing notCanceled
      obtain ⟨later, wroteChunk, wroteRest⟩ := (bind_eq_ok _ _ _).1 wrote
      rw [List.flatten_cons, ← List.append_assoc]
      refine inductionHypothesis ?_ wroteRest
      unfold ZipWriter.writeChunk at wroteChunk
      split at wroteChunk
      case isTrue empty =>
        cases wroteChunk
        rw [List.isEmpty_iff.1 empty, List.append_nil]
        exact stillWriting
      case isFalse => exact write_spec stillWriting wroteChunk

/-! ## Calls -/

/-- The files with their names and bytes after a call, the last of which may be open. -/
def contentsAfter (contents : List (Bytes × Bytes)) (call : ZipCall) : List (Bytes × Bytes) :=
  match call with
  | .addDir path _ => contents ++ [(path ++ Wire.utf8 "/", [])]
  | .beginFile path _ => contents ++ [(path, [])]
  | .write bytes =>
      match contents.getLast? with
      | none => contents
      | some (name, data) => contents.dropLast ++ [(name, data ++ bytes)]
  | .closeFile => contents
  | .addBytes path bytes _ => contents ++ [(path, bytes)]
  | .addChunks path chunks _ => contents ++ [(path, chunks.flatten)]

/-- What was written by calls, in order. -/
def contentsOf (calls : List ZipCall) : List (Bytes × Bytes) :=
  calls.foldl contentsAfter []

def named (files : List File) : List (Bytes × Bytes) :=
  files.map fun file => (file.entry.name, file.data)

/-- The writer has written these names and bytes. -/
def Holds (writer : ZipWriter) (contents : List (Bytes × Bytes)) : Prop :=
  (∃ files, Closed writer files ∧ named files = contents) ∨
    ∃ files name data, Writing writer files name data ∧ contents = named files ++ [(name, data)]

theorem named_concat : named (files ++ [file]) = named files ++ [(file.entry.name, file.data)] := by
  rw [named, List.map_append, List.map_singleton, named]

variable {contents : List (Bytes × Bytes)}

theorem closed_of_not_isOpen
    (holds : Holds writer contents)
    (notOpen : writer.isOpen = false) : ∃ files, Closed writer files ∧ named files = contents := by
  rcases holds with closed | ⟨files, name, data, ⟨file, -, -, -, isOpen⟩, -⟩
  · exact closed
  · rw [isOpen] at notOpen
    cases notOpen

theorem writing_of_isOpen
    (holds : Holds writer contents) (isOpen : writer.isOpen = true) :
    ∃ files name data,
      Writing writer files name data ∧ contents = named files ++ [(name, data)] := by
  rcases holds with ⟨files, closed, -⟩ | writing
  · rw [closed.isOpen] at isOpen
    cases isOpen
  · exact writing

theorem step_spec {call : ZipCall}
    (holds : Holds writer contents)
    (stepped : writer.step call = .ok next) : Holds next (contentsAfter contents call) := by
  have begun {path : Bytes} {isDir : Bool} {mtime : Option ZipTime} {size : Nat}
      {middle : ZipWriter} (began : writer.begin path isDir mtime size = .ok middle) :
      ∃ files, named files = contents ∧
        Writing { middle with isOpen := true } files
          (if isDir then path ++ Wire.utf8 "/" else path) [] := by
    obtain ⟨entry, begins⟩ := begin_spec began
    obtain ⟨files, closed, same⟩ := closed_of_not_isOpen holds begins.isOpen
    exact ⟨files, same, closed.begin begins⟩
  have finished {files : List File} {name data : Bytes} {middle : ZipWriter}
      (same : named files = contents)
      (writing : Writing middle files name data)
      (closed : middle.closeFile = .ok next) : Holds next (contents ++ [(name, data)]) := by
    obtain ⟨file, rfl, rfl, isClosed⟩ := closeFile_spec writing closed
    exact .inl ⟨_, isClosed, by rw [named_concat, same]⟩
  cases call with
  | addDir path mtime =>
      obtain ⟨middle, began, closed⟩ := (bind_eq_ok _ _ _).1 stepped
      obtain ⟨files, same, writing⟩ := begun began
      exact finished same writing closed
  | beginFile path mtime =>
      obtain ⟨middle, began, isNext⟩ := (bind_eq_ok _ _ _).1 stepped
      obtain ⟨files, same, writing⟩ := begun began
      cases isNext
      exact .inr ⟨files, path, [], writing, by rw [contentsAfter, same]⟩
  | write bytes =>
      have isOpen : writer.isOpen = true := by
        obtain ⟨_, required, -⟩ := (bind_eq_ok _ _ _).1 stepped
        exact require_eq_ok.1 required
      obtain ⟨files, name, data, writing, rfl⟩ := writing_of_isOpen holds isOpen
      refine .inr ⟨files, name, data ++ bytes, write_spec writing stepped, ?_⟩
      rw [contentsAfter, List.getLast?_concat]
      dsimp only
      rw [List.dropLast_concat]
  | closeFile =>
      have isOpen : writer.isOpen = true := by
        obtain ⟨_, required, -⟩ := (bind_eq_ok _ _ _).1 stepped
        exact require_eq_ok.1 required
      obtain ⟨files, name, data, writing, rfl⟩ := writing_of_isOpen holds isOpen
      obtain ⟨file, rfl, rfl, isClosed⟩ := closeFile_spec writing stepped
      exact .inl ⟨_, isClosed, named_concat⟩
  | addBytes path bytes mtime =>
      obtain ⟨middle, began, stepped⟩ := (bind_eq_ok _ _ _).1 stepped
      obtain ⟨later, wrote, closed⟩ := (bind_eq_ok _ _ _).1 stepped
      obtain ⟨files, same, writing⟩ := begun began
      exact finished same (write_spec writing wrote) closed
  | addChunks path chunks mtime =>
      obtain ⟨opened, began, stepped⟩ := (bind_eq_ok _ _ _).1 stepped
      obtain ⟨middle, began, isOpened⟩ := (bind_eq_ok _ _ _).1 began
      obtain ⟨later, wrote, closed⟩ := (bind_eq_ok _ _ _).1 stepped
      obtain ⟨files, same, writing⟩ := begun began
      cases isOpened
      exact finished same (writeChunks_spec writing wrote) closed

theorem run_spec {calls : List ZipCall}
    (holds : Holds writer contents) (ran : calls.foldlM ZipWriter.step writer = .ok next) :
    Holds next (calls.foldl contentsAfter contents) := by
  induction calls generalizing writer contents with
  | nil =>
      cases ran
      exact holds
  | cons call rest inductionHypothesis =>
      rw [List.foldlM_cons, bind_eq_ok] at ran
      obtain ⟨middle, stepped, ranRest⟩ := ran
      exact inductionHypothesis (step_spec holds stepped) ranRest

theorem holds_openWriter (at_ : ZipTime) (canceled : Nat -> Bool) :
    Holds (openWriter at_ canceled) [] := by
  refine .inl ⟨[], ⟨⟨rfl, rfl, rfl, ?_, ?_, by decide, rfl⟩, rfl⟩, rfl⟩
  · intro file member
    exact absurd member List.not_mem_nil
  · intro before file behind cut
    cases before <;> cases cut

/-! ## The end -/

theorem put_put (writer : ZipWriter) (first second : Bytes) :
    (writer.put first).put second = writer.put (first ++ second) := by
  unfold ZipWriter.put
  rw [List.append_assoc, List.length_append, Nat.add_assoc]

theorem foldl_put (writer : ZipWriter) (files : List File) :
    (files.map File.entry).foldl (fun writer entry => writer.put (centralHead entry)) writer =
      writer.put (directory files) := by
  induction files generalizing writer with
  | nil =>
      have nothing : writer.put [] = writer := by
        unfold ZipWriter.put
        rw [List.append_nil]
        rfl
      exact nothing.symm
  | cons file rest inductionHypothesis =>
      rw [List.map_cons, List.foldl_cons, inductionHypothesis, put_put]
      rfl

/-- The end of an archive: the directory and the end record behind the files. -/
theorem finish_spec
    (holds : Holds writer contents) (finished : writer.finish = .ok next) :
    ∃ files, named files = contents ∧ next.entries = files.map File.entry ∧
      (∀ file ∈ files, IsFile file) ∧ Placed files ∧ files.length < kZipMaxEntries ∧
      (localRecords files ++ directory files).length ≤ kMaxOffset ∧
      next.out = localRecords files ++ directory files ++
        write (endFields files.length (localRecords files).length
          (localRecords files ++ directory files).length) := by
  unfold ZipWriter.finish at finished
  simp only [bind_eq_ok, require_eq_ok, checkCanceled_eq_ok, decide_eq_true_eq,
    Bool.not_eq_true'] at finished
  obtain ⟨asked, ⟨-, rfl⟩, -, notOpen, -, -, -, fits, isNext⟩ := finished
  obtain ⟨files, closed, same⟩ := closed_of_not_isOpen holds notOpen
  have laid := closed.laid
  rw [laid.entries, foldl_put] at fits isNext
  dsimp only [ZipWriter.put] at fits isNext
  rw [laid.offset, ← List.length_append] at fits
  cases isNext
  refine ⟨files, same, rfl, laid.isFile, laid.placed, laid.few, fits, ?_⟩
  dsimp only
  rw [laid.out, List.length_map, laid.offset, List.length_append]

/-- An archive that was written gives back its names and bytes; every number fits its field and is
read as it was written, and the checksums are those of the bytes, however they were cut. -/
theorem readZip_run
    {at_ : ZipTime}
    {canceled : Nat -> Bool}
    {calls : List ZipCall}
    (ran : (openWriter at_ canceled).run calls = .ok writer) :
    ∃ files, readZip writer.out = some (files.map readOf) ∧
      ((files.map readOf).map fun read => (read.name, read.data)) = contentsOf calls ∧
      writer.entries = files.map File.entry ∧
      files.length ≤ 0xFFFF ∧ (localRecords files ++ directory files).length ≤ kMaxOffset ∧
      ReadsEnd writer.out files ∧
      (∀ file ∈ files, IsFile file ∧ ReadsLocal writer.out file) ∧
      ∀ (chunks : List Bytes) (crc : UInt32),
        chunks.foldl (fun crc chunk => crc32 chunk crc) crc = crc32 chunks.flatten crc := by
  obtain ⟨middle, ranCalls, finished⟩ := (bind_eq_ok _ _ _).1 ran
  have holds := run_spec (holds_openWriter at_ canceled) ranCalls
  obtain ⟨files, same, entries, isFile, placed, few, fits, isOut⟩ := finish_spec holds finished
  refine ⟨files, readZip_eq isFile placed few fits isOut, ?_, entries, few.le, fits,
    readsEnd few fits isOut, fun file member => ⟨isFile file member, ?_⟩, crc32_flatten⟩
  · rw [List.map_map]
    exact same
  · rw [List.append_assoc] at isOut
    exact readsLocal_of_mem isFile placed isOut member

end

/-- A folder, a file in one piece and a file in two. -/
def threeFiles : List ZipCall :=
  [.addDir (Wire.utf8 "notes") none, .addBytes (Wire.utf8 "notes/a.txt") (Wire.utf8 "one") none,
    .beginFile (Wire.utf8 "b.txt") none, .write (Wire.utf8 "tw"), .write (Wire.utf8 "o"),
    .closeFile]

theorem readZip_run_threeFiles :
    ∃ writer, (openWriter {} fun _ => false).run threeFiles = .ok writer ∧
      ∃ files, readZip writer.out = some (files.map readOf) ∧
        ((files.map readOf).map fun read => (read.name, read.data)) = contentsOf threeFiles ∧
        writer.entries = files.map File.entry ∧
        files.length ≤ 0xFFFF ∧ (localRecords files ++ directory files).length ≤ kMaxOffset ∧
        ReadsEnd writer.out files ∧
        (∀ file ∈ files, IsFile file ∧ ReadsLocal writer.out file) ∧
        ∀ (chunks : List Bytes) (crc : UInt32),
          chunks.foldl (fun crc chunk => crc32 chunk crc) crc = crc32 chunks.flatten crc := by
  have succeeds : ((openWriter {} fun _ => false).run threeFiles).isOk = true := by
    decide +kernel
  obtain ⟨writer, ran⟩ := exists_of_isOk succeeds
  exact ⟨writer, ran, readZip_run ran⟩

end Parvane.Archive
