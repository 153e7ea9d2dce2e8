import Parvane.Archive.Recovery

/-!
# The size of an archive

Before files are written, their sizes tell whether an archive can hold them.  The writer keeps a
distance from that limit, so it may still refuse; otherwise it writes as many bytes as were
counted.
-/

namespace Parvane.Archive

open Wire (Bytes)
open Layout

def kLocalBytes : UInt64 := 30

def kDescriptorBytes : UInt64 := 16

def kCentralBytes : UInt64 := 46

def kEndBytes : UInt64 := 22

structure ZipSizedEntry where
  name : Bytes
  size : UInt64 := 0

/-- The bytes of an archive, counted in 64 bits until they are too many. -/
def countBytes (total : UInt64) (entries : List ZipSizedEntry) : Option UInt64 :=
  match entries with
  | [] => if total.toNat ≤ kMaxOffset then some total else none
  | e :: rest =>
      let total := total + (kLocalBytes + kDescriptorBytes + kCentralBytes +
        UInt64.ofNat e.name.length * 2 + e.size)
      if kMaxOffset < total.toNat then none else countBytes total rest

def canZip (entries : List ZipSizedEntry) : Bool :=
  if kZipMaxEntries ≤ entries.length then false else (countBytes kEndBytes entries).isSome

/-! ## Files to be written -/

/-- The bytes of a file, in one piece, from a source of chunks or by writes. -/
inductive Cut
  | whole (bytes : Bytes)
  | chunks (pieces : List Bytes)
  | writes (pieces : List Bytes)

structure NewFile where
  name : Bytes
  mtime : Option ZipTime
  cut : Cut

def Cut.data (cut : Cut) : Bytes :=
  match cut with
  | .whole bytes => bytes
  | .chunks pieces => pieces.flatten
  | .writes pieces => pieces.flatten

/-- Whether anything is written, be it nothing. -/
def Cut.isWritten (cut : Cut) : Bool :=
  match cut with
  | .whole _ => true
  | .chunks pieces => pieces.any fun chunk => !chunk.isEmpty
  | .writes pieces => !pieces.isEmpty

def NewFile.data (file : NewFile) : Bytes :=
  file.cut.data

def NewFile.calls (file : NewFile) : List ZipCall :=
  match file.cut with
  | .whole bytes => [.addBytes file.name bytes file.mtime]
  | .chunks pieces => [.addChunks file.name pieces file.mtime]
  | .writes pieces =>
      .beginFile file.name file.mtime :: (pieces.map ZipCall.write ++ [.closeFile])

def NewFile.sized (file : NewFile) : ZipSizedEntry :=
  ⟨file.name, UInt64.ofNat file.data.length⟩

/-- Where the bytes of a file end that starts at an offset; a file that nothing is written of only
starts there. -/
def NewFile.reaches (file : NewFile) (offset : Nat) : Nat :=
  if file.cut.isWritten then offset + (30 + file.name.length) + file.data.length else offset

/-- Some file of a list reaches beyond the limit of the writer. -/
def reachesBeyond (offset : Nat) (files : List NewFile) : Bool :=
  match files with
  | [] => false
  | file :: rest =>
      decide (kZipMaxBytes < file.reaches offset) ||
        reachesBeyond (offset + (46 + file.name.length + file.data.length)) rest

/-! ## Up to the limit -/

/-- A result that succeeds where it reaches no further than the limit, and else is too large. -/
structure UpTo (reach : Nat) (result : Result ZipWriter) (good : ZipWriter -> Prop) : Prop where
  succeeds : reach ≤ kZipMaxBytes -> ∃ next, result = .ok next ∧ good next
  refused : kZipMaxBytes < reach -> result = .error (exportError .tooLarge [])

section

variable {near far : Nat} {result : Result ZipWriter} {good better : ZipWriter -> Prop}
  {writer : ZipWriter} {go : ZipWriter -> Result ZipWriter}

theorem UpTo.of_within
    (upTo : UpTo near result good) (isNear : near ≤ kZipMaxBytes)
    (isFar : far ≤ kZipMaxBytes) : UpTo far result good where
  succeeds _ := upTo.succeeds isNear
  refused beyond := absurd isFar (Nat.not_le.2 beyond)

/-- One step after another reaches as far as the second. -/
theorem UpTo.bind
    (upTo : UpTo near result good) (further : near ≤ far)
    (goes : ∀ next, good next -> near ≤ kZipMaxBytes -> UpTo far (go next) better) :
    UpTo far (result >>= go) better := by
  constructor
  · intro within
    have isNear := further.trans within
    obtain ⟨next, rfl, isGood⟩ := upTo.succeeds isNear
    exact (goes next isGood isNear).succeeds within
  · intro beyond
    rcases Nat.lt_or_ge kZipMaxBytes near with early | isNear
    · rw [upTo.refused early]
      rfl
    · obtain ⟨next, rfl, isGood⟩ := upTo.succeeds isNear
      exact (goes next isGood isNear).refused beyond

/-- A step that always succeeds reaches no further. -/
theorem UpTo.map
    (upTo : UpTo near result good)
    (goes : ∀ next, good next -> ∃ last, go next = .ok last ∧ better last) :
    UpTo near (result >>= go) better := by
  constructor
  · intro within
    obtain ⟨next, rfl, isGood⟩ := upTo.succeeds within
    exact goes next isGood
  · intro beyond
    rw [upTo.refused beyond]
    rfl

end

/-! ## Calls -/

section

variable {writer next : ZipWriter} {files : List File} {name data bytes : Bytes} {file : NewFile}

/-- The names of all files are taken, and the writer is never canceled. -/
structure Ready (writer : ZipWriter) (files : List File) : Prop where
  closed : Closed writer files
  paths : writer.paths = (files.map fun file => file.entry.name).reverse
  notCanceled : ∀ asked, writer.canceled asked = false

/-- The last file is being written. -/
structure Filling (writer : ZipWriter) (files : List File) (name data : Bytes) : Prop where
  writing : Writing writer files name data
  paths : writer.paths = name :: (files.map fun file => file.entry.name).reverse
  notCanceled : ∀ asked, writer.canceled asked = false

theorem length_localRecord (file : File) :
    (localRecord file).length = 46 + file.entry.name.length + file.data.length := by
  have width : width (descriptorFields file.entry) = 16 := by
    simp [descriptorFields]
  rw [localRecord, List.length_append, List.length_append, length_localHead, length_write, width]
  omega

theorem Ready.offset (ready : Ready writer files) : writer.offset = (localRecords files).length :=
  ready.closed.laid.offset

theorem Filling.offset (filling : Filling writer files name data) :
    writer.offset = (localRecords files).length + (30 + name.length) + data.length := by
  obtain ⟨file, rfl, rfl, laid, -⟩ := filling.writing
  rw [laid.offset, List.length_append, List.length_append, length_localHead]

theorem checkCanceled_eq (notCanceled : ∀ asked, writer.canceled asked = false) :
    writer.checkCanceled = .ok { writer with asked := writer.asked + 1 } :=
  checkCanceled_eq_ok.2 ⟨notCanceled _, rfl⟩

theorem require_of_true {condition : Bool} {error : ExportError}
    (holds : condition = true) : require condition error = .ok () :=
  require_eq_ok.2 holds

theorem begin_upTo {mtime : Option ZipTime} {size : Nat}
    (ready : Ready writer files) (isNew : name ∉ files.map fun file => file.entry.name)
    (short : name.length ≤ 0xFFFF) (few : files.length + 1 < kZipMaxEntries) :
    UpTo (writer.offset + size) (writer.begin name false mtime size)
      fun next => Filling { next with isOpen := true } files name [] := by
  have laid := ready.closed.laid
  have notTaken : writer.paths.contains name = false := by
    rw [ready.paths, List.contains_eq_mem, decide_eq_false_iff_not, List.mem_reverse]
    exact isNew
  have count : writer.entries.length = files.length := by
    rw [laid.entries, List.length_map]
  obtain ⟨begun, isBegun, paths, canceled⟩ : ∃ begun, writer.begin name false mtime size =
      (require (writer.offset + size ≤ kZipMaxBytes) (exportError .tooLarge []) >>=
        fun _ => .ok begun) ∧ begun.paths = name :: writer.paths ∧
      begun.canceled = writer.canceled := by
    unfold ZipWriter.begin
    rw [checkCanceled_eq ready.notCanceled]
    dsimp only [Bind.bind, Except.bind]
    rw [laid.unfinished, ready.closed.isOpen, if_neg Bool.false_ne_true, notTaken, count,
      decide_eq_true short, decide_eq_true few]
    exact ⟨_, rfl, rfl, rfl⟩
  constructor
  · intro within
    rw [decide_eq_true within] at isBegun
    refine ⟨begun, isBegun, ?_, ?_, ?_⟩
    · obtain ⟨entry, begins⟩ := begin_spec isBegun
      exact ready.closed.begin begins
    · dsimp only
      rw [paths, ready.paths]
    · dsimp only
      rw [canceled]
      exact ready.notCanceled
  · intro beyond
    rw [decide_eq_false (Nat.not_le.2 beyond)] at isBegun
    exact isBegun

theorem write_upTo (filling : Filling writer files name data) :
    UpTo (writer.offset + bytes.length) (writer.write bytes)
      fun next => Filling next files name (data ++ bytes) := by
  obtain ⟨file, isName, isData, laid, isOpen⟩ := filling.writing
  have last : writer.entries.getLast? = some file.entry := by
    rw [laid.entries, entries_concat, List.getLast?_concat]
  have size : file.entry.size = file.data.length :=
    (laid.isFile file (List.mem_append_right _ List.mem_cons_self)).size
  obtain ⟨written, isWritten, paths, canceled⟩ : ∃ written, writer.write bytes =
      (require (writer.offset + bytes.length ≤ kZipMaxBytes &&
        file.entry.size + bytes.length ≤ kMaxOffset) (exportError .tooLarge []) >>=
          fun _ => .ok written) ∧ written.paths = writer.paths ∧
      written.canceled = writer.canceled := by
    unfold ZipWriter.write
    rw [isOpen, checkCanceled_eq filling.notCanceled]
    dsimp only [Bind.bind, Except.bind]
    rw [require_of_true rfl, last]
    dsimp only
    rw [List.getLast?_concat]
    exact ⟨_, rfl, rfl, rfl⟩
  constructor
  · intro within
    have sizeFits : file.entry.size + bytes.length ≤ kMaxOffset := by
      rw [filling.offset, ← isData, ← size] at within
      unfold kZipMaxBytes at within
      unfold kMaxOffset
      omega
    rw [decide_eq_true within, decide_eq_true sizeFits] at isWritten
    refine ⟨written, isWritten, write_spec filling.writing isWritten, ?_, ?_⟩
    · rw [paths, filling.paths]
    · rw [canceled]
      exact filling.notCanceled
  · intro beyond
    rw [decide_eq_false (Nat.not_le.2 beyond), Bool.false_and] at isWritten
    exact isWritten

/-- Being asked changes nothing. -/
theorem Filling.asked (filling : Filling writer files name data) :
    Filling { writer with asked := writer.asked + 1 } files name data := by
  obtain ⟨⟨file, sameName, sameData, laid, isOpen⟩, paths, notCanceled⟩ := filling
  exact ⟨⟨file, sameName, sameData, laid.congr rfl rfl rfl rfl, isOpen⟩, paths, notCanceled⟩

/-- Nothing is added where nothing is written. -/
theorem data_of_not_isWritten {cut : Cut}
    (notWritten : ¬ cut.isWritten = true) : cut.data = [] := by
  cases cut with
  | whole bytes => exact absurd rfl notWritten
  | chunks pieces =>
      rw [Cut.data, List.flatten_eq_nil_iff]
      intro piece member
      by_contra notEmpty
      refine notWritten (List.any_eq_true.2 ⟨piece, member, ?_⟩)
      rw [Bool.not_eq_true', List.isEmpty_eq_false_iff]
      exact notEmpty
  | writes pieces =>
      rw [Cut.isWritten, Bool.not_eq_true, Bool.not_eq_false', List.isEmpty_iff] at notWritten
      rw [notWritten]
      rfl

/-- A file of a name and of bytes was added. -/
def Added (files : List File) (name data : Bytes) (next : ZipWriter) : Prop :=
  ∃ file : File, file.entry.name = name ∧ file.data = data ∧ Ready next (files ++ [file])

section

variable (filling : Filling writer files name data)

include filling

theorem closeFile_of_filling :
    ∃ next, writer.closeFile = .ok next ∧ Added files name data next := by
  obtain ⟨file, isName, isData, laid, isOpen⟩ := filling.writing
  obtain ⟨closed, isClosed, paths, canceled⟩ : ∃ closed, writer.closeFile = .ok closed ∧
      closed.paths = writer.paths ∧ closed.canceled = writer.canceled := by
    unfold ZipWriter.closeFile
    rw [isOpen]
    exact ⟨_, rfl, rfl, rfl⟩
  obtain ⟨last, sameName, sameData, laidNext⟩ := closeFile_spec filling.writing isClosed
  refine ⟨closed, isClosed, last, sameName, sameData, laidNext, ?_, ?_⟩
  · rw [paths, filling.paths, List.map_append, List.reverse_append, List.map_singleton, sameName]
    rfl
  · rw [canceled]
    exact filling.notCanceled

/-- Chunks of a source reach as far as the last that is not empty. -/
theorem writeChunks_upTo {pieces : List Bytes} :
    UpTo (if (Cut.chunks pieces).isWritten then writer.offset + pieces.flatten.length else 0)
      (writer.writeChunks pieces)
      fun next => Filling next files name (data ++ pieces.flatten) := by
  induction pieces generalizing writer data with
  | nil =>
      rw [ZipWriter.writeChunks, checkCanceled_eq filling.notCanceled]
      refine ⟨fun _ => ⟨_, rfl, ?_⟩, fun beyond => absurd beyond (Nat.not_lt_zero _)⟩
      rw [List.flatten_nil, List.append_nil]
      exact filling.asked
  | cons chunk rest inductionHypothesis =>
      rw [ZipWriter.writeChunks, checkCanceled_eq filling.notCanceled]
      change UpTo _ (ZipWriter.writeChunk _ chunk >>= fun writer => writer.writeChunks rest) _
      rw [List.flatten_cons, ← List.append_assoc, List.length_append]
      cases empty : chunk.isEmpty with
      | true =>
          have isNil := List.isEmpty_iff.1 empty
          subst isNil
          have same := @inductionHypothesis { writer with asked := writer.asked + 1 } data
            filling.asked
          rw [List.append_nil, List.length_nil, Nat.zero_add]
          exact same
      | false =>
          have isWritten : (Cut.chunks (chunk :: rest)).isWritten = true := by
            rw [Cut.isWritten, List.any_cons, empty]
            rfl
          have isChunk : ZipWriter.writeChunk { writer with asked := writer.asked + 1 } chunk =
              ZipWriter.write { writer with asked := writer.asked + 1 } chunk := by
            rw [ZipWriter.writeChunk, empty]
            rfl
          rw [if_pos isWritten, isChunk]
          refine (write_upTo filling.asked).bind (by dsimp only; omega) ?_
          intro next nextFilling isNear
          have upTo := inductionHypothesis nextFilling
          have offset : next.offset = writer.offset + chunk.length := by
            rw [nextFilling.offset, filling.offset, List.length_append, ← Nat.add_assoc]
          split at upTo
          · rwa [offset, Nat.add_assoc] at upTo
          · next notWritten =>
              refine upTo.of_within (Nat.zero_le _) ?_
              have nothing : rest.flatten = [] := data_of_not_isWritten notWritten
              rw [nothing]
              exact isNear

/-- So do writes, but an empty one is a write. -/
theorem writes_upTo {pieces : List Bytes} :
    UpTo (if (Cut.writes pieces).isWritten then writer.offset + pieces.flatten.length else 0)
      ((pieces.map ZipCall.write).foldlM ZipWriter.step writer)
      fun next => Filling next files name (data ++ pieces.flatten) := by
  induction pieces generalizing writer data with
  | nil =>
      refine ⟨fun _ => ⟨writer, rfl, ?_⟩, fun beyond => absurd beyond (Nat.not_lt_zero _)⟩
      rw [List.flatten_nil, List.append_nil]
      exact filling
  | cons piece rest inductionHypothesis =>
      have isWritten : (Cut.writes (piece :: rest)).isWritten = true := rfl
      rw [if_pos isWritten, List.map_cons, List.foldlM_cons, List.flatten_cons,
        ← List.append_assoc, List.length_append]
      refine (write_upTo filling).bind (by omega) ?_
      intro next nextFilling isNear
      have upTo := inductionHypothesis nextFilling
      have offset : next.offset = writer.offset + piece.length := by
        rw [nextFilling.offset, filling.offset, List.length_append, ← Nat.add_assoc]
      split at upTo
      · rwa [offset, Nat.add_assoc] at upTo
      · next notWritten =>
          refine upTo.of_within (Nat.zero_le _) ?_
          have nothing : rest.flatten = [] := data_of_not_isWritten notWritten
          rw [nothing]
          exact isNear

end

/-- After a file has begun, it reaches as far as what is written of it. -/
theorem begin_bind_upTo {size : Nat} {go : ZipWriter -> Result ZipWriter}
    (ready : Ready writer files) (isNew : file.name ∉ files.map fun file => file.entry.name)
    (short : file.name.length ≤ 0xFFFF) (few : files.length + 1 < kZipMaxEntries)
    (further : writer.offset + size ≤ file.reaches writer.offset)
    (goes : ∀ next, Filling { next with isOpen := true } files file.name [] ->
      UpTo (if file.cut.isWritten then next.offset + file.data.length else 0) (go next)
        (Added files file.name file.data)) :
    UpTo (file.reaches writer.offset) (writer.begin file.name false file.mtime size >>= go)
      (Added files file.name file.data) := by
  refine (begin_upTo ready isNew short few).bind further fun next filling isNear => ?_
  have upTo := goes next filling
  have offset : next.offset = writer.offset + (30 + file.name.length) := by
    rw [ready.offset]
    exact filling.offset
  unfold NewFile.reaches
  split
  · next isWritten => rwa [if_pos isWritten, offset] at upTo
  · next notWritten =>
      rw [if_neg notWritten] at upTo
      exact upTo.of_within (Nat.zero_le _) ((Nat.le_add_right _ _).trans isNear)

theorem beginFile_bind {mtime : Option ZipTime} {go : ZipWriter -> Result ZipWriter} :
    (writer.beginFile name mtime >>= go) =
      writer.begin name false mtime 0 >>= fun next => go { next with isOpen := true } := by
  rw [ZipWriter.beginFile, bind_assoc]
  rfl

theorem offset_le_reaches (file : NewFile) (offset : Nat) : offset ≤ file.reaches offset := by
  unfold NewFile.reaches
  split <;> omega

/-- A file is added, however it is cut, unless it reaches beyond the limit. -/
theorem calls_upTo
    (ready : Ready writer files) (isNew : file.name ∉ files.map fun file => file.entry.name)
    (short : file.name.length ≤ 0xFFFF) (few : files.length + 1 < kZipMaxEntries) :
    UpTo (file.reaches writer.offset) (file.calls.foldlM ZipWriter.step writer)
      (Added files file.name file.data) := by
  obtain ⟨name, mtime, cut⟩ := file
  cases cut with
  | whole bytes =>
      rw [NewFile.calls, List.foldlM_cons]
      refine UpTo.map ?_ fun next added => ⟨next, rfl, added⟩
      refine begin_bind_upTo ready isNew short few ?_ fun next filling => ?_
      · exact Nat.add_le_add_right (Nat.le_add_right _ _) _
      · exact (write_upTo filling).map fun _ => closeFile_of_filling
  | chunks pieces =>
      rw [NewFile.calls, List.foldlM_cons]
      refine UpTo.map ?_ fun next added => ⟨next, rfl, added⟩
      rw [ZipWriter.step, ZipWriter.addChunks, beginFile_bind]
      refine begin_bind_upTo ready isNew short few (offset_le_reaches _ _) fun next filling => ?_
      exact (writeChunks_upTo filling).map fun _ => closeFile_of_filling
  | writes pieces =>
      rw [NewFile.calls, List.foldlM_cons]
      rw [ZipWriter.step, beginFile_bind]
      refine begin_bind_upTo ready isNew short few (offset_le_reaches _ _) fun next filling => ?_
      rw [List.foldlM_append]
      refine (writes_upTo filling).map fun last lastFilling => ?_
      obtain ⟨closed, isClosed, added⟩ := closeFile_of_filling lastFilling
      refine ⟨closed, ?_, added⟩
      rw [List.foldlM_cons]
      change (last.closeFile >>= _) = _
      rw [isClosed]
      rfl

/-! ## All files -/

theorem add_all {news : List NewFile}
    (ready : Ready writer files)
    (different : (news.map NewFile.name).Nodup)
    (areNew : ∀ new ∈ news, new.name ∉ files.map fun file => file.entry.name)
    (short : ∀ new ∈ news, new.name.length ≤ 0xFFFF)
    (few : files.length + news.length < kZipMaxEntries) :
    (reachesBeyond writer.offset news = true ->
      (news.flatMap NewFile.calls).foldlM ZipWriter.step writer =
        .error (exportError .tooLarge [])) ∧
    (reachesBeyond writer.offset news = false -> ∃ next all,
      (news.flatMap NewFile.calls).foldlM ZipWriter.step writer = .ok next ∧ Ready next all ∧
        named all = named files ++ news.map fun new => (new.name, new.data)) := by
  induction news generalizing writer files with
  | nil =>
      refine ⟨nofun, fun _ => ⟨writer, files, rfl, ready, ?_⟩⟩
      rw [List.map_nil, List.append_nil]
  | cons new rest inductionHypothesis =>
      rw [List.length_cons] at few
      rw [List.map_cons, List.nodup_cons] at different
      obtain ⟨newIsNew, restAreNew⟩ := List.forall_mem_cons.1 areNew
      obtain ⟨newShort, restShort⟩ := List.forall_mem_cons.1 short
      have upTo := calls_upTo ready newIsNew newShort (by omega)
      rw [List.flatMap_cons, List.foldlM_append, reachesBeyond]
      by_cases beyond : kZipMaxBytes < new.reaches writer.offset
      · rw [upTo.refused beyond, decide_eq_true beyond, Bool.true_or]
        exact ⟨fun _ => rfl, nofun⟩
      · obtain ⟨next, isNext, file, sameName, sameData, nextReady⟩ :=
          upTo.succeeds (Nat.not_lt.1 beyond)
        have offset : next.offset =
            writer.offset + (46 + new.name.length + new.data.length) := by
          have one : localRecords [file] = localRecord file := List.flatMap_singleton ..
          rw [nextReady.offset, ready.offset, localRecords_append, List.length_append, one,
            length_localRecord, sameName, sameData]
        rw [isNext, decide_eq_false beyond, Bool.false_or, ← offset]
        have both := inductionHypothesis nextReady different.2 ?_ restShort ?_
        · rw [named_concat, sameName, sameData, List.append_assoc] at both
          exact both
        · intro other member
          rw [List.map_append, List.map_singleton, sameName, List.mem_append, List.mem_singleton,
            not_or]
          refine ⟨restAreNew other member, fun same => different.1 ?_⟩
          rw [← same]
          exact List.mem_map_of_mem member
        · rw [List.length_append, List.length_singleton]
          omega

theorem ready_openWriter {at_ : ZipTime} {canceled : Nat -> Bool}
    (notCanceled : ∀ asked, canceled asked = false) : Ready (openWriter at_ canceled) [] := by
  obtain ⟨files, closed, same⟩ := closed_of_not_isOpen (holds_openWriter at_ canceled) rfl
  rw [List.map_eq_nil_iff.1 same] at closed
  exact ⟨closed, rfl, notCanceled⟩

/-- The bytes of an archive with these names and bytes, but for the end record. -/
def bytesOf (contents : List (Bytes × Bytes)) : Nat :=
  (contents.map fun content => 92 + content.1.length * 2 + content.2.length).sum

theorem bytesOf_cons (content : Bytes × Bytes) (contents : List (Bytes × Bytes)) :
    bytesOf (content :: contents) =
      92 + content.1.length * 2 + content.2.length + bytesOf contents :=
  List.sum_cons

theorem length_records (files : List File) :
    (localRecords files ++ directory files).length = bytesOf (named files) := by
  rw [List.length_append]
  induction files with
  | nil => rfl
  | cons file rest inductionHypothesis =>
      have records : localRecords (file :: rest) = localRecord file ++ localRecords rest :=
        List.flatMap_cons
      have entries : directory (file :: rest) = centralHead file.entry ++ directory rest :=
        List.flatMap_cons
      rw [records, entries, List.length_append, List.length_append, length_localRecord,
        length_centralHead, named, List.map_cons, bytesOf_cons, ← named, ← inductionHypothesis]
      dsimp only
      omega

/-- The end of an archive that is short enough. -/
theorem finish_of_ready
    (ready : Ready writer files)
    (fits : bytesOf (named files) ≤ kMaxOffset) :
    ∃ last, writer.finish = .ok last ∧ last.out.length = bytesOf (named files) + 22 := by
  have laid := ready.closed.laid
  have fitsHere := fits
  rw [← length_records, List.length_append, ← laid.offset] at fitsHere
  obtain ⟨last, isLast⟩ : ∃ last, writer.finish = .ok last := by
    unfold ZipWriter.finish
    rw [checkCanceled_eq ready.notCanceled]
    dsimp only [Bind.bind, Except.bind]
    have notOpen : (!writer.isOpen) = true := by
      rw [ready.closed.isOpen]
      rfl
    have unfinished : (!writer.finished) = true := by
      rw [laid.unfinished]
      rfl
    rw [require_of_true notOpen, require_of_true unfinished, laid.entries, foldl_put,
      require_of_true]
    · exact ⟨_, rfl⟩
    · exact decide_eq_true fitsHere
  obtain ⟨all, same, -, -, -, -, -, isOut⟩ :=
    finish_spec (.inl ⟨files, ready.closed, rfl⟩) isLast
  refine ⟨last, isLast, ?_⟩
  rw [isOut, List.length_append, length_records, same, length_write, width_endFields]

/-- No file is longer than it reaches. -/
theorem length_le_of_reaches {news : List NewFile} {offset : Nat}
    (within : reachesBeyond offset news = false) :
    ∀ new ∈ news, new.data.length ≤ kZipMaxBytes := by
  induction news generalizing offset with
  | nil => exact List.forall_mem_nil _
  | cons new rest inductionHypothesis =>
      rw [reachesBeyond, Bool.or_eq_false_iff, decide_eq_false_iff_not, Nat.not_lt] at within
      refine List.forall_mem_cons.2 ⟨?_, inductionHypothesis within.2⟩
      have reaches := within.1
      unfold NewFile.reaches at reaches
      split at reaches
      · omega
      · next notWritten =>
          rw [NewFile.data, data_of_not_isWritten notWritten]
          exact Nat.zero_le _

/-- What is counted in 64 bits is the size, unless it is too large. -/
theorem countBytes_spec {news : List NewFile} {total final : UInt64}
    (small : ∀ new ∈ news, new.data.length ≤ kZipMaxBytes)
    (short : ∀ new ∈ news, new.name.length ≤ 0xFFFF) (start : total.toNat ≤ kMaxOffset)
    (counted : countBytes total (news.map NewFile.sized) = some final) :
    final.toNat = total.toNat + bytesOf (news.map fun new => (new.name, new.data)) ∧
      final.toNat ≤ kMaxOffset := by
  induction news generalizing total with
  | nil =>
      rw [List.map_nil, countBytes, if_pos start] at counted
      cases counted
      exact ⟨rfl, start⟩
  | cons new rest inductionHypothesis =>
      obtain ⟨newSmall, restSmall⟩ := List.forall_mem_cons.1 small
      obtain ⟨newShort, restShort⟩ := List.forall_mem_cons.1 short
      rw [List.map_cons, countBytes] at counted
      split at counted
      · cases counted
      · next fits =>
          obtain ⟨sum, within⟩ :=
            inductionHypothesis restSmall restShort (Nat.not_lt.1 fits) counted
          refine ⟨?_, within⟩
          have isSum : (total + (kLocalBytes + kDescriptorBytes + kCentralBytes +
              UInt64.ofNat new.name.length * 2 + UInt64.ofNat new.data.length)).toNat =
                total.toNat + (92 + new.name.length * 2 + new.data.length) := by
            unfold kMaxOffset at start
            unfold kZipMaxBytes at newSmall
            simp only [UInt64.toNat_add, UInt64.toNat_mul, UInt64.toNat_ofNat', kLocalBytes,
              kDescriptorBytes, kCentralBytes, UInt64.reduceToNat]
            omega
          rw [sum, NewFile.sized, isSum, List.map_cons, bytesOf_cons, Nat.add_assoc]

end

/-- Where the sizes of files tell that an archive can hold them, it is too large exactly when some
file reaches beyond the limit of the writer; otherwise it has as many bytes as were counted. -/
theorem run_of_canZip
    {at_ : ZipTime}
    {canceled : Nat -> Bool}
    {files : List NewFile}
    (notCanceled : ∀ asked, canceled asked = false)
    (different : (files.map NewFile.name).Nodup)
    (short : ∀ file ∈ files, file.name.length ≤ 0xFFFF)
    (fits : canZip (files.map NewFile.sized) = true) :
    (reachesBeyond 0 files = true ->
      (openWriter at_ canceled).run (files.flatMap NewFile.calls) =
        .error (exportError .tooLarge [])) ∧
    (reachesBeyond 0 files = false -> ∃ writer total,
      (openWriter at_ canceled).run (files.flatMap NewFile.calls) = .ok writer ∧
        countBytes kEndBytes (files.map NewFile.sized) = some total ∧
        writer.out.length = total.toNat) := by
  unfold canZip at fits
  split at fits
  · cases fits
  · next few =>
      rw [List.length_map, Nat.not_le] at few
      obtain ⟨total, counted⟩ := Option.isSome_iff_exists.1 fits
      have added := @add_all _ [] files (@ready_openWriter at_ _ notCanceled) different
        (fun _ _ => List.not_mem_nil) short (by rwa [List.length_nil, Nat.zero_add])
      constructor
      · intro beyond
        rw [ZipWriter.run, added.1 beyond]
        rfl
      · intro within
        obtain ⟨next, all, isNext, ready, same⟩ := added.2 within
        have sum := countBytes_spec (length_le_of_reaches within) short (by decide) counted
        rw [show named [] = [] from rfl, List.nil_append] at same
        rw [← same] at sum
        have isEnd : kEndBytes.toNat = 22 := rfl
        rw [isEnd] at sum
        obtain ⟨last, isLast, length⟩ := finish_of_ready ready (by omega)
        refine ⟨last, total, ?_, counted, ?_⟩
        · rw [ZipWriter.run, isNext]
          exact isLast
        · rw [length, sum.1, Nat.add_comm]

/-- A file in one piece, one from a source of chunks, and one of writes. -/
def threeCuts : List NewFile :=
  [⟨Wire.utf8 "a", none, .whole (Wire.utf8 "one")⟩,
    ⟨Wire.utf8 "b", none, .chunks [Wire.utf8 "t", [], Wire.utf8 "wo"]⟩,
    ⟨Wire.utf8 "c", none, .writes []⟩]

theorem run_of_canZip_threeCuts :
    reachesBeyond 0 threeCuts = false ∧ ∃ writer total,
      (openWriter {} fun _ => false).run (threeCuts.flatMap NewFile.calls) = .ok writer ∧
        countBytes kEndBytes (threeCuts.map NewFile.sized) = some total ∧
        writer.out.length = total.toNat := by
  have within : reachesBeyond 0 threeCuts = false := by
    decide +kernel
  exact ⟨within, (run_of_canZip (fun _ => rfl) (by decide +kernel) (by decide +kernel)
    (by decide +kernel)).2 within⟩

/-- A file between the limit of the writer and the greatest size of an archive. -/
def greatFile : NewFile :=
  ⟨Wire.utf8 "a", none, .whole (List.replicate 4240000000 0)⟩

theorem length_greatFile : greatFile.data.length = 4240000000 :=
  List.length_replicate

/-- The sizes tell that an archive can hold the file, and it is too large nevertheless. -/
theorem greatFile_tooLarge :
    canZip [greatFile.sized] = true ∧
      (openWriter {} fun _ => false).run greatFile.calls = .error (exportError .tooLarge []) := by
  have name : greatFile.name = [97] := by
    decide +kernel
  constructor
  · rw [NewFile.sized, length_greatFile, name]
    decide +kernel
  · have upTo := @calls_upTo _ [] greatFile (@ready_openWriter {} (fun _ => false) fun _ => rfl)
      List.not_mem_nil (by rw [name]; decide) (by decide)
    have beyond : kZipMaxBytes < greatFile.reaches 0 := by
      have isWritten : greatFile.cut.isWritten = true := rfl
      rw [NewFile.reaches, if_pos isWritten, length_greatFile, name]
      decide
    rw [ZipWriter.run, upTo.refused beyond]
    rfl

end Parvane.Archive
