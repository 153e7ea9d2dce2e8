import Parvane.Foundation.Cutting
import Parvane.Foundation.Fields

/-!
# Packs of stickers

A pack is an index of names and sizes, and the bytes of its files one behind another.  Whoever
reads it trusts neither the names nor the sizes, and never reads beyond the end; what was built is
read as it was.
-/

namespace Parvane.Packs

open Wire (Bytes utf8 littleEndian ofLittleEndian littleEndian_length
  ofLittleEndian_littleEndian)
open Layout (slice slice_append)

structure Entry where
  name : Bytes
  bytes : Bytes
  deriving DecidableEq

def kMagic : Bytes := utf8 "PVPK1"

def kMaxFiles : Nat := 200

def kMaxBytes : Nat := 20 * 1024 * 1024

/-! ## Names -/

/-- What stands behind the last mark of a name, if it has one. -/
def behindLast (isMark : UInt8 -> Bool) (name : Bytes) : Option Bytes :=
  if name.any isMark then some (name.rtakeWhile fun c => !isMark c) else none

def tolower (c : UInt8) : UInt8 :=
  if 65 ≤ c ∧ c ≤ 90 then c + 32 else c

def isDot (c : UInt8) : Bool :=
  c = 46

/-- A slash or a backslash. -/
def isSeparator (c : UInt8) : Bool :=
  c = 47 || c = 92

def lowerExt (name : Bytes) : Bytes :=
  match behindLast isDot name with
  | none => []
  | some rest => (46 :: rest).map tolower

def basename (name : Bytes) : Bytes :=
  (behindLast isSeparator name).getD name

def isAllowedExtension (name : Bytes) : Bool :=
  let e := lowerExt name
  e = utf8 ".webp" || e = utf8 ".png" || e = utf8 ".tgs" || e = utf8 ".webm"

/-! ## The index -/

inductive Json
  | null
  | boolean (value : Bool)
  | integer (value : Int64)
  | unsigned (value : UInt64)
  | float (bits : UInt64)
  | string (value : Bytes)
  | array (values : List Json)
  | object (fields : List (Bytes × Json))

/-- Values are printed if their texts are UTF-8, and read if they are well formed. -/
structure JsonLibrary where
  dump : Json -> Option Bytes
  parse : Bytes -> Option Json

/-- The name and the size of a file, whose types are checked. -/
def nameAndSize (e : Json) : Option (Bytes × UInt64) :=
  match e with
  | .object fields =>
      match fields.lookup (utf8 "name"), fields.lookup (utf8 "size") with
      | some (.string name), some (.unsigned size) => some (name, size)
      | _, _ => none
  | _ => none

def indexed (entry : Entry) : Json :=
  .object [(utf8 "name", .string entry.name),
    (utf8 "size", .unsigned (UInt64.ofNat entry.bytes.length))]

/-! ## Building -/

/-- Files that have no name, no bytes or a strange extension are left out. -/
def isLeftOut (name bytes : Bytes) : Bool :=
  name.isEmpty || bytes.isEmpty || !isAllowedExtension name

def buildFrom
    (index : List Json) (blob : Bytes) (count : Nat) (entries : List Entry) : List Json × Bytes :=
  match entries with
  | [] => (index, blob)
  | e :: rest =>
      let name := basename e.name
      if isLeftOut name e.bytes then buildFrom index blob count rest
      else if kMaxFiles < count + 1 then (index, blob)
      else if kMaxBytes < blob.length + e.bytes.length then (index, blob)
      else buildFrom (index ++ [indexed ⟨name, e.bytes⟩]) (blob ++ e.bytes) (count + 1) rest

def build (json : JsonLibrary) (entries : List Entry) : Option Bytes :=
  let (index, blob) := buildFrom [] [] 0 entries
  if index.isEmpty then some []
  else (json.dump (.array index)).map fun indexStr =>
    kMagic ++ littleEndian 4 indexStr.length ++ indexStr ++ blob

/-- The files that are kept behind so many others with so many bytes, under their base names. -/
def keptBehind (count size : Nat) (entries : List Entry) : List Entry :=
  match entries with
  | [] => []
  | e :: rest =>
      let name := basename e.name
      if isLeftOut name e.bytes then keptBehind count size rest
      else if kMaxFiles < count + 1 ∨ kMaxBytes < size + e.bytes.length then []
      else ⟨name, e.bytes⟩ :: keptBehind (count + 1) (size + e.bytes.length) rest

def kept (entries : List Entry) : List Entry :=
  keptBehind 0 0 entries

/-! ## Reading -/

inductive OutOfRange
  | outOfRange
  deriving DecidableEq

/-- Some bytes at a position, all of which must be there. -/
def readRange (bytes : Bytes) (position size : Nat) : Except OutOfRange Bytes :=
  if position + size ≤ bytes.length then .ok (slice position size bytes) else .error .outOfRange

def parseFrom
    (bytes : Bytes) (out : List Entry) (offset : Nat)
    (index : List Json) : Except OutOfRange (List Entry) :=
  match index with
  | [] => .ok out
  | e :: rest =>
      match nameAndSize e with
      | none => .ok []
      | some (given, size) =>
          let name := basename given
          if name.isEmpty || bytes.length < offset || bytes.length - offset < size.toNat then
            .ok []
          else if isAllowedExtension name && 0 < size then
            readRange bytes offset size.toNat >>= fun content =>
              parseFrom bytes (out ++ [⟨name, content⟩]) (offset + size.toNat) rest
          else parseFrom bytes out (offset + size.toNat) rest

/-- The files of an index, which stand behind it. -/
def parseIndex
    (bytes : Bytes) (len : Nat) (index : Option Json) : Except OutOfRange (List Entry) :=
  match index with
  | some (.array index) =>
      if kMaxFiles < index.length then .ok [] else parseFrom bytes [] (9 + len) index
  | _ => .ok []

def parse (json : JsonLibrary) (bytes : Bytes) : Except OutOfRange (List Entry) :=
  if bytes.length < 9 then .ok []
  else do
    let magic ← readRange bytes 0 5
    if magic ≠ kMagic || kMaxBytes + 2 ^ 20 < bytes.length then .ok []
    else
      let len := ofLittleEndian (← readRange bytes 5 4)
      if bytes.length < 9 + len then .ok []
      else
        let text ← readRange bytes 9 len
        parseIndex bytes len (json.parse text)

section

variable {json : JsonLibrary} {entries : List Entry} {bytes : Bytes} {out : List Entry}
  {offset : Nat}

/-! ## Reading stays inside -/

theorem readRange_bind {position size : Nat}
    {next : Bytes -> Except OutOfRange (List Entry)}
    (inside : position + size ≤ bytes.length) :
    (readRange bytes position size >>= next) = next (slice position size bytes) := by
  rw [readRange, if_pos inside]
  rfl

theorem parseFrom_inside (bytes : Bytes) (out : List Entry) (offset : Nat) (index : List Json) :
    ∃ unpacked, parseFrom bytes out offset index = .ok unpacked := by
  induction index generalizing out offset with
  | nil => exact ⟨out, rfl⟩
  | cons e rest inductionHypothesis =>
      rw [parseFrom]
      split
      · exact ⟨[], rfl⟩
      · dsimp only
        split
        · exact ⟨[], rfl⟩
        · next given size checked =>
            split
            · rw [Bool.or_eq_true, Bool.or_eq_true, not_or, not_or, decide_eq_true_eq,
                decide_eq_true_eq] at checked
              rw [readRange_bind (by omega)]
              exact inductionHypothesis _ _
            · exact inductionHypothesis _ _

theorem parseIndex_inside (bytes : Bytes) (len : Nat) (index : Option Json) :
    ∃ unpacked, parseIndex bytes len index = .ok unpacked := by
  unfold parseIndex
  split
  · split
    · exact ⟨[], rfl⟩
    · exact parseFrom_inside _ _ _ _
  · exact ⟨[], rfl⟩

/-- Whatever the bytes are, reading ends and stays inside of them. -/
theorem parse_inside (json : JsonLibrary) (bytes : Bytes) :
    ∃ unpacked, parse json bytes = .ok unpacked := by
  unfold parse
  split
  · exact ⟨[], rfl⟩
  · next long =>
      rw [readRange_bind (by omega)]
      split
      · exact ⟨[], rfl⟩
      · rw [readRange_bind (by omega)]
        dsimp only
        split
        · exact ⟨[], rfl⟩
        · next inside =>
            rw [readRange_bind (by omega)]
            exact parseIndex_inside _ _ _

/-! ## Reading what was built -/

theorem basename_eq (name : Bytes) : basename name = name.rtakeWhile fun c => !isSeparator c := by
  unfold basename behindLast
  split
  · rfl
  · next noMark =>
      refine (List.rtakeWhile_eq_self_iff.2 fun c member => ?_).symm
      rw [Bool.not_eq_true']
      by_contra isMark
      exact noMark (List.any_eq_true.2 ⟨c, member, Bool.not_eq_false _ ▸ isMark⟩)

theorem basename_basename (name : Bytes) : basename (basename name) = basename name := by
  rw [basename_eq, basename_eq, List.rtakeWhile_idempotent]

/-- A file that is kept has a base name, bytes and a known extension. -/
structure IsKept (entry : Entry) : Prop where
  base : basename entry.name = entry.name
  named : entry.name.isEmpty = false
  notEmpty : entry.bytes.isEmpty = false
  allowed : isAllowedExtension entry.name = true

theorem isKept_of_not_isLeftOut {name bytes : Bytes}
    (notLeftOut : isLeftOut (basename name) bytes = false) : IsKept ⟨basename name, bytes⟩ := by
  rw [isLeftOut, Bool.or_eq_false_iff, Bool.or_eq_false_iff, Bool.not_eq_false'] at notLeftOut
  exact ⟨basename_basename name, notLeftOut.1.1, notLeftOut.1.2, notLeftOut.2⟩

/-- The files that are kept are few and short. -/
structure Fits (count size : Nat) (files : List Entry) : Prop where
  areKept : ∀ entry ∈ files, IsKept entry
  few : count + files.length ≤ kMaxFiles
  short : size + (files.flatMap Entry.bytes).length ≤ kMaxBytes

theorem keptBehind_fits {count size : Nat}
    (few : count ≤ kMaxFiles)
    (short : size ≤ kMaxBytes) : Fits count size (keptBehind count size entries) := by
  induction entries generalizing count size with
  | nil => exact ⟨List.forall_mem_nil _, few, short⟩
  | cons e rest inductionHypothesis =>
      rw [keptBehind]
      split
      · exact inductionHypothesis few short
      · next notLeftOut =>
          split
          · exact ⟨List.forall_mem_nil _, few, short⟩
          · next fits =>
              rw [not_or, Nat.not_lt, Nat.not_lt] at fits
              obtain ⟨areKept, restFew, restShort⟩ := inductionHypothesis fits.1 fits.2
              refine ⟨List.forall_mem_cons.2 ⟨?_, areKept⟩, ?_, ?_⟩
              · exact isKept_of_not_isLeftOut (Bool.not_eq_true _ ▸ notLeftOut)
              · rw [List.length_cons]
                omega
              · rw [List.flatMap_cons, List.length_append, ← Nat.add_assoc]
                exact restShort

theorem kept_fits (entries : List Entry) : Fits 0 0 (kept entries) :=
  keptBehind_fits (Nat.zero_le _) (Nat.zero_le _)

/-- Building writes the index and the bytes of the files that are kept. -/
theorem buildFrom_eq (index : List Json) (blob : Bytes) (count : Nat) (entries : List Entry) :
    buildFrom index blob count entries =
      (index ++ (keptBehind count blob.length entries).map indexed,
        blob ++ (keptBehind count blob.length entries).flatMap Entry.bytes) := by
  induction entries generalizing index blob count with
  | nil =>
      rw [buildFrom, keptBehind, List.map_nil, List.flatMap_nil, List.append_nil, List.append_nil]
  | cons e rest inductionHypothesis =>
      rw [buildFrom, keptBehind]
      split
      · exact inductionHypothesis _ _ _
      · by_cases many : kMaxFiles < count + 1
        · rw [if_pos many, if_pos (.inl many), List.map_nil, List.flatMap_nil, List.append_nil,
            List.append_nil]
        · rw [if_neg many]
          by_cases long : kMaxBytes < blob.length + e.bytes.length
          · rw [if_pos long, if_pos (.inr long), List.map_nil, List.flatMap_nil, List.append_nil,
              List.append_nil]
          · rw [if_neg long, if_neg (not_or.2 ⟨many, long⟩), inductionHypothesis,
              List.length_append, List.map_cons, List.flatMap_cons, List.append_assoc,
              List.append_assoc, List.singleton_append]

theorem nameAndSize_indexed (entry : Entry) :
    nameAndSize (indexed entry) = some (entry.name, UInt64.ofNat entry.bytes.length) :=
  rfl

/-- Files that are kept are read one behind another. -/
theorem parseFrom_kept {files : List Entry}
    (front : Bytes) (areKept : ∀ entry ∈ files, IsKept entry)
    (short : (files.flatMap Entry.bytes).length ≤ kMaxBytes) :
    parseFrom (front ++ files.flatMap Entry.bytes) out front.length (files.map indexed) =
      .ok (out ++ files) := by
  induction files generalizing front out with
  | nil => rw [List.map_nil, parseFrom, List.append_nil]
  | cons entry rest inductionHypothesis =>
      obtain ⟨isKept, restKept⟩ := List.forall_mem_cons.1 areKept
      rw [List.flatMap_cons, List.length_append] at short
      have size : (UInt64.ofNat entry.bytes.length).toNat = entry.bytes.length := by
        apply UInt64.toNat_ofNat_of_lt'
        unfold kMaxBytes at short
        unfold UInt64.size
        omega
      have positive : (0 : UInt64) < UInt64.ofNat entry.bytes.length := by
        rw [UInt64.lt_iff_toNat_lt, size, UInt64.toNat_zero]
        exact List.length_pos_iff.2 (List.isEmpty_eq_false_iff.1 isKept.notEmpty)
      rw [List.flatMap_cons, List.map_cons, parseFrom, nameAndSize_indexed]
      dsimp only
      rw [isKept.base, isKept.named, isKept.allowed, size, decide_eq_true positive, if_neg,
        Bool.and_self, if_pos rfl, readRange_bind, slice_append rfl rfl, ← List.append_assoc,
        ← List.length_append, inductionHypothesis (front ++ entry.bytes) restKept (by omega),
        List.append_assoc]
      · rfl
      · rw [List.length_append, List.length_append]
        omega
      · rw [Bool.false_or, Bool.or_eq_true, decide_eq_true_eq, decide_eq_true_eq,
          List.length_append, List.length_append]
        omega

/-- A name is a text. -/
def IsText (name : Bytes) : Prop :=
  ∃ text, name = utf8 text

theorem isText_basename {name : Bytes} (isText : IsText name) : IsText (basename name) := by
  obtain ⟨text, rfl⟩ := isText
  have high (byte : UInt8) (isHigh : 128 ≤ byte) : (!isSeparator byte) = true := by
    rw [isSeparator, Bool.not_eq_true', Bool.or_eq_false_iff, decide_eq_false_iff_not,
      decide_eq_false_iff_not]
    constructor <;> rintro rfl <;> exact absurd isHigh (by decide)
  obtain ⟨rest, isRest⟩ := Wire.exists_utf8_rtakeWhile high text
  exact ⟨rest, by rw [basename_eq, isRest]⟩

theorem isText_keptBehind {count size : Nat}
    (texts : ∀ entry ∈ entries, IsText entry.name) :
    ∀ entry ∈ keptBehind count size entries, IsText entry.name := by
  induction entries generalizing count size with
  | nil => exact List.forall_mem_nil _
  | cons e rest inductionHypothesis =>
      obtain ⟨isText, restTexts⟩ := List.forall_mem_cons.1 texts
      rw [keptBehind]
      split
      · exact inductionHypothesis restTexts
      · split
        · exact List.forall_mem_nil _
        · exact List.forall_mem_cons.2 ⟨isText_basename isText, inductionHypothesis restTexts⟩

/-- The index of some files. -/
def indexOf (files : List Entry) : Json :=
  .array (files.map indexed)

theorem parse_nil : parse json [] = .ok [] := by
  rw [parse, if_pos (by decide)]

/-- A short index is found behind its length, and the files behind it. -/
theorem parse_eq {text blob : Bytes}
    (short : text.length ≤ 2 ^ 20 - 9) (shortBlob : 0 + blob.length ≤ kMaxBytes) :
    parse json (kMagic ++ littleEndian 4 text.length ++ text ++ blob) =
      parseIndex (kMagic ++ littleEndian 4 text.length ++ text ++ blob) text.length
        (json.parse text) := by
  have magicLength : kMagic.length = 5 := by
    decide
  have length : (kMagic ++ littleEndian 4 text.length ++ text ++ blob).length =
      9 + text.length + blob.length := by
    rw [List.length_append, List.length_append, List.length_append, littleEndian_length,
      magicLength]
  have magic : slice 0 5 (kMagic ++ littleEndian 4 text.length ++ text ++ blob) = kMagic := by
    rw [List.append_assoc, List.append_assoc]
    exact @slice_append [] kMagic _ 5 0 rfl magicLength.symm
  have lengthField : slice 5 4 (kMagic ++ littleEndian 4 text.length ++ text ++ blob) =
      littleEndian 4 text.length := by
    rw [List.append_assoc, List.append_assoc]
    exact slice_append magicLength.symm (littleEndian_length _ _).symm
  have isText : slice 9 text.length (kMagic ++ littleEndian 4 text.length ++ text ++ blob) =
      text := by
    rw [List.append_assoc (kMagic ++ _)]
    refine slice_append ?_ rfl
    rw [List.length_append, littleEndian_length, magicLength]
  have noMore : ¬ kMaxBytes + 2 ^ 20 <
      (kMagic ++ littleEndian 4 text.length ++ text ++ blob).length := by
    rw [length]
    omega
  have small : text.length < 256 ^ 4 := by
    omega
  unfold parse
  rw [if_neg (by omega), readRange_bind (by omega), magic, if_neg, readRange_bind (by omega),
    lengthField, ofLittleEndian_littleEndian _ _ small]
  · dsimp only
    rw [if_neg (by omega), readRange_bind (by omega), isText]
  · rw [Bool.or_eq_true, decide_eq_true_eq, decide_eq_true_eq, not_or]
    exact ⟨not_not.2 rfl, noMore⟩

/-- What was built is read as it was kept. -/
theorem parse_of_build {text : Bytes}
    (printed : json.dump (indexOf (kept entries)) = some text)
    (readBack : json.parse text = some (indexOf (kept entries)))
    (short : text.length ≤ 2 ^ 20 - 9) :
    ∃ archive, build json entries = some archive ∧ parse json archive = .ok (kept entries) := by
  obtain ⟨areKept, few, shortBlob⟩ := kept_fits entries
  unfold build
  rw [buildFrom_eq]
  dsimp only
  rw [List.length_nil, ← kept, List.nil_append, List.nil_append]
  by_cases empty : kept entries = []
  · rw [empty]
    exact ⟨[], rfl, parse_nil⟩
  · rw [if_neg, ← indexOf, printed]
    · refine ⟨_, rfl, ?_⟩
      rw [parse_eq short shortBlob, readBack]
      unfold parseIndex indexOf
      dsimp only
      have isFew : ¬ kMaxFiles < ((kept entries).map indexed).length := by
        rw [List.length_map]
        omega
      have front : (kMagic ++ littleEndian 4 text.length ++ text).length = 9 + text.length := by
        rw [List.length_append, List.length_append, littleEndian_length]
        rfl
      rw [if_neg isFew, ← front]
      exact parseFrom_kept _ areKept (by omega)
    · rw [List.isEmpty_iff, List.map_eq_nil_iff]
      exact empty

end

end Parvane.Packs
