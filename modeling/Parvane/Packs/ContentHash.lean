import Parvane.Foundation.KeyedList
import Parvane.Foundation.Sha256
import Parvane.Packs.Archive

/-!
# The hash of a pack

The hash of a pack is that of its files in the order of their names: the name, a zero byte, the
size and the digest of each.  It does not depend on the order of the files, but names may have
zero bytes, so different packs can have the same hash.
-/

namespace Parvane.Packs

open Wire (Bytes FixedBytes utf8 littleEndian littleEndian_length)
open Convergence Marking

/-! ## Digests in text -/

def b64val (c : UInt8) : Option UInt32 :=
  if 65 ≤ c ∧ c ≤ 90 then some (c.toUInt32 - 65)
  else if 97 ≤ c ∧ c ≤ 122 then some (c.toUInt32 - 97 + 26)
  else if 48 ≤ c ∧ c ≤ 57 then some (c.toUInt32 - 48 + 52)
  else if c = 43 then some 62
  else if c = 47 then some 63
  else none

/-- The equals sign, line ends and blanks are left out. -/
def isSkipped (c : UInt8) : Bool :=
  c = 61 || c = 10 || c = 13 || c = 32

def b64decodeFrom (out : Bytes) (buf : UInt32) (bits : Nat) (b64 : Bytes) : Option Bytes :=
  match b64 with
  | [] => some out
  | c :: rest =>
      if isSkipped c then b64decodeFrom out buf bits rest
      else
        match b64val c with
        | none => none
        | some v =>
            let buf := buf <<< 6 ||| v
            let bits := bits + 6
            if 8 ≤ bits then
              b64decodeFrom (out ++ [(buf >>> UInt32.ofNat (bits - 8)).toUInt8]) buf (bits - 8) rest
            else b64decodeFrom out buf bits rest

def b64decode (b64 : Bytes) : Option Bytes :=
  b64decodeFrom [] 0 0 b64

/-! ## Hashes -/

/-- The size of a file and its digest, which stand behind its name and a zero byte. -/
def sizeAndDigest (sha256 : Bytes -> FixedBytes 32) (e : Entry) : Bytes :=
  littleEndian 4 e.bytes.length ++ (sha256 e.bytes).bytes

/-- The files in the order of their names. -/
def sorted (entries : List Entry) : List Entry :=
  KeyedList.sort Entry.name entries

def joined (sha256 : Bytes -> FixedBytes 32) (entries : List Entry) : Bytes :=
  (sorted entries).flatMap (record Entry.name (sizeAndDigest sha256) 0)

def contentHash (sha256 : Bytes -> FixedBytes 32) (entries : List Entry) : FixedBytes 32 :=
  sha256 (joined sha256 entries)

def archiveMatchesContentHash
    (json : JsonLibrary) (sha256 : Bytes -> FixedBytes 32)
    (archive hashB64 : Bytes) : Except OutOfRange Bool :=
  parse json archive >>= fun entries =>
    if entries.isEmpty then .ok false
    else if hashB64.isEmpty then .ok true
    else
      match b64decode hashB64 with
      | none => .ok false
      | some expected =>
          .ok (expected.length = 32 && expected = (contentHash sha256 entries).bytes)

section

variable {json : JsonLibrary} {sha256 : Bytes -> FixedBytes 32} {entries others : List Entry}
  {archive hashB64 : Bytes}

/-! ## The order of the files -/

theorem sorted_perm (entries : List Entry) : (sorted entries).Perm entries :=
  List.perm_insertionSort _ _

theorem sorted_pairwise (entries : List Entry) :
    (sorted entries).Pairwise fun first second => first.name ≤ second.name :=
  List.pairwise_insertionSort _ _

/-- The names of the same files are in the same order. -/
theorem names_sorted_of_perm (same : entries.Perm others) :
    (sorted entries).map Entry.name = (sorted others).map Entry.name := by
  have permuted : ((sorted entries).map Entry.name).Perm ((sorted others).map Entry.name) :=
    (((sorted_perm entries).trans same).trans (sorted_perm others).symm).map _
  refine permuted.eq_of_pairwise
    (fun _ _ _ _ (below : _ ≤ _) above => le_antisymm below above) ?_ ?_
  · exact List.pairwise_map.2 (sorted_pairwise entries)
  · exact List.pairwise_map.2 (sorted_pairwise others)

/-- Different names leave one order only. -/
theorem sorted_eq_of_perm
    (different : (others.map Entry.name).Nodup)
    (same : entries.Perm others) : sorted entries = sorted others := by
  have otherDistinct : KeyedList.DistinctKeys Entry.name others := List.pairwise_map.1 different
  have distinct : KeyedList.DistinctKeys Entry.name entries :=
    (same.pairwise_iff fun unequal => unequal.symm).2 otherDistinct
  have permuted := ((sorted_perm entries).trans same).trans (sorted_perm others).symm
  refine permuted.eq_of_pairwise ?_ (KeyedList.sort_strictlySorted distinct)
    (KeyedList.sort_strictlySorted otherDistinct)
  intro first second _ _ less greater
  exact absurd less greater.asymm

/-- What was built is read as it was kept, with the same hash; the hash of files with different
names does not depend on their order; and reading any bytes stays inside of them. -/
theorem parse_build
    {json : JsonLibrary}
    {sha256 : Bytes -> FixedBytes 32}
    {entries : List Entry}
    (texts : ∀ entry ∈ entries, IsText entry.name)
    (inverse : (∀ entry ∈ kept entries, IsText entry.name) ->
      ∃ text, json.dump (indexOf (kept entries)) = some text ∧
        json.parse text = some (indexOf (kept entries)))
    (short : ∀ text, json.dump (indexOf (kept entries)) = some text ->
      text.length ≤ 2 ^ 20 - 9) :
    (∃ archive, build json entries = some archive ∧ parse json archive = .ok (kept entries) ∧
      ∀ unpacked, parse json archive = .ok unpacked ->
        contentHash sha256 unpacked = contentHash sha256 (kept entries)) ∧
    (∀ first second : List Entry, (second.map Entry.name).Nodup -> first.Perm second ->
      contentHash sha256 first = contentHash sha256 second) ∧
    ∀ bytes, ∃ unpacked, parse json bytes = .ok unpacked := by
  obtain ⟨text, printed, readBack⟩ := inverse (isText_keptBehind texts)
  obtain ⟨archive, isArchive, isKept⟩ := parse_of_build printed readBack (short text printed)
  refine ⟨⟨archive, isArchive, isKept, ?_⟩, ?_, parse_inside json⟩
  · intro unpacked isUnpacked
    cases isKept.symm.trans isUnpacked
    rfl
  · intro first second different same
    rw [contentHash, contentHash, joined, joined, sorted_eq_of_perm different same]

/-- Two stickers, one of them in a folder, and a file that is none. -/
def twoStickers : List Entry :=
  [⟨utf8 "pack/a.png", utf8 "one"⟩, ⟨utf8 "b.txt", utf8 "two"⟩,
    ⟨utf8 "c.WEBP", utf8 "three"⟩]

/-- The text of the index of two stickers. -/
def twoStickersText : Bytes :=
  utf8 "[\x7b\"name\":\"a.png\",\"size\":3\x7d,\x7b\"name\":\"c.WEBP\",\"size\":5\x7d]"

def twoStickersJson : JsonLibrary where
  dump _ := some twoStickersText
  parse text := if text = twoStickersText then some (indexOf (kept twoStickers)) else none

theorem parse_build_twoStickers :
    ∃ archive, build twoStickersJson twoStickers = some archive ∧
      parse twoStickersJson archive = .ok (kept twoStickers) ∧
      ∀ unpacked, parse twoStickersJson archive = .ok unpacked ->
        contentHash Sha256.sha256 unpacked = contentHash Sha256.sha256 (kept twoStickers) := by
  refine (parse_build ?texts ?inverse ?short).1
  case texts =>
    intro entry member
    simp only [twoStickers, List.mem_cons, List.not_mem_nil, or_false] at member
    rcases member with rfl | rfl | rfl <;> exact ⟨_, rfl⟩
  case inverse =>
    refine fun _ => ⟨twoStickersText, rfl, ?_⟩
    unfold twoStickersJson
    dsimp only
    exact if_pos rfl
  case short =>
    intro text printed
    cases printed
    decide +kernel

/-! ## What the hash tells -/

/-- The bytes that are hashed for some files. -/
def hashed (sha256 : Bytes -> FixedBytes 32) (entries : List Entry) : List Bytes :=
  joined sha256 entries :: entries.map Entry.bytes

/-- No two of some byte strings have the same digest. -/
def CollisionFree (sha256 : Bytes -> FixedBytes 32) (strings : List Bytes) : Prop :=
  ∀ first ∈ strings, ∀ second ∈ strings, sha256 first = sha256 second -> first = second

/-- Nowhere in the order of the names is one name another one followed by a zero byte. -/
def NamesApart (first second : List Entry) : Prop :=
  ∀ pair ∈ (sorted first).zip (sorted second),
    ¬ Extends 0 pair.1.name pair.2.name ∧ ¬ Extends 0 pair.2.name pair.1.name

theorem namesApart_of_perm (same : entries.Perm others) : NamesApart entries others := by
  intro pair member
  have mapped := List.mem_map_of_mem (f := Prod.map Entry.name Entry.name) member
  rw [← List.zip_map, names_sorted_of_perm same] at mapped
  have sameName : pair.1.name = pair.2.name := by
    obtain ⟨index, inside, isPair⟩ := List.mem_iff_getElem.1 mapped
    rw [List.getElem_zip] at isPair
    exact (congrArg Prod.fst isPair).symm.trans (congrArg Prod.snd isPair)
  rw [sameName]
  exact ⟨not_extends_self _ _, not_extends_self _ _⟩

theorem length_sizeAndDigest (e : Entry) : (sizeAndDigest sha256 e).length = 36 := by
  rw [sizeAndDigest, List.length_append, littleEndian_length, FixedBytes.length_eq]

/-- Where names are apart, the same hash means the same files. -/
theorem perm_of_contentHash
    (free : CollisionFree sha256 (hashed sha256 entries ++ hashed sha256 others))
    (sameHash : contentHash sha256 entries = contentHash sha256 others)
    (apart : NamesApart entries others) : entries.Perm others := by
  have sameJoined : joined sha256 entries = joined sha256 others :=
    free _ (List.mem_append_left _ List.mem_cons_self) _
      (List.mem_append_right _ List.mem_cons_self) sameHash
  have determined : ∀ entry ∈ sorted entries, ∀ other ∈ sorted others,
      entry.name = other.name ->
        sizeAndDigest sha256 entry = sizeAndDigest sha256 other -> entry = other := by
    intro entry member other otherMember sameName sameDigest
    have length : (littleEndian 4 entry.bytes.length).length =
        (littleEndian 4 other.bytes.length).length := by
      rw [littleEndian_length, littleEndian_length]
    obtain ⟨-, digests⟩ := List.append_inj sameDigest length
    have isHashed := List.mem_map_of_mem (f := Entry.bytes) ((sorted_perm entries).mem_iff.1 member)
    have otherHashed :=
      List.mem_map_of_mem (f := Entry.bytes) ((sorted_perm others).mem_iff.1 otherMember)
    have sameBytes := free _ (List.mem_append_left _ (List.mem_cons_of_mem _ isHashed)) _
      (List.mem_append_right _ (List.mem_cons_of_mem _ otherHashed))
      (FixedBytes.bytes_injective digests)
    cases entry
    cases other
    cases sameName
    cases sameBytes
    rfl
  have same := eq_of_flatMap_record length_sizeAndDigest determined sameJoined apart
  exact (sorted_perm entries).symm.trans (same ▸ sorted_perm others)

theorem archiveMatches_eq_true (notEmpty : hashB64 ≠ [])
    (matched : archiveMatchesContentHash json sha256 archive hashB64 = .ok true) :
    ∃ entries, parse json archive = .ok entries ∧
      b64decode hashB64 = some (contentHash sha256 entries).bytes := by
  obtain ⟨entries, parsed⟩ := parse_inside json archive
  refine ⟨entries, parsed, ?_⟩
  unfold archiveMatchesContentHash at matched
  rw [parsed] at matched
  change (if entries.isEmpty = true then _ else _) = _ at matched
  split at matched
  · cases matched
  · split at matched
    · next empty => exact absurd (List.isEmpty_iff.1 empty) notEmpty
    · split at matched
      · cases matched
      · next expected decoded =>
          have both := Except.ok.inj matched
          rw [Bool.and_eq_true, decide_eq_true_eq, decide_eq_true_eq] at both
          rw [decoded, both.2]

/-- Two packs with the same hash, which is that of their files, have the same files up to order
exactly when their names are apart. -/
theorem archiveMatches_binds_iff
    {first second : Bytes}
    (notEmpty : hashB64 ≠ [])
    (firstMatches : archiveMatchesContentHash json sha256 first hashB64 = .ok true)
    (secondMatches : archiveMatchesContentHash json sha256 second hashB64 = .ok true)
    (free : ∀ entries others, parse json first = .ok entries -> parse json second = .ok others ->
      CollisionFree sha256 (hashed sha256 entries ++ hashed sha256 others)) :
    ∃ entries others, parse json first = .ok entries ∧ parse json second = .ok others ∧
      (entries.Perm others ↔ NamesApart entries others) := by
  obtain ⟨entries, parsed, decoded⟩ := archiveMatches_eq_true notEmpty firstMatches
  obtain ⟨others, otherParsed, otherDecoded⟩ := archiveMatches_eq_true notEmpty secondMatches
  refine ⟨entries, others, parsed, otherParsed, namesApart_of_perm, ?_⟩
  refine perm_of_contentHash (free entries others parsed otherParsed) ?_
  exact FixedBytes.bytes_injective (Option.some.inj (decoded.symm.trans otherDecoded))

end

instance (sha256 : Bytes -> FixedBytes 32) (strings : List Bytes) :
    Decidable (CollisionFree sha256 strings) :=
  inferInstanceAs (Decidable (∀ first ∈ strings, ∀ second ∈ strings,
    sha256 first = sha256 second -> first = second))

/-! ## Two packs with one hash -/

/-- A file whose digest is a text without separators. -/
def firstSticker : Entry :=
  ⟨utf8 "a.png", utf8 "124935989"⟩

def secondSticker : Entry :=
  ⟨utf8 "b.png", utf8 "b"⟩

/-- The second file under a name that holds all that is hashed for the first. -/
def longSticker : Entry :=
  ⟨record Entry.name (sizeAndDigest Sha256.sha256) 0 firstSticker ++ utf8 "b.png", utf8 "b"⟩

/-- The name is a text: its digest reads as characters too. -/
def longName : String :=
  "a.png\u0000\u0009\u0000\u0000\u0000\u0006\u07e7Mu\u0019\u069f\u0010#\u0002\u04b2" ++
    "\u0013\u0746\u0016tEs\u000aUu\u001eD\"7\u0009o(4\u001cb.png"

def pairText : Bytes :=
  utf8 "[\x7b\"name\":\"a.png\",\"size\":9\x7d,\x7b\"name\":\"b.png\",\"size\":1\x7d]"

def swappedText : Bytes :=
  utf8 "[\x7b\"name\":\"b.png\",\"size\":1\x7d,\x7b\"name\":\"a.png\",\"size\":9\x7d]"

def longText : Bytes :=
  utf8 "[\x7b\"name\":\"a.png\\u0000\\t\\u0000\\u0000\\u0000\\u0006\\u07e7Mu\\u0019" ++
    utf8 "\\u069f\\u0010#\\u0002\\u04b2\\u0013\\u0746\\u0016tEs\\nUu\\u001eD\\\"7\\to(4" ++
    utf8 "\\u001cb.png\",\"size\":1\x7d]"

/-- The three indexes, as they are read. -/
def stickersJson : JsonLibrary where
  dump _ := none
  parse text :=
    if text = pairText then some (indexOf [firstSticker, secondSticker])
    else if text = swappedText then some (indexOf [secondSticker, firstSticker])
    else if text = longText then some (indexOf [longSticker])
    else none

def archiveOf (text : Bytes) (files : List Entry) : Bytes :=
  kMagic ++ littleEndian 4 text.length ++ text ++ files.flatMap Entry.bytes

def pairArchive : Bytes :=
  archiveOf pairText [firstSticker, secondSticker]

def swappedArchive : Bytes :=
  archiveOf swappedText [secondSticker, firstSticker]

def longArchive : Bytes :=
  archiveOf longText [longSticker]

def pairHash : Bytes :=
  utf8 "TFb9y5V3UCe5jHwSGVHivHk5/jGlAyz/hnSLcf4KPZg="

theorem parse_pairArchive : parse stickersJson pairArchive = .ok [firstSticker, secondSticker] := by
  decide +kernel

theorem parse_swappedArchive :
    parse stickersJson swappedArchive = .ok [secondSticker, firstSticker] := by
  decide +kernel

theorem parse_longArchive : parse stickersJson longArchive = .ok [longSticker] := by
  decide +kernel

theorem pairArchive_matches :
    archiveMatchesContentHash stickersJson Sha256.sha256 pairArchive pairHash = .ok true := by
  decide +kernel

/-- The same files in another order have the same hash, and their names are apart. -/
theorem archiveMatches_binds_pair :
    ∃ entries others, parse stickersJson pairArchive = .ok entries ∧
      parse stickersJson swappedArchive = .ok others ∧
      (entries.Perm others ↔ NamesApart entries others) := by
  refine @archiveMatches_binds_iff stickersJson Sha256.sha256 pairHash pairArchive swappedArchive
    ?_ pairArchive_matches ?_ ?_
  · decide +kernel
  · decide +kernel
  · intro entries others parsed otherParsed
    cases parse_pairArchive.symm.trans parsed
    cases parse_swappedArchive.symm.trans otherParsed
    decide +kernel

/-- Both packs are accepted with one hash, and no two of the strings that are hashed have the same
digest, but one pack has two files and the other has one. -/
theorem pairArchive_longArchive_sameHash :
    IsText longSticker.name ∧
      archiveMatchesContentHash stickersJson Sha256.sha256 pairArchive pairHash = .ok true ∧
      archiveMatchesContentHash stickersJson Sha256.sha256 longArchive pairHash = .ok true ∧
      parse stickersJson pairArchive = .ok [firstSticker, secondSticker] ∧
      parse stickersJson longArchive = .ok [longSticker] ∧
      CollisionFree Sha256.sha256
        (hashed Sha256.sha256 [firstSticker, secondSticker] ++
          hashed Sha256.sha256 [longSticker]) ∧
      ¬ [firstSticker, secondSticker].Perm [longSticker] := by
  refine ⟨⟨longName, ?_⟩, pairArchive_matches, ?_, parse_pairArchive, parse_longArchive, ?_,
    ?_⟩
  · decide +kernel
  · decide +kernel
  · decide +kernel
  · exact fun same => absurd same.length_eq (by decide)

end Parvane.Packs
