import Parvane.Foundation.Base64
import Parvane.Guard.Names
import Parvane.Group.Invariants

/-!
# Invite links

An invite link names the server of a group and holds the secret that lets a user join.  The
links of the previous version are recognised too: one of their forms is a reserved server
name, and a link of this version to that server is taken for one of the previous version.
-/

namespace Parvane.Invite

open Wire Sign Parvane.Group Trimming Splitting
open Guard (byteLength)

def linkBytes : Nat := 32
def maxLinkLen : Nat := 512
def maxLegacyToken : Nat := 128

structure InviteLinkParts where
  domain : String
  linkId : Bytes
  seed : Bytes
  deriving DecidableEq

inductive ParsedInvite
  | v2 (parts : InviteLinkParts)
  | legacyV1 (token : String)
  deriving DecidableEq

def invalid : ProtoError := .invalidField "invite"

/-- What is taken from other libraries, besides what groups need: the public key of a secret
one. -/
structure Library extends toGroup : Group.Library where
  publicKey : Hash -> Hash

section

variable (library : Library)

/-- The identifier that the server knows a link by. -/
def linkIdOf (seed : Hash) : Hash :=
  linkId library.toGroup (library.publicKey seed).bytes

/-- The parts of a link fit together. -/
def check (parts : InviteLinkParts) : Result Unit := do
  require (isValidDomain parts.domain && parts.linkId.length == linkBytes &&
    parts.seed.length == linkBytes) invalid
  let seed ← present (FixedBytes.ofBytes? linkBytes parts.seed) invalid
  require ((linkIdOf library seed).bytes == parts.linkId) invalid

/-- The parts of the link with a known secret. -/
def fromSeed (domain : String) (seed : Hash) : Result InviteLinkParts := do
  require (isValidDomain domain) invalid
  return ⟨domain, (linkIdOf library seed).bytes, seed.bytes⟩

def scheme : List Char := ['h', 't', 't', 'p', 's', ':', '/', '/']
def joinPath : List Char := ['j', 'o', 'i', 'n', '/']

/-- The server name of the links of the previous version. -/
def legacyHost : List Char := ['p', 'a', 'r', 'v', 'a', 'n', 'e', '.', 'i', 'n', 'v', 'i', 't', 'e']

/-- What stands behind the server name. -/
def linkPath (parts : InviteLinkParts) : List Char :=
  joinPath ++ (Base64.encodeUrl parts.linkId ++ '#' :: Base64.encodeUrl parts.seed)

def linkText (parts : InviteLinkParts) : List Char :=
  scheme ++ (parts.domain.toList ++ '/' :: linkPath parts)

def format (parts : InviteLinkParts) : Result String := do
  check library parts
  return String.ofList (linkText parts)

def isTokenChar (c : Char) : Bool :=
  c.isAlphanum || c == '-' || c == '_'

def legacy (token : List Char) : Result ParsedInvite := do
  let token := token.rdropWhile fun c => c == '/'
  require (!(token.isEmpty || maxLegacyToken < byteLength token || !token.all isTokenChar)) invalid
  return .legacyV1 (String.ofList token)

/-- The server name of an authority; with a bad port there is none. -/
def domainOf (authority : List Char) : List Char :=
  match splitOnce [':'] authority with
  | none => authority
  | some (host, port) => if port.isEmpty || !port.all Char.isDigit then [] else host

/-- Read what follows the scheme of a link that is not of the previous version. -/
def parseParts (rest : List Char) : Result ParsedInvite := do
  let (authority, path) ← present (splitOnce ['/'] rest) invalid
  let (path, fragment) ← present (splitOnce ['#'] path) invalid
  let id ← present (path.dropPrefix? joinPath) invalid
  let linkId ← present (Base64.decodeUrl id) invalid
  let seed ← present (Base64.decodeUrl fragment) invalid
  let parts : InviteLinkParts := ⟨String.ofList (domainOf authority), linkId, seed⟩
  check library parts
  return .v2 parts

def parse (input : String) : Result ParsedInvite := do
  let s := trim isWhiteSpace isWhiteSpace input.toList
  require (!(s.isEmpty || maxLinkLen < byteLength s)) invalid
  match splitOnce ['#', '+'] s with
  | some (_, token) => legacy token
  | none =>
      let rest ← present (s.dropPrefix? scheme) invalid
      match rest.dropPrefix? (legacyHost ++ ['/']) with
      | some token => legacy token
      | none => parseParts library rest

end

/-! ## The characters of a link -/

/-- The characters that links are written with. -/
def IsLinkChar (c : Char) : Prop :=
  c.toNat < 128 ∧ isWhiteSpace c = false ∧ c ≠ '+'

theorem isLinkChar_of_isAlphanum {c : Char} (alphanumeric : c.isAlphanum = true) :
    IsLinkChar c := by
  have code : (65 ≤ c.toNat ∧ c.toNat ≤ 90) ∨ (97 ≤ c.toNat ∧ c.toNat ≤ 122) ∨
      (48 ≤ c.toNat ∧ c.toNat ≤ 57) := by
    unfold Char.isAlphanum Char.isAlpha Char.isUpper Char.isLower Char.isDigit at alphanumeric
    simpa [UInt32.le_iff_toNat_le, or_assoc] using alphanumeric
  refine ⟨by omega, ?_, ?_⟩
  · simp only [isWhiteSpace, Bool.or_eq_false_iff, Bool.and_eq_false_iff, beq_eq_false_iff_ne,
      decide_eq_false_iff_not]
    omega
  · rintro rfl
    exact absurd alphanumeric (by decide)

theorem isLinkChar_of_isUrlChar {c : Char} (url : Base64.isUrlChar c = true) : IsLinkChar c := by
  rcases (by simpa [Base64.isUrlChar, or_assoc] using url :
    c.isAlphanum = true ∨ c = '-' ∨ c = '_') with alphanumeric | rfl | rfl
  · exact isLinkChar_of_isAlphanum alphanumeric
  all_goals exact ⟨by decide, rfl, by decide⟩

theorem isLinkChar_of_mem_encodeUrl {bytes : Bytes} {c : Char}
    (member : c ∈ Base64.encodeUrl bytes) : IsLinkChar c :=
  isLinkChar_of_isUrlChar (Base64.isUrlChar_encodeUrl member)

theorem byteLength_of_isLinkChar {text : List Char}
    (linkChars : ∀ c ∈ text, IsLinkChar c) : byteLength text = text.length := by
  induction text with
  | nil => rfl
  | cons c text inductionHypothesis =>
      rw [List.forall_mem_cons] at linkChars
      obtain ⟨⟨small, -⟩, others⟩ := linkChars
      have one : c.utf8Size = 1 := by
        rw [Char.utf8Size, if_pos]
        rw [UInt32.le_iff_toNat_le]
        exact Nat.le_of_lt_succ small
      rw [Guard.byteLength_cons, one, inductionHypothesis others, List.length_cons, Nat.add_comm]

/-! ## Server names -/

theorem domain_char {domain : String}
    (valid : isValidDomain domain = true) {c : Char}
    (member : c ∈ domain.toList) : c.isAlphanum = true ∨ c = '.' ∨ c = '_' ∨ c = '-' := by
  rw [isValidDomain, validPart, Bool.and_eq_true, List.all_eq_true] at valid
  simpa [or_assoc] using valid.2 c member

theorem isLinkChar_of_mem_domain {domain : String}
    (valid : isValidDomain domain = true) {c : Char}
    (member : c ∈ domain.toList) : IsLinkChar c := by
  rcases domain_char valid member with alphanumeric | rfl | rfl | rfl
  · exact isLinkChar_of_isAlphanum alphanumeric
  all_goals exact ⟨by decide, rfl, by decide⟩

theorem not_mem_domain {domain : String} {c : Char}
    (valid : isValidDomain domain = true)
    (separator : c = '/' ∨ c = ':') : c ∉ domain.toList := by
  intro member
  rcases separator with rfl | rfl
  all_goals
    rcases domain_char valid member with found | found | found | found
    all_goals exact absurd found (by decide)

theorem length_domain {domain : String}
    (valid : isValidDomain domain = true) : domain.toList.length ≤ maxPartLen := by
  rw [← byteLength_of_isLinkChar fun c => isLinkChar_of_mem_domain valid,
    ← Guard.utf8ByteSize_ofList, String.ofList_toList]
  simp only [isValidDomain, validPart, Bool.and_eq_true, decide_eq_true_eq] at valid
  exact valid.1.1.1.1.2

/-- A server name has no port. -/
theorem domainOf_domain {domain : String}
    (valid : isValidDomain domain = true) : domainOf domain.toList = domain.toList := by
  rw [domainOf, splitOnce_eq_none]
  exact fun found => not_mem_domain valid (.inr rfl) (found.mem List.mem_cons_self)

/-! ## Written links -/

section

variable {library : Library} {parts : InviteLinkParts}

theorem of_check (checked : check library parts = .ok ()) :
    isValidDomain parts.domain = true ∧ parts.linkId.length = linkBytes ∧
      parts.seed.length = linkBytes := by
  simp only [check, bind_eq_ok, require_eq_ok, Bool.and_eq_true, beq_iff_eq] at checked
  obtain ⟨-, ⟨⟨valid, idLength⟩, seedLength⟩, -⟩ := checked
  exact ⟨valid, idLength, seedLength⟩

theorem format_eq_ok (checked : check library parts = .ok ()) :
    format library parts = .ok (String.ofList (linkText parts)) := by
  rw [format, checked]
  rfl

theorem isLinkChar_of_mem_linkText
    (valid : isValidDomain parts.domain = true) {c : Char}
    (member : c ∈ linkText parts) : IsLinkChar c := by
  have inScheme : ∀ c ∈ scheme, IsLinkChar c := by
    unfold scheme IsLinkChar
    simp only [List.forall_mem_cons, List.not_mem_nil, false_implies, implies_true, and_true]
    decide
  have inPath : ∀ c ∈ joinPath, IsLinkChar c := by
    unfold joinPath IsLinkChar
    simp only [List.forall_mem_cons, List.not_mem_nil, false_implies, implies_true, and_true]
    decide
  simp only [linkText, linkPath, List.mem_append, List.mem_cons] at member
  rcases member with found | found | rfl | found | found | rfl | found
  · exact inScheme c found
  · exact isLinkChar_of_mem_domain valid found
  · exact ⟨by decide, rfl, by decide⟩
  · exact inPath c found
  · exact isLinkChar_of_mem_encodeUrl found
  · exact ⟨by decide, rfl, by decide⟩
  · exact isLinkChar_of_mem_encodeUrl found

theorem length_linkText (checked : check library parts = .ok ()) :
    (linkText parts).length ≤ maxLinkLen := by
  obtain ⟨valid, idLength, seedLength⟩ := of_check checked
  have domainLength := length_domain valid
  have idText := Base64.length_encodeUrl_le parts.linkId
  have seedText := Base64.length_encodeUrl_le parts.seed
  rw [idLength] at idText
  rw [seedLength] at seedText
  simp only [linkText, linkPath, scheme, joinPath, List.length_append, List.length_cons,
    List.length_nil]
  simp only [maxPartLen, linkBytes] at domainLength idText seedText
  rw [maxLinkLen]
  omega

/-- A link is read as the way it begins says. -/
theorem parse_linkText (checked : check library parts = .ok ()) :
    parse library (String.ofList (linkText parts)) =
      match (parts.domain.toList ++ '/' :: linkPath parts).dropPrefix? (legacyHost ++ ['/']) with
      | some token => legacy token
      | none => parseParts library (parts.domain.toList ++ '/' :: linkPath parts) := by
  obtain ⟨valid, -⟩ := of_check checked
  have linkChars : ∀ c ∈ linkText parts, IsLinkChar c :=
    fun c => isLinkChar_of_mem_linkText valid
  have untrimmed : trim isWhiteSpace isWhiteSpace (linkText parts) = linkText parts :=
    trim_eq_self_iff.2 ⟨fun c head => (linkChars c (List.mem_of_mem_head? head)).2.1,
      fun c last => (linkChars c (List.mem_of_mem_getLast? last)).2.1⟩
  have noMark : splitOnce ['#', '+'] (linkText parts) = none :=
    splitOnce_eq_none fun found => (linkChars '+' (found.mem (by decide))).2.2 rfl
  have fits : (!((linkText parts).isEmpty || maxLinkLen < byteLength (linkText parts))) = true := by
    rw [byteLength_of_isLinkChar linkChars]
    simpa using ⟨List.cons_ne_nil _ _, length_linkText checked⟩
  rw [parse, String.toList_ofList]
  rw [untrimmed, fits, noMark, linkText, dropPrefix?_append]
  rfl

theorem parseParts_linkPath (checked : check library parts = .ok ()) :
    parseParts library (parts.domain.toList ++ '/' :: linkPath parts) = .ok (.v2 parts) := by
  obtain ⟨valid, -⟩ := of_check checked
  have noFragment : '#' ∉ joinPath ++ Base64.encodeUrl parts.linkId := by
    rw [List.mem_append, not_or]
    refine ⟨by decide, fun member => ?_⟩
    exact absurd (Base64.isUrlChar_encodeUrl member) (by decide)
  simp only [parseParts, bind_eq_ok, present_eq_ok]
  refine ⟨(parts.domain.toList, linkPath parts), splitOnce_append (not_mem_domain valid (.inl rfl)),
    (joinPath ++ Base64.encodeUrl parts.linkId, Base64.encodeUrl parts.seed), ?_,
    Base64.encodeUrl parts.linkId, dropPrefix?_append _ _,
    parts.linkId, Base64.decodeUrl_encodeUrl _, parts.seed, Base64.decodeUrl_encodeUrl _, ?_⟩
  · dsimp only
    rw [linkPath, ← List.append_assoc, splitOnce_append noFragment]
  · dsimp only
    rw [domainOf_domain valid, String.ofList_toList]
    exact ⟨(), checked, rfl⟩

/-- A token of the previous version has none of the separators of this one. -/
theorem legacy_of_mem {token : List Char}
    (member : '#' ∈ token) : legacy token = .error invalid := by
  have stays : '#' ∈ token.rdropWhile fun c => c == '/' := by
    rw [← @List.rdropWhile_append_rtakeWhile _ (fun c => c == '/') token] at member
    refine (List.mem_append.1 member).resolve_right fun dropped => ?_
    exact absurd (List.mem_rtakeWhile_imp dropped) (by decide)
  have bad : (token.rdropWhile fun c => c == '/').all isTokenChar = false := by
    rw [List.all_eq_false]
    exact ⟨'#', stays, by decide⟩
  rw [legacy, bad, Bool.not_false, Bool.or_true]
  rfl

/-- The link of a server with the reserved name is not accepted. -/
theorem parse_reserved
    (checked : check library parts = .ok ())
    (reserved : parts.domain.toList = legacyHost) :
    parse library (String.ofList (linkText parts)) = .error invalid := by
  have dropped : (parts.domain.toList ++ '/' :: linkPath parts).dropPrefix?
      (legacyHost ++ ['/']) = some (linkPath parts) := by
    rw [reserved, dropPrefix?_eq_some, List.append_assoc, List.singleton_append]
  rw [parse_linkText checked, dropped]
  exact legacy_of_mem (List.mem_append_right _ (List.mem_append_right _ List.mem_cons_self))

/-- Only what stands before the first slash decides whether a link is of the previous
version. -/
theorem dropPrefix?_legacyHost
    (valid : isValidDomain parts.domain = true) (other : parts.domain.toList ≠ legacyHost) :
    (parts.domain.toList ++ '/' :: linkPath parts).dropPrefix? (legacyHost ++ ['/']) = none := by
  rw [Option.eq_none_iff_forall_not_mem]
  intro token dropped
  have same := dropPrefix?_eq_some.1 dropped
  rw [List.append_assoc, List.singleton_append] at same
  have split : splitOnce ['/'] (parts.domain.toList ++ '/' :: linkPath parts) =
      some (parts.domain.toList, linkPath parts) :=
    splitOnce_append (not_mem_domain valid (.inl rfl))
  rw [same, splitOnce_append (by decide), Option.some.injEq, Prod.mk.injEq] at split
  exact other split.1.symm

/-- A link that was written is read back, unless its server has the reserved name. -/
theorem parse_format_iff (checked : check library parts = .ok ()) :
    (∃ link, format library parts = .ok link ∧ parse library link = .ok (.v2 parts)) ↔
      parts.domain ≠ "parvane.invite" := by
  have sameName : parts.domain = "parvane.invite" ↔ parts.domain.toList = legacyHost :=
    String.toList_inj.symm
  rw [Ne, sameName]
  constructor
  · rintro ⟨link, written, isRead⟩ reserved
    rw [format_eq_ok checked] at written
    cases written
    rw [parse_reserved checked reserved] at isRead
    cases isRead
  · intro other
    obtain ⟨valid, -⟩ := of_check checked
    refine ⟨_, format_eq_ok checked, ?_⟩
    rw [parse_linkText checked, dropPrefix?_legacyHost valid other]
    exact parseParts_linkPath checked

end

/-! ## The link of the secret that is all zeros -/

def zeroSeed : Hash := ⟨List.replicate 32 0, length_zeros⟩

def zeroKey : Hash :=
  ⟨[59, 106, 39, 188, 206, 182, 164, 45, 98, 163, 168, 208, 42, 111, 13, 115, 101, 50, 21, 119,
    29, 226, 67, 166, 58, 192, 72, 161, 139, 89, 218, 41], rfl⟩

def zeroLink : Hash :=
  ⟨[19, 158, 57, 64, 230, 75, 84, 145, 114, 32, 136, 217, 160, 215, 65, 98, 143, 200, 38, 224,
    148, 117, 211, 65, 167, 128, 172, 222, 60, 75, 128, 112], rfl⟩

/-- The libraries, as they are for this secret. -/
def sampleInviteLibrary : Library where
  toGroup :=
    { sampleLibrary (fun _ => sampleCreate) with
      sha256 := fun bytes => if bytes = zeroKey.bytes then zeroLink else sampleHash bytes }
  publicKey seed := if seed = zeroSeed then zeroKey else seed

def zeroParts (domain : String) : InviteLinkParts :=
  ⟨domain, zeroLink.bytes, zeroSeed.bytes⟩

theorem parse_format_sample :
    check sampleInviteLibrary (zeroParts "parvane.example") = .ok () ∧
      ∃ link, format sampleInviteLibrary (zeroParts "parvane.example") = .ok link ∧
        parse sampleInviteLibrary link = .ok (.v2 (zeroParts "parvane.example")) := by
  have checked : check sampleInviteLibrary (zeroParts "parvane.example") = .ok () := by
    decide +kernel
  exact ⟨checked, (parse_format_iff checked).2 (by decide)⟩

/-- A link that was made for the reserved name is rejected. -/
theorem reserved_is_rejected :
    fromSeed sampleInviteLibrary "parvane.invite" zeroSeed = .ok (zeroParts "parvane.invite") ∧
      check sampleInviteLibrary (zeroParts "parvane.invite") = .ok () ∧
      format sampleInviteLibrary (zeroParts "parvane.invite") =
        .ok ("https://parvane.invite/join/E545QOZLVJFyIIjZoNdBYo_IJuCUddNBp4Cs3jxLgHA#" ++
          "AAAAAAAAAAAAAAAAAAAAAAAAAAAAAAAAAAAAAAAAAAA") ∧
      parse sampleInviteLibrary
        ("https://parvane.invite/join/E545QOZLVJFyIIjZoNdBYo_IJuCUddNBp4Cs3jxLgHA#" ++
          "AAAAAAAAAAAAAAAAAAAAAAAAAAAAAAAAAAAAAAAAAAA") = .error (.invalidField "invite") := by
  refine ⟨?_, ?_, ?_, ?_⟩ <;> decide +kernel

end Parvane.Invite
