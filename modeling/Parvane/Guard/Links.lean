import Parvane.Guard.Names

/-!
# Links and media types

A link is followed only when it names a web server: it has one of two schemes, no whitespace
and no invisible characters, and nothing before the host that would disguise it.  Media are
shown only when their type is one of few.
-/

namespace Parvane.Guard

open Trimming

/-! ## Links -/

def maxUrlBytes : Nat := 2048

def https : List Char := ['h', 't', 't', 'p', 's', ':', '/', '/']
def http : List Char := ['h', 't', 't', 'p', ':', '/', '/']

/-- The end of the authority of a link. -/
def endsAuthority (c : Char) : Bool :=
  c == '/' || c == '?' || c == '#'

/-- What stands between the scheme and the path of an allowed link, in lower case. -/
def authorityOf (link : List Char) : Option (List Char) := do
  let lower := link.map Char.toLower
  let rest ← (lower.dropPrefix? https).or (lower.dropPrefix? http)
  if rest.isEmpty || rest.head? == some '/' then none
  else
    let authority := rest.takeWhile fun c => !endsAuthority c
    if authority.contains '@' then none else some authority

/-- A character that may not stand in a link. -/
def isHidden (c : Char) : Bool :=
  isControl c || isWhiteSpace c || isFormatChar c

/-- The link without whitespace around it, if it may be followed. -/
def safeUrl (url : String) : Option String :=
  let trimmed := trim isWhiteSpace isWhiteSpace url.toList
  if trimmed.isEmpty || maxUrlBytes < byteLength trimmed || trimmed.any isHidden then none
  else (authorityOf trimmed).map fun _ => String.ofList trimmed

/-- The host of an authority without user: an address in brackets, or what stands before the
port. -/
def hostOf (authority : List Char) : List Char :=
  match authority with
  | '[' :: _ => authority.takeWhile fun c => c != ']'
  | _ => authority.takeWhile fun c => c != ':'

/-- A link that is what its check returned, with a host and no user before it. -/
def KeptLink (link : String) : Prop :=
  safeUrl link = some link ∧
    ∃ authority, authorityOf link.toList = some authority ∧ '@' ∉ authority ∧
      hostOf authority ≠ []

/-- A link without whitespace around it and, if it has an authority, with a host. -/
def Bare (link : String) : Prop :=
  trim isWhiteSpace isWhiteSpace link.toList = link.toList ∧
    ∀ authority ∈ authorityOf link.toList, hostOf authority ≠ []

theorem safeUrl_eq_some {url link : String}
    (safe : safeUrl url = some link) :
    link.toList = trim isWhiteSpace isWhiteSpace url.toList ∧
      (authorityOf (trim isWhiteSpace isWhiteSpace url.toList)).isSome := by
  rw [safeUrl] at safe
  split at safe
  · cases safe
  · obtain ⟨authority, found, rfl⟩ := Option.map_eq_some_iff.1 safe
    rw [String.toList_ofList, found]
    exact ⟨rfl, rfl⟩

theorem at_not_mem_authorityOf {link authority : List Char}
    (found : authorityOf link = some authority) : '@' ∉ authority := by
  rw [authorityOf] at found
  obtain ⟨rest, -, found⟩ := Option.bind_eq_some_iff.1 found
  split at found
  · cases found
  · dsimp only at found
    split at found
    · cases found
    · next noUser =>
        cases found
        simpa using noUser

/-- A link that passes is kept as it should be when it is bare. -/
theorem keptLink_iff (link : String) : KeptLink link ↔ (safeUrl link).isSome ∧ Bare link := by
  constructor
  · rintro ⟨safe, authority, found, -, host⟩
    refine ⟨by rw [safe]; rfl, (safeUrl_eq_some safe).1.symm, ?_⟩
    intro other otherFound
    rw [found, Option.mem_some] at otherFound
    rwa [← otherFound]
  · rintro ⟨passes, trimmed, host⟩
    obtain ⟨other, safe⟩ := Option.isSome_iff_exists.1 passes
    obtain ⟨same, hasAuthority⟩ := safeUrl_eq_some safe
    rw [trimmed] at same hasAuthority
    obtain ⟨authority, found⟩ := Option.isSome_iff_exists.1 hasAuthority
    rw [String.toList_inj.1 same] at safe
    exact ⟨safe, authority, found, at_not_mem_authorityOf found, host authority found⟩

/-! ## Media types -/

def octetStream : String := "application/octet-stream"

/-- The types that are shown or played. -/
def inlineMime : List String :=
  ["image/jpeg", "image/png", "image/gif", "image/webp", "video/mp4", "video/webm",
    "video/quicktime", "audio/ogg", "audio/mpeg", "audio/mp4", "audio/webm", "audio/aac",
    "audio/wav", "audio/x-wav", "application/x-tgsticker"]

/-- The type without parameters and in lower case, if it is one of those allowed. -/
def safeMime (mime : String) : String :=
  let base := trim isWhiteSpace isWhiteSpace (mime.toList.takeWhile fun c => c != ';')
  let base := String.ofList (base.map Char.toLower)
  (inlineMime.find? fun allowed => allowed == base).getD octetStream

theorem safeMime_mem (mime : String) : safeMime mime ∈ octetStream :: inlineMime := by
  unfold safeMime
  dsimp only
  cases found : inlineMime.find? fun allowed => allowed ==
      String.ofList ((trim isWhiteSpace isWhiteSpace
        (mime.toList.takeWhile fun c => c != ';')).map Char.toLower) with
  | none => exact List.mem_cons_self
  | some allowed => exact List.mem_cons_of_mem _ (List.mem_of_find?_eq_some found)

theorem safeMime_of_mem : ∀ mime ∈ octetStream :: inlineMime, safeMime mime = mime := by
  decide +kernel

@[simp] theorem safeMime_safeMime (mime : String) : safeMime (safeMime mime) = safeMime mime :=
  safeMime_of_mem _ (safeMime_mem mime)

end Parvane.Guard
