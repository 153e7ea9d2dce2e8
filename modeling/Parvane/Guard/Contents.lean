import Parvane.Guard.Links

/-!
# The guard of contents

What a sender writes is brought into a harmless form before the recipient sees it.  Markings of
a text are cut at its end, and those of an unknown type dropped; links that may not be followed
go; media get a known type and a safe name.  Fields that the guard does not look at are left
out here.
-/

namespace Parvane.Guard

open Trimming

/-! ## Data -/

inductive EntityType
  | unspecified
  | bold
  | italic
  | underline
  | strike
  | spoiler
  | code
  | pre
  | textUrl
  | url
  | mention
  | mentionName
  | hashtag
  | email
  | phone
  | blockquote
  | customEmoji
  deriving DecidableEq

/-- The types in the order of their numbers. -/
def EntityType.all : List EntityType :=
  [.unspecified, .bold, .italic, .underline, .strike, .spoiler, .code, .pre, .textUrl, .url,
    .mention, .mentionName, .hashtag, .email, .phone, .blockquote, .customEmoji]

/-- The type with a number, if it is known. -/
def EntityType.ofNumber (number : Int32) : Option EntityType :=
  if 0 ≤ number.toInt then EntityType.all[number.toInt.toNat]? else none

/-- A marking of a part of a text, counted in units of UTF-16. -/
@[ext] structure Entity where
  type : Int32
  offset : UInt32
  length : UInt32
  url : String := ""
  user : Option UserRef := none
  language : String := ""
  customEmojiId : String := ""
  deriving DecidableEq

@[ext] structure Media where
  mime : String
  name : String
  caption : String
  captionEntities : List Entity
  deriving DecidableEq

@[ext] structure LinkPreview where
  url : String
  image : Option Media
  deriving DecidableEq

@[ext] structure Text where
  text : String
  entities : List Entity
  preview : Option LinkPreview := none
  deriving DecidableEq

/-- The content of a message; the guard leaves the other kinds as they are. -/
inductive Content
  | text (text : Text)
  | media (media : Media)
  | sticker (media : Option Media)
  | edit (text : Option Text)
  | article (media : List Media)
  | other
  deriving DecidableEq

/-! ## The guard -/

/-- The number of units of UTF-16 of a text. -/
def utf16Units (text : String) : Nat :=
  (text.toList.map fun c => if 0x10000 ≤ c.toNat then 2 else 1).sum

def utf16Len (text : String) : UInt32 :=
  UInt32.ofNat (utf16Units text)

/-- The length of a marking, cut at the end of its text. -/
def cutLength (len : UInt32) (entity : Entity) : UInt32 :=
  if entity.length ≤ len - entity.offset then entity.length else len - entity.offset

/-- A marking of a known type, if what it refers to may stay. -/
def checkEntity (type : EntityType) (entity : Entity) : Option Entity :=
  match type with
  | .textUrl => if (safeUrl entity.url).isSome then some entity else none
  | .mentionName =>
      if entity.user.any fun user => isValidAddress user.address then some entity else none
  | _ => some { entity with url := "" }

/-- A marking, cut at the end of its text, if it stays. -/
def sanitizeEntity (len : UInt32) (entity : Entity) : Option Entity :=
  match EntityType.ofNumber entity.type with
  | none => none
  | some type =>
      if type = .unspecified ∨ len ≤ entity.offset then none
      else if cutLength len entity = 0 then none
      else checkEntity type { entity with length := cutLength len entity }

def sanitizeEntities (text : String) (entities : List Entity) : List Entity :=
  entities.filterMap (sanitizeEntity (utf16Len text))

def sanitizeMedia (media : Media) : Media where
  mime := safeMime media.mime
  name := if media.name = "" then "" else safeFileName media.name
  caption := media.caption
  captionEntities := sanitizeEntities media.caption media.captionEntities

def sanitizePreview (preview : LinkPreview) : LinkPreview where
  url := if (safeUrl preview.url).isSome then preview.url else ""
  image := preview.image.map sanitizeMedia

/-- A preview without a link goes. -/
def keepPreview (preview : LinkPreview) : Option LinkPreview :=
  let preview := sanitizePreview preview
  if preview.url = "" then none else some preview

def sanitizeText (text : Text) : Text where
  text := text.text
  entities := sanitizeEntities text.text text.entities
  preview := text.preview.bind keepPreview

def sanitizeContent : Content -> Content
  | .text text => .text (sanitizeText text)
  | .media media => .media (sanitizeMedia media)
  | .sticker media => .sticker (media.map sanitizeMedia)
  | .edit text => .edit (text.map sanitizeText)
  | .article media => .article (media.map sanitizeMedia)
  | .other => .other

/-! ## What a guarded content is -/

def isTextUrl (entity : Entity) : Bool :=
  EntityType.ofNumber entity.type == some .textUrl

/-- The links that markings of a text carry. -/
def entityLinks (entities : List Entity) : List String :=
  (entities.filter isTextUrl).map Entity.url

def Content.texts : Content -> List Text
  | .text one => [one]
  | .edit one => one.toList
  | _ => []

def Text.media (text : Text) : List Media :=
  text.preview.toList.flatMap fun preview => preview.image.toList

/-- The media that a content consists of. -/
def Content.ownMedia : Content -> List Media
  | .media one => [one]
  | .sticker one => one.toList
  | .article all => all
  | _ => []

/-- All media of a content, those of previews among them. -/
def Content.allMedia (content : Content) : List Media :=
  content.texts.flatMap Text.media ++ content.ownMedia

/-- The texts and captions of a content with their markings. -/
def Content.captioned (content : Content) : List (String × List Entity) :=
  content.texts.map (fun text => (text.text, text.entities)) ++
    content.allMedia.map fun media => (media.caption, media.captionEntities)

def Content.previews (content : Content) : List LinkPreview :=
  content.texts.flatMap fun text => text.preview.toList

/-- The links of markings and of previews. -/
def Content.links (content : Content) : List String :=
  content.captioned.flatMap (fun captioned => entityLinks captioned.2) ++
    content.previews.map LinkPreview.url

/-- A marking of a known type that covers a part of its text. -/
def Marks (text : String) (entity : Entity) : Prop :=
  (∃ type, EntityType.ofNumber entity.type = some type ∧ type ≠ .unspecified) ∧
    0 < entity.length.toNat ∧
    entity.offset.toNat + entity.length.toNat ≤ utf16Units text

/-- A content that can be shown. -/
structure Clean (content : Content) : Prop where
  entities : ∀ captioned ∈ content.captioned, ∀ entity ∈ captioned.2, Marks captioned.1 entity
  links : ∀ link ∈ content.links, KeptLink link
  mimes : ∀ media ∈ content.allMedia, media.mime ∈ octetStream :: inlineMime

/-! ## Markings -/

theorem cutLength_le (len : UInt32) (entity : Entity) :
    cutLength len entity ≤ len - entity.offset := by
  unfold cutLength
  split
  · assumption
  · exact UInt32.le_refl _

theorem cutLength_eq_zero_of {len : UInt32} {entity : Entity}
    (zero : entity.length = 0) : cutLength len entity = 0 := by
  rw [cutLength, zero, if_pos (UInt32.le_iff_toNat_le.2 (Nat.zero_le _))]

/-- A length within the text is not cut. -/
theorem cutLength_of_le {len : UInt32} {entity : Entity}
    (fits : entity.length ≤ len - entity.offset) : cutLength len entity = entity.length :=
  if_pos fits

/-- The check keeps all but links that are not meant, and accepts what it kept. -/
theorem checkEntity_eq_some {type : EntityType} {entity kept : Entity}
    (stays : checkEntity type entity = some kept) :
    kept.type = entity.type ∧ kept.offset = entity.offset ∧ kept.length = entity.length ∧
      (type = .textUrl -> kept.url = entity.url ∧ (safeUrl entity.url).isSome = true) ∧
      checkEntity type kept = some kept := by
  cases type
  case textUrl =>
    rw [checkEntity] at stays
    split at stays
    · next passes =>
        cases stays
        exact ⟨rfl, rfl, rfl, fun _ => ⟨rfl, passes⟩, if_pos passes⟩
    · cases stays
  case mentionName =>
    rw [checkEntity] at stays
    split at stays
    · next passes =>
        cases stays
        exact ⟨rfl, rfl, rfl, nofun, if_pos passes⟩
    · cases stays
  all_goals
    cases stays
    exact ⟨rfl, rfl, rfl, nofun, rfl⟩

/-- A marking that stays is cut and is not changed again. -/
theorem sanitizeEntity_eq_some {len : UInt32} {entity kept : Entity}
    (stays : sanitizeEntity len entity = some kept) :
    ∃ type, EntityType.ofNumber entity.type = some type ∧ type ≠ .unspecified ∧
      entity.offset < len ∧ cutLength len entity ≠ 0 ∧
      kept.type = entity.type ∧ kept.offset = entity.offset ∧
      kept.length = cutLength len entity ∧
      (type = .textUrl -> kept.url = entity.url ∧ (safeUrl entity.url).isSome = true) ∧
      sanitizeEntity len kept = some kept := by
  unfold sanitizeEntity at stays
  cases known : EntityType.ofNumber entity.type with
  | none =>
      rw [known] at stays
      cases stays
  | some type =>
      rw [known] at stays
      dsimp only at stays
      split at stays
      · cases stays
      · next inside =>
          split at stays
          · cases stays
          · next nonzero =>
              obtain ⟨specified, notLe⟩ := not_or.1 inside
              obtain ⟨sameType, sameOffset, sameLength, link, again⟩ := checkEntity_eq_some stays
              refine ⟨type, rfl, specified, UInt32.not_le.1 notLe, nonzero, sameType, sameOffset,
                sameLength, link, ?_⟩
              have fits : kept.length ≤ len - kept.offset := by
                rw [sameLength, sameOffset]
                exact cutLength_le len entity
              have knownKept : EntityType.ofNumber kept.type = some type := by
                rw [sameType]
                exact known
              have insideKept : ¬ (type = .unspecified ∨ len ≤ kept.offset) := by
                rw [sameOffset]
                exact inside
              have nonzeroKept : kept.length ≠ 0 := by
                rw [sameLength]
                exact nonzero
              rw [sanitizeEntity, knownKept]
              dsimp only
              rw [if_neg insideKept, cutLength_of_le fits, if_neg nonzeroKept]
              exact again

/-- What stays marks a part of the text. -/
theorem marks_of_sanitizeEntity {text : String} {entity kept : Entity}
    (stays : sanitizeEntity (utf16Len text) entity = some kept) : Marks text kept := by
  obtain ⟨type, known, specified, inside, nonzero, sameType, sameOffset, sameLength, -, -⟩ :=
    sanitizeEntity_eq_some stays
  have fits := cutLength_le (utf16Len text) entity
  have units : (utf16Len text).toNat ≤ utf16Units text := by
    rw [utf16Len, UInt32.toNat_ofNat']
    exact Nat.mod_le _ _
  refine ⟨⟨type, by rw [sameType]; exact known, specified⟩, ?_, ?_⟩
  · rw [sameLength]
    apply Nat.pos_of_ne_zero
    intro zero
    exact nonzero (UInt32.toNat_inj.1 zero)
  · rw [sameLength, sameOffset]
    rw [UInt32.le_iff_toNat_le, UInt32.toNat_sub_of_le _ _ (UInt32.le_of_lt inside)] at fits
    rw [UInt32.lt_iff_toNat_lt] at inside
    omega

theorem sanitizeEntities_sanitizeEntities (text : String) (entities : List Entity) :
    sanitizeEntities text (sanitizeEntities text entities) = sanitizeEntities text entities := by
  unfold sanitizeEntities
  rw [List.filterMap_filterMap]
  apply List.filterMap_congr
  intro entity member
  cases stays : sanitizeEntity (utf16Len text) entity with
  | none => rfl
  | some kept =>
      obtain ⟨type, -, -, -, -, -, -, -, -, again⟩ := sanitizeEntity_eq_some stays
      exact again

/-- The marking is a link that stays. -/
def StaysLinked (text : String) (entity : Entity) : Prop :=
  isTextUrl entity = true ∧ entity.offset < utf16Len text ∧ entity.length ≠ 0 ∧
    (safeUrl entity.url).isSome = true

/-- The links of the markings that are left are those of the markings that stay. -/
theorem mem_entityLinks_sanitizeEntities {text : String} {entities : List Entity} {link : String} :
    link ∈ entityLinks (sanitizeEntities text entities) ↔
      ∃ entity ∈ entities, StaysLinked text entity ∧ entity.url = link := by
  simp only [entityLinks, sanitizeEntities, List.mem_map, List.mem_filter, List.mem_filterMap]
  constructor
  · rintro ⟨kept, ⟨⟨entity, member, stays⟩, isLink⟩, rfl⟩
    obtain ⟨type, known, -, inside, nonzero, sameType, -, -, keepsLink, -⟩ :=
      sanitizeEntity_eq_some stays
    rw [isTextUrl, sameType] at isLink
    have isUrl : type = .textUrl := by
      rw [known, beq_iff_eq] at isLink
      exact Option.some.inj isLink
    obtain ⟨sameUrl, passes⟩ := keepsLink isUrl
    exact ⟨entity, member,
      ⟨isLink, inside, fun zero => nonzero (cutLength_eq_zero_of zero), passes⟩, sameUrl.symm⟩
  · rintro ⟨entity, member, ⟨isLink, inside, nonzero, passes⟩, rfl⟩
    have known : EntityType.ofNumber entity.type = some .textUrl := beq_iff_eq.1 isLink
    have outside : ¬ (EntityType.textUrl = .unspecified ∨ utf16Len text ≤ entity.offset) := by
      rintro (wrong | le)
      · cases wrong
      · exact UInt32.not_le.2 inside le
    have cutNonzero : cutLength (utf16Len text) entity ≠ 0 := by
      unfold cutLength
      split
      · exact nonzero
      · intro zero
        rw [UInt32.lt_iff_toNat_lt] at inside
        have difference := UInt32.toNat_sub_of_le _ _ (UInt32.le_of_lt inside)
        rw [zero, UInt32.toNat_zero] at difference
        omega
    have stays : sanitizeEntity (utf16Len text) entity =
        some { entity with length := cutLength (utf16Len text) entity } := by
      rw [sanitizeEntity, known]
      dsimp only
      rw [if_neg outside, if_neg cutNonzero, checkEntity]
      exact if_pos passes
    exact ⟨_, ⟨⟨entity, member, stays⟩, isLink⟩, rfl⟩

/-! ## Media -/

theorem safeFileName_ne_empty (name : String) : safeFileName name ≠ "" := by
  rw [safeFileName, ne_eq, String.ofList_eq_empty_iff]
  cases trimmed : trimmedName name.toList with
  | nil =>
      rw [safeChars_of_nil trimmed]
      exact List.cons_ne_nil _ _
  | cons first rest =>
      obtain ⟨others, pushed⟩ :=
        exists_pushFitting (byteLength_namePrefix_le (first :: rest)) first rest
      rw [safeChars_of_cons trimmed, pushed]
      exact List.append_ne_nil_of_right_ne_nil _ (List.cons_ne_nil _ _)

theorem mime_sanitizeMedia (media : Media) : (sanitizeMedia media).mime = safeMime media.mime := by
  rw [sanitizeMedia]

/-- A media type and its markings stay, and so does a name that was not cut badly. -/
theorem sanitizeMedia_stable_iff (media : Media) :
    sanitizeMedia (sanitizeMedia media) = sanitizeMedia media ↔
      (media.name ≠ "" -> ¬ CutBadly media.name) := by
  rw [Media.ext_iff]
  simp only [sanitizeMedia, safeMime_safeMime, sanitizeEntities_sanitizeEntities, true_and,
    and_true]
  split
  · next empty => simp [empty]
  · next named =>
      rw [if_neg (safeFileName_ne_empty _), stable_iff]
      exact ⟨fun notBad _ => notBad, fun notBad => notBad named⟩

/-! ## Previews and texts -/

/-- The preview has a link that may be followed. -/
def previewPasses (preview : LinkPreview) : Bool :=
  (safeUrl preview.url).isSome

theorem safeUrl_empty : safeUrl "" = none := by
  decide

theorem keepPreview_eq (preview : LinkPreview) :
    keepPreview preview =
      if previewPasses preview then some ⟨preview.url, preview.image.map sanitizeMedia⟩
      else none := by
  unfold keepPreview previewPasses sanitizePreview
  by_cases passes : (safeUrl preview.url).isSome = true
  · have notEmpty : preview.url ≠ "" := by
      intro empty
      rw [empty, safeUrl_empty] at passes
      cases passes
    simp [passes, notEmpty]
  · simp [passes]

/-- The text without a preview that does not pass. -/
def Text.shown (text : Text) : Text :=
  { text with preview := text.preview.filter previewPasses }

theorem preview_sanitizeText (text : Text) :
    (sanitizeText text).preview =
      text.shown.preview.map fun preview => ⟨preview.url, preview.image.map sanitizeMedia⟩ := by
  unfold sanitizeText Text.shown
  cases text.preview with
  | none => rfl
  | some preview =>
      rw [Option.bind_some, keepPreview_eq]
      by_cases passes : previewPasses preview = true
      · rw [if_pos passes, Option.filter_some_pos passes]
        rfl
      · rw [if_neg passes, Option.filter_some_neg (Bool.not_eq_true _ ▸ passes)]
        rfl

theorem media_sanitizeText (text : Text) :
    (sanitizeText text).media = text.shown.media.map sanitizeMedia := by
  rw [Text.media, Text.media, preview_sanitizeText]
  cases text.shown.preview with
  | none => rfl
  | some preview =>
      cases image : preview.image <;> simp [image]

theorem shown_sanitizeText (text : Text) :
    (sanitizeText text).shown.preview = (sanitizeText text).preview := by
  change (sanitizeText text).preview.filter previewPasses = (sanitizeText text).preview
  rw [preview_sanitizeText]
  unfold Text.shown
  cases text.preview with
  | none => rfl
  | some preview =>
      by_cases passes : previewPasses preview = true
      · rw [Option.filter_some_pos passes, Option.map_some]
        exact Option.filter_some_pos passes
      · rw [Option.filter_some_neg (Bool.not_eq_true _ ▸ passes)]
        rfl

/-- A text stays when the image of its preview does. -/
theorem sanitizeText_stable_iff (text : Text) :
    sanitizeText (sanitizeText text) = sanitizeText text ↔
      ∀ media ∈ text.shown.media, sanitizeMedia (sanitizeMedia media) = sanitizeMedia media := by
  have entities : (sanitizeText (sanitizeText text)).entities = (sanitizeText text).entities :=
    sanitizeEntities_sanitizeEntities text.text text.entities
  have words : (sanitizeText (sanitizeText text)).text = (sanitizeText text).text := rfl
  rw [Text.ext_iff, preview_sanitizeText, shown_sanitizeText, preview_sanitizeText]
  simp only [entities, words, true_and, Text.media]
  cases text.shown.preview with
  | none => simp
  | some preview => cases image : preview.image <;> simp [image]

/-! ## Contents -/

def Content.shown : Content -> Content
  | .text one => .text one.shown
  | .edit one => .edit (one.map Text.shown)
  | unchanged => unchanged

section

variable (content : Content)

include content

theorem texts_sanitizeContent :
    (sanitizeContent content).texts = content.texts.map sanitizeText := by
  cases content with
  | edit one => cases one <;> rfl
  | _ => rfl

theorem texts_shown : content.shown.texts = content.texts.map Text.shown := by
  cases content with
  | edit one => cases one <;> rfl
  | _ => rfl

theorem allMedia_sanitizeContent :
    (sanitizeContent content).allMedia = content.shown.allMedia.map sanitizeMedia := by
  have inTexts : (content.texts.map sanitizeText).flatMap Text.media =
      ((content.texts.map Text.shown).flatMap Text.media).map sanitizeMedia := by
    rw [List.map_flatMap, List.flatMap_map, List.flatMap_map]
    exact List.flatMap_congr fun text _ => media_sanitizeText text
  have own : (sanitizeContent content).ownMedia = content.shown.ownMedia.map sanitizeMedia := by
    cases content with
    | sticker one => cases one <;> rfl
    | _ => rfl
  rw [Content.allMedia, Content.allMedia, texts_sanitizeContent, texts_shown, inTexts, own,
    List.map_append]

theorem captioned_sanitizeContent :
    (sanitizeContent content).captioned =
      content.shown.captioned.map fun captioned =>
        (captioned.1, sanitizeEntities captioned.1 captioned.2) := by
  rw [Content.captioned, Content.captioned, texts_sanitizeContent, texts_shown,
    allMedia_sanitizeContent, List.map_append]
  simp only [List.map_map]
  rfl

theorem previews_sanitizeContent :
    (sanitizeContent content).previews.map LinkPreview.url =
      content.shown.previews.map LinkPreview.url := by
  rw [Content.previews, Content.previews, texts_sanitizeContent, texts_shown,
    List.map_flatMap, List.map_flatMap, List.flatMap_map, List.flatMap_map]
  apply List.flatMap_congr
  intro text _
  rw [preview_sanitizeText]
  cases text.shown.preview <;> rfl

/-- A content stays when all media that are shown do. -/
theorem sanitizeContent_stable_iff :
    sanitizeContent (sanitizeContent content) = sanitizeContent content ↔
      ∀ media ∈ content.shown.allMedia,
        sanitizeMedia (sanitizeMedia media) = sanitizeMedia media := by
  cases content with
  | text one => simp [sanitizeContent, sanitizeText_stable_iff, Content.allMedia, Content.shown,
      Content.ownMedia, Content.texts]
  | media one => simp [sanitizeContent, Content.allMedia, Content.shown, Content.ownMedia,
      Content.texts]
  | sticker one => cases one <;> simp [sanitizeContent, Content.allMedia, Content.shown,
      Content.ownMedia, Content.texts]
  | edit one => cases one <;> simp [sanitizeContent, sanitizeText_stable_iff, Content.allMedia,
      Content.shown, Content.ownMedia, Content.texts]
  | article all => simp [sanitizeContent, Content.allMedia, Content.shown, Content.ownMedia,
      Content.texts]
  | other => simp [sanitizeContent, Content.allMedia, Content.shown, Content.ownMedia,
      Content.texts]

end

/-- Every link that passes is without whitespace around it and has a host, and no name of a file
is cut badly. -/
structure Fit (content : Content) : Prop where
  marked : ∀ captioned ∈ content.shown.captioned, ∀ entity ∈ captioned.2,
    StaysLinked captioned.1 entity -> Bare entity.url
  previewed : ∀ preview ∈ content.shown.previews, Bare preview.url
  named : ∀ media ∈ content.shown.allMedia, media.name ≠ "" -> ¬ CutBadly media.name

theorem passes_of_mem_previews {content : Content} {preview : LinkPreview}
    (member : preview ∈ content.shown.previews) : previewPasses preview = true := by
  rw [Content.previews, texts_shown, List.flatMap_map, List.mem_flatMap] at member
  obtain ⟨text, -, held⟩ := member
  rw [Option.mem_toList] at held
  exact (Option.filter_eq_some_iff.1 held).2

/-- The links of a guarded content pass, and are kept as they should be when they are bare. -/
theorem links_sanitizeContent_iff (content : Content) :
    (∀ link ∈ (sanitizeContent content).links, KeptLink link) ↔
      (∀ captioned ∈ content.shown.captioned, ∀ entity ∈ captioned.2,
        StaysLinked captioned.1 entity -> Bare entity.url) ∧
      ∀ preview ∈ content.shown.previews, Bare preview.url := by
  rw [Content.links, List.forall_mem_append, captioned_sanitizeContent, previews_sanitizeContent,
    List.forall_mem_flatMap, List.forall_mem_map, List.forall_mem_map]
  refine and_congr ?_ ?_
  · refine forall₂_congr fun captioned _ => ?_
    constructor
    · intro kept entity member stays
      have link := mem_entityLinks_sanitizeEntities.2 ⟨entity, member, stays, rfl⟩
      exact ((keptLink_iff _).1 (kept _ link)).2
    · intro bare link isLink
      obtain ⟨entity, member, stays, rfl⟩ := mem_entityLinks_sanitizeEntities.1 isLink
      exact (keptLink_iff _).2 ⟨stays.2.2.2, bare entity member stays⟩
  · refine forall₂_congr fun preview member => ?_
    rw [keptLink_iff]
    exact and_iff_right (passes_of_mem_previews member)

/-- A marking whose link has a blank before it. -/
def blankBeforeLink : Content :=
  .text
    { text := "here"
      entities := [{ type := 8, offset := 0, length := 4, url := " https://example.org" }] }

end Parvane.Guard
