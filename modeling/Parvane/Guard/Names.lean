import Parvane.Core
import Parvane.Foundation.Cutting

/-!
# File names

The name of a file comes from the sender.  Before it is used only its last part is kept,
characters that are invisible or forbidden are dropped, its ends are trimmed, a name of a
Windows device gets a prefix, and what does not fit into 255 bytes is cut off.
-/

namespace Parvane.Guard

open Trimming

/-! ## Characters -/

/-- Invisible characters of formatting. -/
def isFormatChar (c : Char) : Bool :=
  let code := c.toNat
  code == 0xAD || code == 0x61C || code == 0x180E || (0x200B ≤ code && code ≤ 0x200F) ||
    (0x202A ≤ code && code ≤ 0x202E) || (0x2060 ≤ code && code ≤ 0x2064) ||
    (0x2066 ≤ code && code ≤ 0x206F) || code == 0xFEFF || (0xFFF9 ≤ code && code ≤ 0xFFFB)

def isSeparator (c : Char) : Bool :=
  c == '/' || c == '\\'

/-- Characters that may not stand in names on Windows. -/
def isForbidden (c : Char) : Bool :=
  ['<', '>', ':', '\x22', '|', '?', '*'].contains c

/-- The number of bytes of a text. -/
def byteLength (text : List Char) : Nat :=
  (text.map Char.utf8Size).sum

/-! ## Names -/

/-- The names of devices: a file of such a name cannot be made on Windows. -/
def isReservedName (stem : List Char) : Bool :=
  let up := stem.map Char.toUpper
  up == ['C', 'O', 'N'] || up == ['P', 'R', 'N'] || up == ['A', 'U', 'X'] ||
    up == ['N', 'U', 'L'] ||
    (byteLength up == 4 && (up.take 3 == ['C', 'O', 'M'] || up.take 3 == ['L', 'P', 'T']) &&
      up[3]?.any fun digit => digit.isDigit && digit != '0')

/-- The characters of the last part of a path that may stay. -/
def cleanedName (name : List Char) : List Char :=
  (name.rtakeWhile fun c => !isSeparator c).filter fun c =>
    !isControl c && !isFormatChar c && !isForbidden c

def isDot (c : Char) : Bool :=
  c == '.'

def isDotOrSpace (c : Char) : Bool :=
  c == '.' || c == ' '

/-- Whitespace is trimmed first, then dots in front and dots and spaces at the back. -/
def trimmedName (name : List Char) : List Char :=
  trim isDot isDotOrSpace (trim isWhiteSpace isWhiteSpace (cleanedName name))

/-- The part of a name before its first dot. -/
def stemOf (name : List Char) : List Char :=
  name.takeWhile fun c => !isDot c

/-- The stem is the name of a device, perhaps with whitespace after it. -/
def isDevice (name : List Char) : Bool :=
  isReservedName ((stemOf name).rdropWhile isWhiteSpace)

/-- The limit of a name in bytes. -/
def maxNameBytes : Nat := 255

/-- Add characters to a name of so many bytes as long as they fit. -/
def pushFitting (used : Nat) : List Char -> List Char
  | [] => []
  | c :: rest =>
      if maxNameBytes < used + c.utf8Size then []
      else c :: pushFitting (used + c.utf8Size) rest

/-- What stands before the name of a device. -/
def namePrefix (trimmed : List Char) : List Char :=
  if isDevice trimmed then ['_'] else []

def safeChars (name : List Char) : List Char :=
  let trimmed := trimmedName name
  if trimmed.isEmpty then ['f', 'i', 'l', 'e']
  else namePrefix trimmed ++ pushFitting (byteLength (namePrefix trimmed)) trimmed

/-- A safe name for a file. -/
def safeFileName (name : String) : String :=
  String.ofList (safeChars name.toList)

/-! ## What a safe name is -/

/-- A character that a safe name may hold. -/
def IsPlain (c : Char) : Prop :=
  isSeparator c = false ∧ isControl c = false ∧ isFormatChar c = false ∧ isForbidden c = false

/-- A name that can be used for a file as it is. -/
structure Safe (name : String) : Prop where
  notEmpty : name ≠ ""
  short : name.utf8ByteSize ≤ maxNameBytes
  plain : ∀ c ∈ name.toList, IsPlain c
  front : ∀ c ∈ name.toList.head?, isDotOrSpace c = false
  back : ∀ c ∈ name.toList.getLast?, isDotOrSpace c = false
  notDevice : isDevice name.toList = false
  stable : safeFileName name = name

/-- The name is cut where it should not be: whitespace follows the dots that are taken from its
front, or whitespace or a dot comes to stand at its end. -/
def CutBadly (name : String) : Prop :=
  ∃ first rest, trimmedName name.toList = first :: rest ∧
    (isWhiteSpace first = true ∨
      ∃ last ∈ (pushFitting (byteLength (namePrefix (first :: rest))) (first :: rest)).getLast?,
        isWhiteSpace last = true ∨ isDot last = true)

/-! ## Lengths -/

theorem byteLength_append (first second : List Char) :
    byteLength (first ++ second) = byteLength first + byteLength second := by
  rw [byteLength, List.map_append, List.sum_append]
  rfl

theorem byteLength_cons (c : Char) (text : List Char) :
    byteLength (c :: text) = c.utf8Size + byteLength text := rfl

theorem utf8ByteSize_ofList (text : List Char) :
    (String.ofList text).utf8ByteSize = byteLength text := by
  induction text with
  | nil => rfl
  | cons c text inductionHypothesis =>
      rw [← List.singleton_append, String.ofList_append, String.utf8ByteSize_append,
        inductionHypothesis, byteLength_append]
      congr 1
      exact String.utf8ByteSize_singleton

section

variable {used : Nat} {text : List Char}

theorem isPrefix_pushFitting (used : Nat) (text : List Char) : pushFitting used text <+: text := by
  induction text generalizing used with
  | nil => exact List.prefix_rfl
  | cons c text inductionHypothesis =>
      rw [pushFitting]
      split
      · exact List.nil_prefix
      · exact List.cons_prefix_cons.2 ⟨rfl, inductionHypothesis _⟩

theorem byteLength_pushFitting (fits : used ≤ maxNameBytes) (text : List Char) :
    used + byteLength (pushFitting used text) ≤ maxNameBytes := by
  induction text generalizing used with
  | nil => exact fits
  | cons c text inductionHypothesis =>
      rw [pushFitting]
      split
      · exact fits
      · next room =>
          have later := inductionHypothesis (Nat.le_of_not_lt room)
          rw [byteLength_cons]
          omega

/-- A text that fits is taken whole. -/
theorem pushFitting_eq_self (fits : used + byteLength text ≤ maxNameBytes) :
    pushFitting used text = text := by
  induction text generalizing used with
  | nil => rfl
  | cons c text inductionHypothesis =>
      rw [byteLength_cons] at fits
      rw [pushFitting, if_neg (by omega), inductionHypothesis (by omega)]

/-- A text is cut only when so much of it was taken that another character may not fit. -/
theorem byteLength_of_cut (cut : pushFitting used text ≠ text) :
    maxNameBytes < used + byteLength (pushFitting used text) + 4 := by
  induction text generalizing used with
  | nil => exact absurd rfl cut
  | cons c text inductionHypothesis =>
      rw [pushFitting] at cut ⊢
      split at cut
      · next full =>
          have small := c.utf8Size_le_four
          rw [if_pos full]
          change maxNameBytes < used + 0 + 4
          omega
      · next room =>
          rw [if_neg room]
          have later := inductionHypothesis fun same => cut (by rw [same])
          rw [byteLength_cons]
          omega

end

/-! ## Trimming -/

variable {name : List Char}

theorem isPlain_of_mem_trimmedName {c : Char}
    (member : c ∈ trimmedName name) : IsPlain c := by
  have inCleaned := mem_of_mem_trim (mem_of_mem_trim member)
  obtain ⟨inPart, kept⟩ := List.mem_filter.1 inCleaned
  have notSeparator := List.mem_rtakeWhile_imp inPart
  simp only [Bool.and_eq_true, Bool.not_eq_true'] at kept notSeparator
  exact ⟨notSeparator, kept.1.1, kept.1.2, kept.2⟩

/-- Of plain characters none is dropped. -/
theorem cleanedName_eq_self
    (plain : ∀ c ∈ name, IsPlain c) : cleanedName name = name := by
  have whole : name.rtakeWhile (fun c => !isSeparator c) = name := by
    rw [List.rtakeWhile_eq_self_iff]
    intro c member
    rw [(plain c member).1]
    rfl
  rw [cleanedName, whole, List.filter_eq_self]
  intro c member
  obtain ⟨-, notControl, notFormat, notForbidden⟩ := plain c member
  simp [notControl, notFormat, notForbidden]

/-- Neither whitespace nor a dot. -/
def EndsWell (c : Char) : Prop :=
  isWhiteSpace c = false ∧ isDot c = false

theorem EndsWell.notDotOrSpace {c : Char} (well : EndsWell c) : isDotOrSpace c = false := by
  obtain ⟨notWhite, notDot⟩ := well
  have notSpace : c ≠ ' ' := by
    rintro rfl
    exact absurd notWhite (by decide)
  simp only [isDot, beq_eq_false_iff_ne] at notDot
  simp [isDotOrSpace, notDot, notSpace]

/-- A name of plain characters stays when both of its ends may stay. -/
theorem trimmedName_eq_self_iff
    (plain : ∀ c ∈ name, IsPlain c) :
    trimmedName name = name ↔
      (∀ c ∈ name.head?, EndsWell c) ∧ ∀ c ∈ name.getLast?, EndsWell c := by
  rw [trimmedName, cleanedName_eq_self plain]
  constructor
  · intro same
    have inner : trim isWhiteSpace isWhiteSpace name = name := by
      apply (isInfix_trim name).sublist.eq_of_length_le
      have shorter := (@isInfix_trim _ isDot isDotOrSpace
        (trim isWhiteSpace isWhiteSpace name)).sublist.length_le
      rwa [same] at shorter
    rw [inner] at same
    obtain ⟨headWhite, lastWhite⟩ := trim_eq_self_iff.1 inner
    obtain ⟨headDot, lastDot⟩ := trim_eq_self_iff.1 same
    refine ⟨fun c head => ⟨headWhite c head, headDot c head⟩, fun c last => ⟨lastWhite c last, ?_⟩⟩
    have notDotOrSpace := lastDot c last
    simp only [isDotOrSpace, Bool.or_eq_false_iff] at notDotOrSpace
    exact notDotOrSpace.1
  · rintro ⟨head, last⟩
    have inner : trim isWhiteSpace isWhiteSpace name = name :=
      trim_eq_self_iff.2 ⟨fun c isHead => (head c isHead).1, fun c isLast => (last c isLast).1⟩
    rw [inner]
    exact trim_eq_self_iff.2 ⟨fun c isHead => (head c isHead).2,
      fun c isLast => (last c isLast).notDotOrSpace⟩

/-! ## Devices -/

/-- Names of devices begin with few letters. -/
theorem head_of_isReservedName {stem : List Char}
    (reserved : isReservedName stem = true) :
    ∃ c rest, stem = c :: rest ∧ c.toUpper ∈ ['C', 'P', 'A', 'N', 'L'] := by
  cases stem with
  | nil => exact absurd reserved (by decide)
  | cons c rest =>
      refine ⟨c, rest, rfl, ?_⟩
      simp only [isReservedName, List.map_cons, List.take_succ_cons, Bool.or_eq_true,
        Bool.and_eq_true, beq_iff_eq, List.cons.injEq] at reserved
      simp only [List.mem_cons, List.not_mem_nil, or_false]
      tauto

theorem length_of_isReservedName {stem : List Char}
    (reserved : isReservedName stem = true) : stem.length ≤ 4 := by
  have atLeast (text : List Char) : text.length ≤ byteLength text := by
    induction text with
    | nil => exact Nat.le_refl 0
    | cons c text inductionHypothesis =>
        have := c.utf8Size_pos
        rw [byteLength_cons, List.length_cons]
        omega
  have upper := atLeast (stem.map Char.toUpper)
  have same : (stem.map Char.toUpper).length = stem.length := List.length_map _
  simp only [isReservedName, Bool.or_eq_true, Bool.and_eq_true, beq_iff_eq] at reserved
  rcases reserved with (((con | prn) | aux) | nul) | ⟨four, -⟩
  · simp [con] at same
    omega
  · simp [prn] at same
    omega
  · simp [aux] at same
    omega
  · simp [nul] at same
    omega
  · omega

theorem toUpper_of_isWhiteSpace {c : Char} (white : isWhiteSpace c = true) : c.toUpper = c := by
  unfold Char.toUpper
  rw [dif_neg]
  rintro ⟨low, high⟩
  have low : 97 ≤ c.toNat := low
  have high : c.toNat ≤ 122 := high
  simp only [isWhiteSpace, Bool.or_eq_true, Bool.and_eq_true, decide_eq_true_eq,
    beq_iff_eq] at white
  omega

/-- A name whose stem does not begin with a letter is not that of a device. -/
theorem isDevice_eq_false {c : Char} {rest : List Char}
    (notLetter : c.toUpper ∉ ['C', 'P', 'A', 'N', 'L']) : isDevice (c :: rest) = false := by
  rw [← Bool.not_eq_true]
  intro device
  obtain ⟨first, others, same, letter⟩ := head_of_isReservedName device
  apply notLetter
  have inStem : first ∈ (stemOf (c :: rest)).head? := by
    apply head?_of_prefix (List.rdropWhile_prefix isWhiteSpace _)
    rw [same]
    rfl
  have inName := head?_of_prefix (List.takeWhile_prefix _) inStem
  rw [List.head?_cons, Option.mem_some] at inName
  rw [inName]
  exact letter

theorem isDevice_of_isWhiteSpace {c : Char} {rest : List Char}
    (white : isWhiteSpace c = true) : isDevice (c :: rest) = false := by
  apply isDevice_eq_false
  rw [toUpper_of_isWhiteSpace white]
  intro letter
  simp only [List.mem_cons, List.not_mem_nil, or_false] at letter
  rcases letter with rfl | rfl | rfl | rfl | rfl <;> exact absurd white (by decide)

theorem isDevice_underscore (rest : List Char) : isDevice ('_' :: rest) = false :=
  isDevice_eq_false (by decide)

/-- Cutting a name that is not that of a device does not make it one, unless whitespace comes
to stand at its end. -/
theorem isDevice_pushFitting
    (notDevice : isDevice name = false)
    (last : ∀ c ∈ (pushFitting 0 name).getLast?, EndsWell c) :
    isDevice (pushFitting 0 name) = false := by
  by_cases cut : pushFitting 0 name = name
  · rw [cut]
    exact notDevice
  · obtain ⟨rest, whole⟩ := isPrefix_pushFitting 0 name
    by_cases dotted : ∀ c ∈ pushFitting 0 name, isDot c = false
    · rw [← Bool.not_eq_true]
      intro device
      have stem : stemOf (pushFitting 0 name) = pushFitting 0 name := by
        rw [stemOf, List.takeWhile_eq_self_iff]
        intro c member
        rw [dotted c member]
        rfl
      have untrimmed : (pushFitting 0 name).rdropWhile isWhiteSpace = pushFitting 0 name := by
        rw [List.rdropWhile_eq_self_iff]
        intro notEmpty
        rw [(last _ (List.getLast?_eq_some_getLast notEmpty)).1]
        exact Bool.false_ne_true
      rw [isDevice, stem, untrimmed] at device
      have few := length_of_isReservedName device
      have long := byteLength_of_cut cut
      have atMost (text : List Char) : byteLength text ≤ 4 * text.length := by
        induction text with
        | nil => exact Nat.le_refl 0
        | cons c text inductionHypothesis =>
            have := c.utf8Size_le_four
            rw [byteLength_cons, List.length_cons]
            omega
      have := atMost (pushFitting 0 name)
      have limit : maxNameBytes = 255 := rfl
      omega
    · have stem : stemOf name = stemOf (pushFitting 0 name) := by
        rw [← whole, stemOf, List.takeWhile_append]
        rw [if_neg]
        · rw [whole]
          rfl
        · intro all
          apply dotted
          intro c member
          have everything : (pushFitting 0 name).takeWhile (fun c => !isDot c) =
              pushFitting 0 name := (List.takeWhile_prefix _).eq_of_length all
          rw [List.takeWhile_eq_self_iff] at everything
          simpa using everything c member
      rw [isDevice, ← stem]
      exact notDevice

/-! ## Safe names -/

theorem isPlain_underscore : IsPlain '_' := by
  unfold IsPlain
  decide

theorem safeChars_of_nil {name : List Char} (empty : trimmedName name = []) :
    safeChars name = ['f', 'i', 'l', 'e'] := by
  simp [safeChars, empty]

theorem safeChars_of_cons {name rest : List Char} {first : Char}
    (trimmed : trimmedName name = first :: rest) :
    safeChars name = namePrefix (first :: rest) ++
      pushFitting (byteLength (namePrefix (first :: rest))) (first :: rest) := by
  simp [safeChars, trimmed]

theorem byteLength_namePrefix_le (name : List Char) : byteLength (namePrefix name) ≤ 1 := by
  unfold namePrefix
  split <;> decide

/-- The first character always fits. -/
theorem exists_pushFitting {used : Nat}
    (small : used ≤ 1) (first : Char)
    (rest : List Char) : ∃ others, pushFitting used (first :: rest) = first :: others := by
  have size := first.utf8Size_le_four
  have limit : maxNameBytes = 255 := rfl
  rw [pushFitting, if_neg (by omega)]
  exact ⟨_, rfl⟩

theorem isPlain_file : ∀ c ∈ ['f', 'i', 'l', 'e'], IsPlain c := by
  unfold IsPlain
  simp only [List.forall_mem_cons, List.not_mem_nil, false_implies, implies_true, and_true]
  decide

theorem isPlain_of_mem_safeChars {c : Char}
    (member : c ∈ safeChars name) : IsPlain c := by
  cases trimmed : trimmedName name with
  | nil =>
      rw [safeChars_of_nil trimmed] at member
      exact isPlain_file c member
  | cons first rest =>
      rw [safeChars_of_cons trimmed] at member
      rcases List.mem_append.1 member with inPrefix | inPushed
      · unfold namePrefix at inPrefix
        split at inPrefix
        · rw [List.mem_singleton.1 inPrefix]
          exact isPlain_underscore
        · cases inPrefix
      · apply @isPlain_of_mem_trimmedName name
        rw [trimmed]
        exact (isPrefix_pushFitting _ _).subset inPushed

/-- A name that is as it should be stays. -/
theorem safeChars_eq_self
    (notEmpty : name ≠ [])
    (plain : ∀ c ∈ name, IsPlain c) (front : ∀ c ∈ name.head?, EndsWell c)
    (back : ∀ c ∈ name.getLast?, EndsWell c) (notDevice : isDevice name = false)
    (short : byteLength name ≤ maxNameBytes) : safeChars name = name := by
  have trimmed := (trimmedName_eq_self_iff plain).2 ⟨front, back⟩
  obtain ⟨first, rest, rfl⟩ := List.exists_cons_of_ne_nil notEmpty
  have noPrefix : namePrefix (first :: rest) = [] := by
    rw [namePrefix, notDevice]
    rfl
  rw [safeChars_of_cons trimmed, noPrefix, List.nil_append]
  apply pushFitting_eq_self
  change 0 + _ ≤ _
  omega

/-- A plain name that stays has ends that may stay. -/
theorem trimmedName_of_safeChars_eq_self
    (plain : ∀ c ∈ name, IsPlain c)
    (stable : safeChars name = name) : trimmedName name = name := by
  have shorter : (trimmedName name).Sublist name := by
    have inner := (@isInfix_trim _ isWhiteSpace isWhiteSpace (cleanedName name)).sublist
    rw [cleanedName_eq_self plain] at inner
    rw [trimmedName, cleanedName_eq_self plain]
    exact (isInfix_trim _).sublist.trans inner
  cases trimmed : trimmedName name with
  | nil =>
      rw [safeChars_of_nil trimmed] at stable
      rw [← stable] at trimmed
      exact absurd trimmed (by decide)
  | cons first rest =>
      rw [trimmed] at shorter
      rw [safeChars_of_cons trimmed] at stable
      have isPrefix := isPrefix_pushFitting (byteLength (namePrefix (first :: rest))) (first :: rest)
      by_cases device : isDevice (first :: rest) = true
      · exfalso
        rw [namePrefix, if_pos device] at stable isPrefix
        have same : pushFitting (byteLength ['_']) (first :: rest) = first :: rest := by
          apply isPrefix.eq_of_length_le
          by_contra less
          have lengths := congrArg List.length stable
          have bound := shorter.length_le
          rw [List.singleton_append, List.length_cons] at lengths
          have whole : first :: rest = name := shorter.eq_of_length (by omega)
          rw [← whole, List.singleton_append] at stable
          obtain ⟨underscore, -⟩ := List.cons.inj stable
          rw [← underscore, isDevice_underscore] at device
          cases device
        rw [same] at stable
        have notWhite : isWhiteSpace '_' = false := by decide
        have notDot : isDot '_' = false := by decide
        have begins : ∃ others, trimmedName name = '_' :: others := by
          rw [trimmedName, cleanedName_eq_self plain, ← stable]
          obtain ⟨others, inner⟩ := trim_cons notWhite notWhite (first :: rest)
          rw [List.singleton_append, inner]
          exact trim_cons notDot (by decide) others
        obtain ⟨others, begins⟩ := begins
        rw [trimmed] at begins
        rw [begins, isDevice_underscore] at device
        cases device
      · rw [namePrefix, if_neg device, List.nil_append] at stable
        apply shorter.eq_of_length_le
        have bound := (isPrefix_pushFitting (byteLength []) (first :: rest)).length_le
        rwa [stable] at bound

theorem safe_file : Safe (String.ofList ['f', 'i', 'l', 'e']) where
  notEmpty := by decide
  short := by decide
  plain := by
    rw [String.toList_ofList]
    exact isPlain_file
  front := by
    rw [String.toList_ofList]
    rintro c ⟨⟩
    decide
  back := by
    rw [String.toList_ofList]
    rintro c ⟨⟩
    decide
  notDevice := by decide
  stable := by decide

/-- A result is safe when its ends may stay. -/
theorem safe_of_endsWell {name rest : List Char} {first : Char}
    (trimmed : trimmedName name = first :: rest) (front : isWhiteSpace first = false)
    (back : ∀ c ∈ (pushFitting (byteLength (namePrefix (first :: rest)))
      (first :: rest)).getLast?, EndsWell c) : Safe (String.ofList (safeChars name)) := by
  obtain ⟨others, pushed⟩ :=
    exists_pushFitting (byteLength_namePrefix_le (first :: rest)) first rest
  have firstDot : isDot first = false := by
    apply @front_head?_trim _ isDot isDotOrSpace
      (trim isWhiteSpace isWhiteSpace (cleanedName name))
    change first ∈ (trimmedName name).head?
    rw [trimmed]
    rfl
  have fits : byteLength (safeChars name) ≤ maxNameBytes := by
    have small := byteLength_namePrefix_le (first :: rest)
    have limit : maxNameBytes = 255 := rfl
    rw [safeChars_of_cons trimmed, byteLength_append]
    exact byteLength_pushFitting (by omega) _
  have plain : ∀ c ∈ safeChars name, IsPlain c := fun c => isPlain_of_mem_safeChars
  have frontWell : ∀ c ∈ (safeChars name).head?, EndsWell c := by
    rw [safeChars_of_cons trimmed, pushed]
    unfold namePrefix
    split
    · intro c head
      cases head
      unfold EndsWell
      decide
    · intro c head
      cases head
      exact ⟨front, firstDot⟩
  have backWell : ∀ c ∈ (safeChars name).getLast?, EndsWell c := by
    rw [safeChars_of_cons trimmed, pushed, List.getLast?_append_cons]
    rwa [pushed] at back
  have notDevice : isDevice (safeChars name) = false := by
    rw [safeChars_of_cons trimmed]
    cases device : isDevice (first :: rest) with
    | true =>
        rw [namePrefix, if_pos device]
        exact isDevice_underscore _
    | false =>
        have noPrefix : namePrefix (first :: rest) = [] := by
          rw [namePrefix, device]
          rfl
        rw [noPrefix] at back ⊢
        exact isDevice_pushFitting device back
  have notEmpty : safeChars name ≠ [] := by
    rw [safeChars_of_cons trimmed, pushed]
    exact List.append_ne_nil_of_right_ne_nil _ (List.cons_ne_nil _ _)
  have stable := safeChars_eq_self notEmpty plain frontWell backWell notDevice fits
  refine ⟨?_, ?_, ?_, ?_, ?_, ?_, ?_⟩
  · intro empty
    exact notEmpty (String.ofList_eq_empty_iff.1 empty)
  · rw [utf8ByteSize_ofList]
    exact fits
  · rw [String.toList_ofList]
    exact plain
  · rw [String.toList_ofList]
    exact fun c head => (frontWell c head).notDotOrSpace
  · rw [String.toList_ofList]
    exact fun c last => (backWell c last).notDotOrSpace
  · rw [String.toList_ofList]
    exact notDevice
  · rw [safeFileName, String.toList_ofList, stable]

/-- A name that is not cut badly becomes safe. -/
theorem safe_of_not_cutBadly {name : String} (notBad : ¬ CutBadly name) :
    Safe (safeFileName name) := by
  cases trimmed : trimmedName name.toList with
  | nil =>
      rw [safeFileName, safeChars_of_nil trimmed]
      exact safe_file
  | cons first rest =>
      apply safe_of_endsWell trimmed
      · rw [← Bool.not_eq_true]
        exact fun white => notBad ⟨first, rest, trimmed, .inl white⟩
      · intro c last
        constructor
        · rw [← Bool.not_eq_true]
          exact fun white => notBad ⟨first, rest, trimmed, .inr ⟨c, last, .inl white⟩⟩
        · rw [← Bool.not_eq_true]
          exact fun dot => notBad ⟨first, rest, trimmed, .inr ⟨c, last, .inr dot⟩⟩

/-- A result that stays was not cut badly. -/
theorem not_cutBadly_of_stable {name : String}
    (stable : safeFileName (safeFileName name) = safeFileName name) : ¬ CutBadly name := by
  rintro ⟨first, rest, trimmed, bad⟩
  have stable : safeChars (safeChars name.toList) = safeChars name.toList := by
    have texts := congrArg String.toList stable
    rwa [safeFileName, safeFileName, String.toList_ofList, String.toList_ofList] at texts
  have plain : ∀ c ∈ safeChars name.toList, IsPlain c := fun c => isPlain_of_mem_safeChars
  have untrimmed := trimmedName_of_safeChars_eq_self plain stable
  obtain ⟨head, last⟩ := (trimmedName_eq_self_iff plain).1 untrimmed
  obtain ⟨others, pushed⟩ :=
    exists_pushFitting (byteLength_namePrefix_le (first :: rest)) first rest
  rw [safeChars_of_cons trimmed] at head last
  rcases bad with white | ⟨c, isLast, bad⟩
  · have noPrefix : namePrefix (first :: rest) = [] := by
      rw [namePrefix, isDevice_of_isWhiteSpace white]
      rfl
    rw [pushed, noPrefix] at head
    have well := head first rfl
    rw [well.1] at white
    cases white
  · rw [pushed, List.getLast?_append_cons, ← pushed] at last
    have well := last c isLast
    rcases bad with white | dot
    · rw [well.1] at white
      cases white
    · rw [well.2] at dot
      cases dot

/-- A result stays exactly when the name is not cut badly. -/
theorem stable_iff (name : String) :
    safeFileName (safeFileName name) = safeFileName name ↔ ¬ CutBadly name :=
  ⟨not_cutBadly_of_stable, fun notBad => (safe_of_not_cutBadly notBad).stable⟩

end Parvane.Guard
