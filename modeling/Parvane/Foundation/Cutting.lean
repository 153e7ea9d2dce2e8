import Mathlib.Data.List.DropRight
import Mathlib.Data.List.TakeWhile
import Parvane.Foundation.Wire

/-!
# Cutting texts

A text is split at a pattern, trimmed at its ends, or cut behind its last mark.
-/

/-!
## Splitting

A text is split at the first place where a pattern occurs in it.  With a single separator that
is the end of what has no separator in it.
-/

namespace Splitting

variable [BEq α]

/-- What stands before and after the first occurrence of a pattern. -/
def splitOnce (pattern : List α) : List α -> Option (List α × List α)
  | [] => (List.dropPrefix? [] pattern).map fun after => ([], after)
  | item :: rest =>
      match (item :: rest).dropPrefix? pattern with
      | some after => some ([], after)
      | none => (splitOnce pattern rest).map fun (before, after) => (item :: before, after)

variable [LawfulBEq α] {pattern text before after : List α} {separator : α}

theorem dropPrefix?_eq_some : text.dropPrefix? pattern = some after ↔ text = pattern ++ after := by
  rw [List.dropPrefix?_eq_some_iff]
  constructor
  · rintro ⟨first, rfl, same⟩
    rw [eq_of_beq same]
  · rintro rfl
    exact ⟨pattern, rfl, beq_self_eq_true _⟩

@[simp] theorem dropPrefix?_append (pattern after : List α) :
    (pattern ++ after).dropPrefix? pattern = some after :=
  dropPrefix?_eq_some.2 rfl

/-- The parts of a text, with the pattern between them, make it up. -/
theorem eq_of_splitOnce
    (split : splitOnce pattern text = some (before, after)) :
    text = before ++ pattern ++ after := by
  induction text generalizing before with
  | nil =>
      rw [splitOnce] at split
      obtain ⟨rest, dropped, same⟩ := Option.map_eq_some_iff.1 split
      cases same
      exact dropPrefix?_eq_some.1 dropped
  | cons item rest inductionHypothesis =>
      rw [splitOnce] at split
      split at split
      · next dropped =>
          cases split
          exact dropPrefix?_eq_some.1 dropped
      · obtain ⟨⟨inFront, behind⟩, found, same⟩ := Option.map_eq_some_iff.1 split
        cases same
        rw [inductionHypothesis found]
        simp only [List.cons_append]

theorem splitOnce_eq_none (absent : ¬pattern <:+: text) : splitOnce pattern text = none := by
  rw [Option.eq_none_iff_forall_not_mem]
  rintro ⟨before, after⟩ found
  exact absent ⟨before, after, (eq_of_splitOnce found).symm⟩

/-- A text without the separator in it is split no earlier than at its end. -/
theorem splitOnce_append
    (absent : separator ∉ before) :
    splitOnce [separator] (before ++ separator :: after) = some (before, after) := by
  induction before with
  | nil =>
      rw [List.nil_append, splitOnce, dropPrefix?_eq_some.2 (List.singleton_append).symm]
  | cons item before inductionHypothesis =>
      rw [List.mem_cons, not_or] at absent
      obtain ⟨other, absent⟩ := absent
      have stays : (item :: (before ++ separator :: after)).dropPrefix? [separator] = none := by
        rw [Option.eq_none_iff_forall_not_mem]
        intro rest dropped
        exact other (List.cons.inj (dropPrefix?_eq_some.1 dropped)).1.symm
      rw [List.cons_append, splitOnce, stays]
      dsimp only
      rw [inductionHypothesis absent]
      rfl

end Splitting

/-!
## Trimming

A text is trimmed by leaving out what satisfies one predicate at its front and another at its
back.  What is left satisfies neither at its ends, and trimming changes nothing exactly when
the ends are so already.
-/

namespace Trimming

variable (front back : α -> Bool)

/-- Leave out the items in front that satisfy the first predicate, and those at the back that
satisfy the second. -/
def trim (items : List α) : List α :=
  (items.dropWhile front).rdropWhile back

variable {front back}

theorem isInfix_trim (items : List α) : trim front back items <:+: items :=
  (List.rdropWhile_prefix _ _).isInfix.trans (List.dropWhile_suffix _).isInfix

theorem mem_of_mem_trim {items : List α} {item : α}
    (member : item ∈ trim front back items) : item ∈ items :=
  (isInfix_trim items).mem member

theorem head?_of_prefix {first second : List α}
    (isPrefix : first <+: second) {item : α}
    (head : item ∈ first.head?) : item ∈ second.head? := by
  obtain ⟨rest, rfl⟩ := isPrefix
  cases first with
  | nil => cases head
  | cons item first => exact head

theorem front_head?_trim {items : List α} {item : α}
    (head : item ∈ (trim front back items).head?) : front item = false := by
  have inDropped := head?_of_prefix (List.rdropWhile_prefix _ _) head
  have notFront := List.head?_dropWhile_not front items
  rw [show (items.dropWhile front).head? = some item from inDropped] at notFront
  exact notFront

theorem back_getLast?_trim {items : List α} {item : α}
    (last : item ∈ (trim front back items).getLast?) : back item = false := by
  obtain ⟨notEmpty, rfl⟩ := List.mem_getLast?_eq_getLast last
  exact Bool.eq_false_iff.2 (List.rdropWhile_last_not _ _ notEmpty)

/-- Trimming changes nothing when both ends are to stay. -/
theorem trim_eq_self_iff {items : List α} :
    trim front back items = items ↔
      (∀ first ∈ items.head?, front first = false) ∧
        ∀ last ∈ items.getLast?, back last = false := by
  constructor
  · intro same
    constructor
    · intro first head
      rw [← same] at head
      exact front_head?_trim head
    · intro last lastMem
      rw [← same] at lastMem
      exact back_getLast?_trim lastMem
  · rintro ⟨head, last⟩
    have kept : items.dropWhile front = items := by
      cases items with
      | nil => rfl
      | cons first rest => exact List.dropWhile_cons_of_neg (by simp [head first rfl])
    rw [trim, kept, List.rdropWhile_eq_self_iff]
    intro notEmpty
    rw [last _ (List.getLast?_eq_some_getLast notEmpty)]
    exact Bool.false_ne_true

/-- An item that satisfies neither predicate stays in front. -/
theorem trim_cons {first : α}
    (notFront : front first = false) (notBack : back first = false)
    (rest : List α) : ∃ others, trim front back (first :: rest) = first :: others := by
  have kept : (first :: rest).dropWhile front = first :: rest :=
    List.dropWhile_cons_of_neg (by simp [notFront])
  rw [trim, kept]
  obtain ⟨dropped, whole⟩ := List.rdropWhile_prefix back (first :: rest)
  cases left : (first :: rest).rdropWhile back with
  | nil =>
      have all := List.rdropWhile_eq_nil_iff.1 left first List.mem_cons_self
      rw [notBack] at all
      cases all
  | cons item others =>
      rw [left] at whole
      obtain ⟨rfl, -⟩ := List.cons.inj whole
      exact ⟨others, rfl⟩

end Trimming

/-!
## Cutting the bytes of a text

The bytes of a character beyond the first 128 are beyond them too, so a text that is cut behind
the last of some ASCII marks is a text again.
-/

namespace Wire

section

variable {kept : UInt8 -> Bool}

theorem le_ofNat {value : Nat} (low : 128 ≤ value) (high : value < 256) :
    128 ≤ UInt8.ofNat value := by
  rw [UInt8.le_iff_toNat_le, UInt8.toNat_ofNat_of_lt' high]
  exact low

/-- The bytes of a character are above the first 128, or it is one byte. -/
theorem utf8EncodeChar_cases (c : Char) :
    (∀ byte ∈ String.utf8EncodeChar c, 128 ≤ byte) ∨
      ∃ byte, String.utf8EncodeChar c = [byte] := by
  fun_cases String.utf8EncodeChar c
  case case1 => exact .inr ⟨_, rfl⟩
  all_goals
    left
    simp only [List.forall_mem_cons]
    refine ⟨le_ofNat (by omega) (by omega), ?_⟩
  case case2 => exact ⟨le_ofNat (by omega) (by omega), List.forall_mem_nil _⟩
  all_goals refine ⟨le_ofNat (by omega) (by omega), le_ofNat (by omega) (by omega), ?_⟩
  case case3 => exact List.forall_mem_nil _
  case case4 => exact ⟨le_ofNat (by omega) (by omega), List.forall_mem_nil _⟩

theorem utf8_ofList_concat (letters : List Char) (c : Char) :
    utf8 (String.ofList (letters ++ [c])) =
      utf8 (String.ofList letters) ++ String.utf8EncodeChar c := by
  rw [utf8, utf8, String.toByteArray_ofList, String.toByteArray_ofList, List.utf8Encode_append,
    List.utf8Encode_singleton, ByteArray.data_append, Array.toList_append, List.data_toByteArray]

theorem rtakeWhile_append {items others : List α} {keep : α -> Bool}
    (all : ∀ item ∈ others, keep item = true) :
    (items ++ others).rtakeWhile keep = items.rtakeWhile keep ++ others := by
  induction others using List.reverseRecOn with
  | nil => rw [List.append_nil, List.append_nil]
  | append_singleton others last inductionHypothesis =>
      obtain ⟨allOthers, lastKept⟩ := List.forall_mem_append.1 all
      rw [← List.append_assoc,
        List.rtakeWhile_concat_pos _ _ _ (lastKept last List.mem_cons_self),
        inductionHypothesis allOthers, List.append_assoc]

/-- What stands behind the last of some ASCII marks in a text is a text. -/
theorem exists_utf8_rtakeWhile
    (high : ∀ byte, 128 ≤ byte -> kept byte = true)
    (text : String) : ∃ rest, (utf8 text).rtakeWhile kept = utf8 rest := by
  obtain ⟨letters, rfl⟩ : ∃ letters, text = String.ofList letters :=
    ⟨text.toList, (String.ofList_toList).symm⟩
  induction letters using List.reverseRecOn with
  | nil => exact ⟨"", rfl⟩
  | append_singleton letters c inductionHypothesis =>
      obtain ⟨rest, isRest⟩ := inductionHypothesis
      have append (all : ∀ byte ∈ String.utf8EncodeChar c, kept byte = true) :
          ∃ rest, (utf8 (String.ofList (letters ++ [c]))).rtakeWhile kept = utf8 rest := by
        refine ⟨String.ofList (rest.toList ++ [c]), ?_⟩
        rw [utf8_ofList_concat, utf8_ofList_concat, String.ofList_toList, rtakeWhile_append all,
          isRest]
      rcases utf8EncodeChar_cases c with isHigh | ⟨byte, isByte⟩
      · exact append fun byte member => high byte (isHigh byte member)
      · by_cases isKept : kept byte = true
        · refine append fun other member => ?_
          rw [isByte, List.mem_singleton] at member
          rwa [member]
        · refine ⟨"", ?_⟩
          rw [utf8_ofList_concat, isByte, List.rtakeWhile_concat_neg _ _ _ isKept]
          rfl

end
end Wire

/-!
## Records behind marked names

A record is a name, a mark and a body of a fixed length.  The mark may occur in names, so records
one behind another are told apart only where no name extends another one.
-/

namespace Marking

/-- A record is a name, a mark and a body. -/
def record (name body : ν -> List α) (mark : α) (entry : ν) : List α :=
  name entry ++ mark :: body entry

/-- One name is another one followed by the mark. -/
def Extends (mark : α) (name other : List α) : Prop :=
  name ++ [mark] <+: other

section

variable {name body : ν -> List α} {mark : α} {first second : List ν}

theorem not_extends_self (mark : α) (name : List α) : ¬ Extends mark name name := by
  intro extended
  have length := extended.length_le
  rw [List.length_append, List.length_singleton] at length
  omega

/-- What is behind the same mark is the same, unless one name extends the other. -/
theorem eq_of_append_mark {before other behind rest : List α}
    (same : before ++ mark :: behind = other ++ mark :: rest)
    (apart : ¬ Extends mark before other ∧ ¬ Extends mark other before) :
    before = other ∧ behind = rest := by
  have extended {left right middle leftRest rightRest : List α}
      (isRight : right = left ++ middle)
      (meets : mark :: leftRest = middle ++ mark :: rightRest)
      (notExtended : ¬ Extends mark left right) : middle = [] := by
    cases middle with
    | nil => rfl
    | cons item items =>
        obtain ⟨isMark, -⟩ := List.cons.inj meets
        refine absurd ⟨items, ?_⟩ notExtended
        rw [isRight, isMark, List.append_assoc, List.singleton_append]
  rcases List.append_eq_append_iff.1 same with
    ⟨middle, isOther, meets⟩ | ⟨middle, isBefore, meets⟩
  · have empty := extended isOther meets apart.1
    subst empty
    rw [List.append_nil] at isOther
    exact ⟨isOther.symm, (List.cons.inj meets).2⟩
  · have empty := extended isBefore meets apart.2
    subst empty
    rw [List.append_nil] at isBefore
    exact ⟨isBefore, (List.cons.inj meets).2.symm⟩

/-- Records with bodies of one length, put one behind another, tell what their names and bodies
determine, unless the name of one extends that of another at the same place. -/
theorem eq_of_flatMap_record {width : Nat}
    (isWidth : ∀ entry, (body entry).length = width)
    (determined : ∀ entry ∈ first, ∀ other ∈ second,
      name entry = name other -> body entry = body other -> entry = other)
    (same : first.flatMap (record name body mark) = second.flatMap (record name body mark))
    (apart : ∀ pair ∈ first.zip second,
      ¬ Extends mark (name pair.1) (name pair.2) ∧ ¬ Extends mark (name pair.2) (name pair.1)) :
    first = second := by
  have notNil (entry : ν) (rest : List ν) :
      (entry :: rest).flatMap (record name body mark) ≠ [] := by
    rw [List.flatMap_cons, record, List.append_assoc]
    intro empty
    exact List.cons_ne_nil _ _ (List.append_eq_nil_iff.1 empty).2
  induction first generalizing second with
  | nil =>
      cases second with
      | nil => rfl
      | cons entry rest => exact absurd same.symm (notNil entry rest)
  | cons entry entries inductionHypothesis =>
      cases second with
      | nil => exact absurd same (notNil entry entries)
      | cons other others =>
          rw [List.zip_cons_cons, List.forall_mem_cons] at apart
          rw [List.flatMap_cons, List.flatMap_cons, record, record, List.append_assoc,
            List.append_assoc, List.cons_append, List.cons_append] at same
          obtain ⟨sameName, sameRest⟩ := eq_of_append_mark same apart.1
          have length : (body entry).length = (body other).length := by
            rw [isWidth, isWidth]
          obtain ⟨sameBody, sameRecords⟩ := List.append_inj sameRest length
          have restDetermined : ∀ entry ∈ entries, ∀ other ∈ others,
              name entry = name other -> body entry = body other -> entry = other :=
            fun one member another otherMember =>
              determined one (List.mem_cons_of_mem _ member) another
                (List.mem_cons_of_mem _ otherMember)
          rw [determined entry List.mem_cons_self other List.mem_cons_self sameName sameBody,
            inductionHypothesis restDetermined sameRecords apart.2]

end

end Marking
