import Parvane.Foundation.Regrouping
import Parvane.Guard.Names
import Parvane.Sign

/-!
# Recovery keys

A recovery key is shown as ten groups of four characters, each of which stands for five bits
of the key and of its checksum.  When it is typed, letter case, whitespace and dashes do not
matter, and letters that look like a digit are taken for it.
-/

namespace Parvane.Recovery

open Wire Sign Regrouping

def recoveryEntropyBytes : Nat := 23
def checksumBytes : Nat := 2
def keyBytes : Nat := recoveryEntropyBytes + checksumBytes

def alphabet : List Char :=
  ['0', '1', '2', '3', '4', '5', '6', '7', '8', '9', 'A', 'B', 'C', 'D', 'E', 'F', 'G', 'H', 'J',
    'K', 'M', 'N', 'P', 'Q', 'R', 'S', 'T', 'V', 'W', 'X', 'Y', 'Z']

/-- The character of a number below 32. -/
def symbol (value : Nat) : Char :=
  alphabet.getD value '0'

abbrev RecoveryKey := FixedBytes recoveryEntropyBytes

def recoveryContext : Bytes := utf8 "parvane/v2/recovery-key" ++ [0]

def invalid : ProtoError := .invalidField "recovery_key"

section

variable (library : Library)

def checksum (entropy : Bytes) : Bytes :=
  (library.sha256 (recoveryContext ++ entropy)).bytes.take checksumBytes

/-! ## Showing a key -/

/-- What was shown so far, the number of its characters, and the bits that are still to be
shown. -/
structure Shown where
  acc : UInt32 := 0
  bits : Nat := 0
  n : Nat := 0
  out : List Char := []

/-- Show five bits at a time, as long as there are so many. -/
def drain (acc : UInt32) (n : Nat) (out : List Char) : Nat -> Shown
  | bits + 5 =>
      let out := if 0 < n && n % 4 == 0 then out ++ ['-'] else out
      let out := out ++ [symbol ((acc >>> UInt32.ofNat bits) &&& 31).toNat]
      drain acc (n + 1) out bits
  | bits => ⟨acc, bits, n, out⟩

def Shown.push (shown : Shown) (byte : UInt8) : Shown :=
  drain ((shown.acc <<< 8) ||| byte.toUInt32) shown.n shown.out (shown.bits + 8)

/-- The string that a user sees. -/
def toDisplay (key : RecoveryKey) : String :=
  let raw := key.bytes ++ checksum library key.bytes
  String.ofList (raw.foldl Shown.push {}).out

/-! ## Reading a key -/

structure Typed where
  acc : UInt32 := 0
  bits : Nat := 0
  chars : Nat := 0
  raw : Bytes := []

def isSkipped (c : Char) : Bool :=
  c == '-' || isWhiteSpace c

/-- Letters that look like a digit. -/
def lookAlike (c : Char) : Char :=
  match c with
  | 'O' => '0'
  | 'I' | 'L' => '1'
  | other => other

def Typed.push (typed : Typed) (c : Char) : Result Typed :=
  let c := c.toUpper
  if isSkipped c then .ok typed
  else do
    let v ← present (alphabet.idxOf? (lookAlike c)) invalid
    let chars := typed.chars + 1
    require (decide (chars ≤ keyBytes * 8 / 5)) invalid
    let acc := ((typed.acc <<< 5) ||| UInt32.ofNat v) &&& 0xFFFF
    let bits := typed.bits + 5
    if 8 ≤ bits then
      return ⟨acc, bits - 8, chars,
        typed.raw ++ [((acc >>> UInt32.ofNat (bits - 8)) &&& 0xFF).toUInt8]⟩
    else return ⟨acc, bits, chars, typed.raw⟩

/-- The key that was typed; its checksum tells most mistakes. -/
def parse (s : String) : Result RecoveryKey := do
  let typed ← s.toList.foldlM Typed.push {}
  require (typed.raw.length == keyBytes && typed.bits == 0) invalid
  let entropy := typed.raw.take recoveryEntropyBytes
  require (typed.raw.drop recoveryEntropyBytes == checksum library entropy) invalid
  present (FixedBytes.ofBytes? recoveryEntropyBytes entropy) invalid

end

/-! ## Spellings -/

/-- The characters of a typed key that count, as they are read. -/
def normalise (text : List Char) : List Char :=
  ((text.map Char.toUpper).filter fun c => !isSkipped c).map lookAlike

/-- Put a dash before every fourth character but the first one; some characters may stand
before the text. -/
def groupedFrom : Nat -> List Char -> List Char
  | _, [] => []
  | n, c :: rest =>
      if 0 < n && n % 4 == 0 then '-' :: c :: groupedFrom (n + 1) rest
      else c :: groupedFrom (n + 1) rest

/-- A text in groups of four characters. -/
def grouped (text : List Char) : List Char :=
  groupedFrom 0 text

/-- One change to the spelling of a key that should not matter. -/
inductive Respelling : List Char -> List Char -> Prop
  | letterCase (before after : List Char) (c d : Char) (same : c.toUpper = d.toUpper) :
      Respelling (before ++ c :: after) (before ++ d :: after)
  | inserted (before after : List Char) (c : Char) (skipped : c = '-' ∨ isWhiteSpace c = true) :
      Respelling (before ++ after) (before ++ c :: after)
  | removed (before after : List Char) (c : Char) (skipped : c = '-' ∨ isWhiteSpace c = true) :
      Respelling (before ++ c :: after) (before ++ after)
  | zeroForO (before after : List Char) :
      Respelling (before ++ 'O' :: after) (before ++ '0' :: after)
  | oForZero (before after : List Char) :
      Respelling (before ++ '0' :: after) (before ++ 'O' :: after)
  | letterForOne (before after : List Char) (c : Char) (letter : c = 'I' ∨ c = 'L') :
      Respelling (before ++ '1' :: after) (before ++ c :: after)
  | oneForLetter (before after : List Char) (c : Char) (letter : c = 'I' ∨ c = 'L') :
      Respelling (before ++ c :: after) (before ++ '1' :: after)

/-- Any number of such changes. -/
def Respelled : List Char -> List Char -> Prop :=
  Relation.ReflTransGen Respelling

/-! ## Bits of a word -/

theorem toNat_append
    (acc : UInt32) {width value : Nat} (short : width < 32) (small : value < 2 ^ width) :
    ((acc <<< UInt32.ofNat width) ||| UInt32.ofNat value).toNat =
      (acc.toNat * 2 ^ width + value) % 2 ^ 32 := by
  have inWord : 2 ^ width < 2 ^ 32 := Nat.pow_lt_pow_right (by decide) short
  rw [UInt32.toNat_or, UInt32.toNat_shiftLeft, UInt32.toNat_ofNat', UInt32.toNat_ofNat',
    ← Nat.or_mod_two_pow, Nat.mod_eq_of_lt (show width < 2 ^ 32 by omega),
    Nat.mod_eq_of_lt short, ← Nat.shiftLeft_add_eq_or_of_lt small, Nat.shiftLeft_eq]

theorem toNat_highest
    (acc : UInt32) {bits : Nat} (short : bits < 32) (width : Nat) (inWord : width < 32) :
    ((acc >>> UInt32.ofNat bits) &&& UInt32.ofNat (2 ^ width - 1)).toNat =
      acc.toNat / 2 ^ bits % 2 ^ width := by
  have small : 2 ^ width < 2 ^ 32 := Nat.pow_lt_pow_right (by decide) inWord
  rw [UInt32.toNat_and, UInt32.toNat_shiftRight, UInt32.toNat_ofNat', UInt32.toNat_ofNat',
    Nat.mod_eq_of_lt (show bits < 2 ^ 32 by omega), Nat.mod_eq_of_lt short,
    Nat.mod_eq_of_lt (show 2 ^ width - 1 < 2 ^ 32 by omega), Nat.and_two_pow_sub_one_eq_mod,
    Nat.shiftRight_eq_div_pow]

/-! ## Alphabet -/

theorem symbol_spec {value : Nat} (small : value < 32) :
    alphabet.idxOf? (symbol value) = some value ∧ (symbol value).toUpper = symbol value ∧
      isSkipped (symbol value) = false ∧ lookAlike (symbol value) = symbol value := by
  have every : ∀ index : Fin 32, alphabet.idxOf? (symbol index) = some index.1 ∧
      (symbol index).toUpper = symbol index ∧ isSkipped (symbol index) = false ∧
      lookAlike (symbol index) = symbol index := by
    decide +kernel
  exact every ⟨value, small⟩

theorem symbol_of_idxOf? {c : Char} {value : Nat}
    (found : alphabet.idxOf? c = some value) : symbol value = c ∧ value < 32 := by
  obtain ⟨small, same, -⟩ := List.findIdx?_eq_some_iff_getElem.1 found
  refine ⟨?_, small⟩
  rw [symbol, List.getD_eq_getElem?_getD, List.getElem?_eq_getElem small]
  exact eq_of_beq same

/-! ## Groups -/

theorem groupedFrom_append_singleton (n : Nat) (text : List Char) (c : Char) :
    groupedFrom n (text ++ [c]) = groupedFrom n text ++
      if 0 < n + text.length && (n + text.length) % 4 == 0 then ['-', c] else [c] := by
  induction text generalizing n with
  | nil =>
      simp only [List.nil_append, groupedFrom, List.length_nil, Nat.add_zero]
  | cons first text inductionHypothesis =>
      rw [List.cons_append, groupedFrom, groupedFrom, inductionHypothesis, List.length_cons,
        show n + 1 + text.length = n + (text.length + 1) by omega]
      split <;> rfl

theorem normalise_append (first second : List Char) :
    normalise (first ++ second) = normalise first ++ normalise second := by
  rw [normalise, List.map_append, List.filter_append, List.map_append]
  rfl

theorem normalise_cons (c : Char) (text : List Char) :
    normalise (c :: text) =
      if isSkipped c.toUpper then normalise text else lookAlike c.toUpper :: normalise text := by
  rw [normalise, List.map_cons, List.filter_cons]
  cases isSkipped c.toUpper <;> rfl

/-- Groups do not matter. -/
theorem normalise_groupedFrom
    (n : Nat) {values : List Nat} (small : ∀ value ∈ values, value < 32) :
    normalise (groupedFrom n (values.map symbol)) = values.map symbol := by
  induction values generalizing n with
  | nil => rfl
  | cons value values inductionHypothesis =>
      rw [List.forall_mem_cons] at small
      obtain ⟨-, upper, notSkipped, same⟩ := symbol_spec small.1
      have tail := inductionHypothesis (n + 1) small.2
      have kept : normalise (symbol value :: groupedFrom (n + 1) (values.map symbol)) =
          symbol value :: values.map symbol := by
        rw [normalise_cons, upper, if_neg (by simp [notSkipped]), same, tail]
      rw [List.map_cons, groupedFrom]
      split
      · rw [normalise_cons, if_pos (by decide), kept]
      · exact kept

/-! ## What is shown -/

/-- The digits of what was read so far are shown in groups. -/
structure Shows (read digits : List Nat) (shown : Shown) : Prop where
  regroups : Regroups 8 5 read digits shown.acc.toNat shown.bits
  n : shown.n = digits.length
  out : shown.out = grouped (digits.map symbol)
  small : ∀ digit ∈ digits, digit < 32

theorem drain_few (acc : UInt32) (n : Nat) (out : List Char) {bits : Nat} (few : bits < 5) :
    drain acc n out bits = ⟨acc, bits, n, out⟩ := by
  match bits, few with
  | 0, _ | 1, _ | 2, _ | 3, _ | 4, _ => rfl

variable {read digits : List Nat}

/-- One digit more is shown. -/
theorem Shows.write {acc : UInt32} {n bits : Nat} {out : List Char}
    (state : Shows read digits ⟨acc, bits + 5, n, out⟩) (inWord : bits < 32) :
    ∃ more, Shows read more ⟨acc, bits, n + 1,
      (if 0 < n && n % 4 == 0 then out ++ ['-'] else out) ++
        [symbol ((acc >>> UInt32.ofNat bits) &&& 31).toNat]⟩ := by
  obtain ⟨regroups, rfl, rfl, small⟩ := state
  have value : ((acc >>> UInt32.ofNat bits) &&& 31).toNat = acc.toNat / 2 ^ bits % 2 ^ 5 :=
    toNat_highest acc inWord 5 (by decide)
  have below : acc.toNat / 2 ^ bits % 2 ^ 5 < 32 := Nat.mod_lt _ (by decide)
  refine ⟨digits ++ [acc.toNat / 2 ^ bits % 2 ^ 5], regroups.write_digit, ?_, ?_, ?_⟩
  · rw [List.length_append, List.length_singleton]
  · dsimp only
    rw [value, grouped, grouped, List.map_append, List.map_singleton,
      groupedFrom_append_singleton, List.length_map, Nat.zero_add]
    split
    · rw [List.append_assoc, List.singleton_append]
    · rfl
  · intro digit member
    rcases List.mem_append.1 member with before | last
    · exact small digit before
    · rw [List.mem_singleton.1 last]
      exact below

theorem Shows.drain {acc : UInt32} {n bits : Nat} {out : List Char}
    (state : Shows read digits ⟨acc, bits, n, out⟩) (inWord : bits < 32) :
    ∃ more, Shows read more (drain acc n out bits) ∧ (drain acc n out bits).bits < 5 := by
  induction bits using Nat.strongRecOn generalizing n out digits with
  | ind bits inductionHypothesis =>
      by_cases few : bits < 5
      · rw [drain_few acc n out few]
        exact ⟨digits, state, few⟩
      · obtain ⟨rest, rfl⟩ := Nat.exists_eq_add_of_le' (Nat.le_of_not_lt few)
        obtain ⟨more, written⟩ := state.write (by omega)
        exact inductionHypothesis rest (by omega) written (by omega)

theorem Shows.push {shown : Shown}
    (state : Shows read digits shown) (few : shown.bits < 5) (byte : UInt8) :
    ∃ more, Shows (read ++ [byte.toNat]) more (shown.push byte) ∧ (shown.push byte).bits < 5 := by
  have small : byte.toNat < 2 ^ 8 := byte.toNat_lt
  have appended : ((shown.acc <<< 8) ||| byte.toUInt32).toNat =
      (shown.acc.toNat * 2 ^ 8 + byte.toNat) % 2 ^ 32 := by
    have same : byte.toUInt32 = UInt32.ofNat byte.toNat := by
      apply UInt32.toNat_inj.1
      rw [UInt8.toNat_toUInt32, UInt32.toNat_ofNat', Nat.mod_eq_of_lt (by omega)]
    rw [same]
    exact toNat_append shown.acc (by decide) small
  obtain ⟨regroups, n, out, below⟩ := state
  exact Shows.drain ⟨regroups.read_into (by omega) small appended, n, out, below⟩ (by omega)

theorem Shows.foldl {shown : Shown}
    (state : Shows read digits shown) (few : shown.bits < 5) (raw : Bytes) :
    ∃ more, Shows (read ++ raw.map UInt8.toNat) more (raw.foldl Shown.push shown) ∧
      (raw.foldl Shown.push shown).bits < 5 := by
  induction raw generalizing read digits shown with
  | nil => exact ⟨digits, by rwa [List.map_nil, List.append_nil], few⟩
  | cons byte raw inductionHypothesis =>
      obtain ⟨more, later, stillFew⟩ := state.push few byte
      have rest := inductionHypothesis later stillFew
      rwa [List.append_assoc] at rest

/-- A key is shown as the groups of forty digits that its bits are regrouped to. -/
theorem exists_toDisplay (library : Library) (key : RecoveryKey) :
    ∃ (digits : List Nat) (pending : Nat),
      toDisplay library key = String.ofList (grouped (digits.map symbol)) ∧
        Regroups 8 5 ((key.bytes ++ checksum library key.bytes).map UInt8.toNat) digits pending 0 ∧
          digits.length = 40 := by
  have start : Shows [] [] {} := ⟨.nil 8 5 0, rfl, rfl, by simp⟩
  obtain ⟨digits, ⟨regroups, -, out, -⟩, few⟩ :=
    start.foldl (by decide) (key.bytes ++ checksum library key.bytes)
  have rawLength : (key.bytes ++ checksum library key.bytes).length = 25 := by
    rw [List.length_append, key.length_eq, checksum, List.length_take,
      (library.sha256 _).length_eq]
    rfl
  have length := regroups.length
  rw [List.nil_append, List.length_map, rawLength] at length
  have noRest : ((key.bytes ++ checksum library key.bytes).foldl Shown.push {}).bits = 0 := by
    omega
  rw [noRest] at regroups length
  exact ⟨digits, _, by rw [toDisplay, out], regroups, by omega⟩

/-! ## What is read -/

/-- The digits that were typed so far are regrouped to bytes. -/
structure Reads (digits : List Nat) (typed : Typed) : Prop where
  regroups : Regroups 5 8 digits (typed.raw.map UInt8.toNat) typed.acc.toNat typed.bits
  few : typed.bits < 8
  chars : typed.chars = digits.length
  small : ∀ digit ∈ digits, digit < 32

theorem push_skipped {typed : Typed} {c : Char}
    (skipped : isSkipped c.toUpper = true) : typed.push c = .ok typed := by
  rw [Typed.push, if_pos skipped]

/-- The character of a digit is taken when there are not too many of them. -/
theorem Reads.push {digits : List Nat} {typed : Typed}
    (state : Reads digits typed)
    {c : Char} {value : Nat} (notSkipped : isSkipped c.toUpper = false)
    (found : alphabet.idxOf? (lookAlike c.toUpper) = some value)
    (room : typed.chars < 40) :
    ∃ next, typed.push c = .ok next ∧ Reads (digits ++ [value]) next := by
  obtain ⟨regroups, few, chars, small⟩ := state
  obtain ⟨-, below⟩ := symbol_of_idxOf? found
  have appended : (((typed.acc <<< 5) ||| UInt32.ofNat value) &&& 0xFFFF).toNat =
      (typed.acc.toNat * 2 ^ 5 + value) % 2 ^ 16 := by
    have word : ((typed.acc <<< 5) ||| UInt32.ofNat value).toNat =
        (typed.acc.toNat * 2 ^ 5 + value) % 2 ^ 32 := toNat_append _ (by decide) below
    have lowest : (0xFFFF : UInt32).toNat = 2 ^ 16 - 1 := rfl
    rw [UInt32.toNat_and, lowest, Nat.and_two_pow_sub_one_eq_mod, word,
      Nat.mod_mod_of_dvd _ (Nat.pow_dvd_pow 2 (by decide))]
  have longer := regroups.read_into (show typed.bits + 5 ≤ 16 by omega) below appended
  have allSmall : ∀ digit ∈ digits ++ [value], digit < 32 := by
    intro digit member
    rcases List.mem_append.1 member with before | last
    · exact small digit before
    · rw [List.mem_singleton.1 last]
      exact below
  have fits : decide (typed.chars + 1 ≤ keyBytes * 8 / 5) = true := decide_eq_true room
  have length : typed.chars + 1 = (digits ++ [value]).length := by
    rw [List.length_append, List.length_singleton, chars]
  simp only [Typed.push, notSkipped, found, present, fits, require, bind, Except.bind, if_true,
    Bool.false_eq_true, if_false]
  by_cases enough : 8 ≤ typed.bits + 5
  · obtain ⟨rest, isRest⟩ := Nat.exists_eq_add_of_le' enough
    rw [isRest] at longer
    rw [if_pos enough]
    refine ⟨_, rfl, ⟨?_, by dsimp only; omega, length, allSmall⟩⟩
    have byte (acc : UInt32) :
        ((acc >>> UInt32.ofNat rest) &&& 0xFF).toUInt8.toNat = acc.toNat / 2 ^ rest % 2 ^ 8 := by
      rw [UInt32.toNat_toUInt8, ← toNat_highest acc (show rest < 32 by omega) 8 (by decide)]
      exact Nat.mod_eq_of_lt (Nat.lt_succ_of_le Nat.and_le_right)
    dsimp only
    rw [isRest, Nat.add_sub_cancel, List.map_append, List.map_singleton, byte]
    exact longer.write_digit
  · rw [if_neg enough]
    exact ⟨_, rfl, ⟨longer, by dsimp only; omega, length, allSmall⟩⟩

theorem push_cases {typed next : Typed} {c : Char}
    (pushed : typed.push c = .ok next) :
    (isSkipped c.toUpper = true ∧ next = typed) ∨
      isSkipped c.toUpper = false ∧ typed.chars < 40 ∧
        ∃ value, alphabet.idxOf? (lookAlike c.toUpper) = some value := by
  cases skipped : isSkipped c.toUpper with
  | true =>
      rw [push_skipped skipped] at pushed
      cases pushed
      exact .inl ⟨rfl, rfl⟩
  | false =>
      rw [Typed.push, if_neg (by simp [skipped])] at pushed
      obtain ⟨value, found, pushed⟩ := (bind_eq_ok _ _ _).1 pushed
      obtain ⟨_, room, -⟩ := (bind_eq_ok _ _ _).1 pushed
      rw [require_eq_ok, decide_eq_true_eq] at room
      exact .inr ⟨rfl, room, value, (present_eq_ok _ _ _).1 found⟩

/-- A text that is taken has the digits of its normal form. -/
theorem Reads.of_foldlM {digits : List Nat} {typed final : Typed}
    (state : Reads digits typed) {text : List Char}
    (run : text.foldlM Typed.push typed = .ok final) :
    ∃ more, Reads (digits ++ more) final ∧ normalise text = more.map symbol := by
  induction text generalizing digits typed with
  | nil =>
      cases run
      exact ⟨[], by rwa [List.append_nil], rfl⟩
  | cons c text inductionHypothesis =>
      rw [List.foldlM_cons, bind_eq_ok] at run
      obtain ⟨next, pushed, run⟩ := run
      rw [normalise_cons]
      rcases push_cases pushed with ⟨skipped, rfl⟩ | ⟨notSkipped, room, value, found⟩
      · rw [if_pos skipped]
        exact inductionHypothesis state run
      · obtain ⟨other, same, later⟩ := state.push notSkipped found room
        rw [pushed] at same
        cases same
        obtain ⟨more, final, normal⟩ := inductionHypothesis later run
        rw [if_neg (by simp [notSkipped]), normal, ← (symbol_of_idxOf? found).1]
        exact ⟨value :: more, by simpa using final, rfl⟩

/-- A text whose normal form has digits, and not too many, is taken. -/
theorem Reads.foldlM {digits values : List Nat} {typed : Typed}
    (state : Reads digits typed) {text : List Char} (normal : normalise text = values.map symbol)
    (small : ∀ value ∈ values, value < 32) (room : digits.length + values.length ≤ 40) :
    ∃ final, text.foldlM Typed.push typed = .ok final ∧ Reads (digits ++ values) final := by
  induction text generalizing digits values typed with
  | nil =>
      obtain rfl := List.map_eq_nil_iff.1 normal.symm
      exact ⟨typed, rfl, by rwa [List.append_nil]⟩
  | cons c text inductionHypothesis =>
      rw [normalise_cons] at normal
      rw [List.foldlM_cons]
      cases skipped : isSkipped c.toUpper with
      | true =>
          rw [if_pos skipped] at normal
          rw [push_skipped skipped]
          exact inductionHypothesis state normal small room
      | false =>
          rw [if_neg (by simp [skipped])] at normal
          obtain ⟨value, others, rfl, same, rest⟩ := List.map_eq_cons_iff.1 normal.symm
          rw [List.forall_mem_cons] at small
          rw [List.length_cons] at room
          have found : alphabet.idxOf? (lookAlike c.toUpper) = some value := by
            rw [← same]
            exact (symbol_spec small.1).1
          obtain ⟨next, pushed, later⟩ := state.push skipped found (by rw [state.chars]; omega)
          rw [pushed]
          have run := inductionHypothesis later rest.symm small.2 (by simp; omega)
          rwa [List.append_assoc] at run

theorem reads_start : Reads [] {} :=
  ⟨.nil 5 8 0, by decide, rfl, by simp⟩

/-! ## Keys and their spellings -/

section

variable {library : Library} {key : RecoveryKey}

/-- What was read for an accepted key. -/
theorem of_parse {s : String}
    (parsed : parse library s = .ok key) :
    ∃ (digits : List Nat) (pending : Nat),
      normalise s.toList = digits.map symbol ∧ (∀ digit ∈ digits, digit < 2 ^ 5) ∧
        Regroups 5 8 digits ((key.bytes ++ checksum library key.bytes).map UInt8.toNat)
          pending 0 := by
  simp only [parse, bind_eq_ok, require_eq_ok, present_eq_ok, Bool.and_eq_true,
    beq_iff_eq] at parsed
  obtain ⟨typed, run, -, ⟨-, noRest⟩, -, sum, isKey⟩ := parsed
  obtain ⟨digits, final, normal⟩ := reads_start.of_foldlM run
  rw [FixedBytes.ofBytes?] at isKey
  split at isKey
  · cases isKey
    dsimp only
    rw [← sum, List.take_append_drop]
    have regroups := final.regroups
    rw [noRest] at regroups
    exact ⟨digits, _, normal, final.small, regroups⟩
  · cases isKey

/-- Every text with the normal form of a key is read as the key. -/
theorem parse_of_normalise {s : String}
    (same : normalise s.toList = normalise (toDisplay library key).toList) :
    parse library s = .ok key := by
  obtain ⟨digits, pending, isShown, forth, length⟩ := exists_toDisplay library key
  rw [isShown, String.toList_ofList, grouped, normalise_groupedFrom 0 forth.small] at same
  obtain ⟨final, run, reads_⟩ := reads_start.foldlM same forth.small (by simp [length])
  have back := reads_.regroups
  rw [List.nil_append] at back
  have few := reads_.few
  have lengths := back.length
  rw [length] at lengths
  have noRest : final.bits = 0 := by omega
  rw [noRest] at back lengths
  have small : ∀ digit ∈ (key.bytes ++ checksum library key.bytes).map UInt8.toNat,
      digit < 2 ^ 8 := by
    intro digit member
    obtain ⟨byte, -, rfl⟩ := List.mem_map.1 member
    exact byte.toNat_lt
  have rawEq : final.raw = key.bytes ++ checksum library key.bytes :=
    List.map_injective_iff.2 (fun _ _ => UInt8.toNat_inj.1) (forth.back (by decide) back small)
  have rawLength : final.raw.length = keyBytes := by
    rw [List.length_map] at lengths
    exact Nat.eq_of_mul_eq_mul_left (show 0 < 8 by decide) lengths.symm
  simp only [parse, bind_eq_ok, require_eq_ok, present_eq_ok, Bool.and_eq_true, beq_iff_eq]
  refine ⟨final, run, (), ⟨rawLength, noRest⟩, (), ?_, ?_⟩
  · rw [rawEq, List.drop_left' key.length_eq, List.take_left' key.length_eq]
  · rw [rawEq, List.take_left' key.length_eq]
    exact dif_pos key.length_eq

/-- The normal form of an accepted text, in groups, is the shown form of its key. -/
theorem grouped_normalise {s : String}
    (parsed : parse library s = .ok key) :
    grouped (normalise s.toList) = (toDisplay library key).toList := by
  obtain ⟨digits, pending, normal, small, forth⟩ := of_parse parsed
  obtain ⟨shown, rest, isShown, back, -⟩ := exists_toDisplay library key
  rw [isShown, String.toList_ofList, normal, forth.back (by decide) back small]

theorem normalise_of_parse {s : String}
    (parsed : parse library s = .ok key) :
    normalise s.toList = normalise (toDisplay library key).toList := by
  obtain ⟨digits, pending, normal, small, -⟩ := of_parse parsed
  rw [← grouped_normalise parsed, normal, grouped, normalise_groupedFrom 0 small]

theorem normalise_respelling {first second : List Char}
    (respelling : Respelling first second) : normalise first = normalise second := by
  have skippedUpper (c : Char) (skipped : c = '-' ∨ isWhiteSpace c = true) :
      isSkipped c.toUpper = true := by
    rcases skipped with rfl | white
    · decide
    · rw [Guard.toUpper_of_isWhiteSpace white, isSkipped, white, Bool.or_true]
  cases respelling with
  | letterCase before after c d same =>
      simp only [normalise_append, normalise_cons, same]
  | inserted before after c skipped
  | removed before after c skipped =>
      simp only [normalise_append, normalise_cons, skippedUpper c skipped, if_true]
  | zeroForO before after
  | oForZero before after =>
      simp only [normalise_append, normalise_cons]
      rfl
  | letterForOne before after c letter
  | oneForLetter before after c letter =>
      rcases letter with rfl | rfl
      all_goals
        simp only [normalise_append, normalise_cons]
        rfl

theorem normalise_respelled {first second : List Char}
    (respelled : Respelled first second) : normalise first = normalise second := by
  induction respelled with
  | refl => rfl
  | tail _ respelling inductionHypothesis =>
      exact inductionHypothesis.trans (normalise_respelling respelling)

end

/-- A key is read from all spellings of its shown form, and what is read as a key is a
spelling of its shown form; so different keys have no spelling in common. -/
theorem parse_spellings (library : Library) :
    (∀ (key : RecoveryKey) (spelled : List Char),
      Respelled (toDisplay library key).toList spelled ->
        parse library (String.ofList spelled) = .ok key) ∧
    (∀ (s : String) (key : RecoveryKey), parse library s = .ok key ->
      grouped (normalise s.toList) = (toDisplay library key).toList) ∧
    ∀ (first second : String) (key other : RecoveryKey),
      parse library first = .ok key -> parse library second = .ok other ->
        (normalise first.toList = normalise second.toList ↔ key = other) := by
  refine ⟨?_, fun s key => grouped_normalise, ?_⟩
  · intro key spelled respelled
    apply parse_of_normalise
    rw [String.toList_ofList, normalise_respelled respelled]
  · intro first second key other firstParsed secondParsed
    constructor
    · intro same
      rw [normalise_of_parse firstParsed] at same
      rw [parse_of_normalise same.symm] at secondParsed
      cases secondParsed
      rfl
    · rintro rfl
      rw [normalise_of_parse firstParsed, normalise_of_parse secondParsed]

end Parvane.Recovery
