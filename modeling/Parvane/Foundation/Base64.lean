import Parvane.Foundation.Wire

/-!
# Base 64

Three bytes are written as four characters.  The last group is filled up with `=`, and the
bits that it does not need are zero.
-/

namespace Base64

open Wire (Bytes)

def alphabet : List Char :=
  "ABCDEFGHIJKLMNOPQRSTUVWXYZabcdefghijklmnopqrstuvwxyz0123456789+/".toList

/-- The character of a number below 64. -/
def digit (value : Nat) : Char :=
  alphabet.getD value '='

/-- The number of a character. -/
def value (character : Char) : Option Nat :=
  alphabet.idxOf? character

def encodeChars : Bytes -> List Char
  | [] => []
  | [first] => [digit (first.toNat / 4), digit (first.toNat % 4 * 16), '=', '=']
  | [first, second] =>
      [digit (first.toNat / 4), digit (first.toNat % 4 * 16 + second.toNat / 16),
        digit (second.toNat % 16 * 4), '=']
  | first :: second :: third :: rest =>
      digit (first.toNat / 4) :: digit (first.toNat % 4 * 16 + second.toNat / 16) ::
        digit (second.toNat % 16 * 4 + third.toNat / 64) :: digit (third.toNat % 64) ::
          encodeChars rest

def encode (bytes : Bytes) : String :=
  String.ofList (encodeChars bytes)

/-- The bytes of a full group. -/
def joinFull (first second third fourth : Nat) : Bytes :=
  [UInt8.ofNat (first * 4 + second / 16), UInt8.ofNat (second % 16 * 16 + third / 4),
    UInt8.ofNat (third % 4 * 64 + fourth)]

/-- The bytes of the last group. -/
def decodeLast : List Char -> Option Bytes
  | [first, second, '=', '='] => do
      let first ← value first
      let second ← value second
      if second % 16 = 0 then some [UInt8.ofNat (first * 4 + second / 16)] else none
  | [first, second, third, '='] => do
      let first ← value first
      let second ← value second
      let third ← value third
      if third % 4 = 0 then
        some [UInt8.ofNat (first * 4 + second / 16), UInt8.ofNat (second % 16 * 16 + third / 4)]
      else none
  | _ => none

def decodeChars : List Char -> Option Bytes
  | [] => some []
  | first :: second :: third :: fourth :: rest =>
      if fourth = '=' then decodeLast (first :: second :: third :: fourth :: rest)
      else do
        let first ← value first
        let second ← value second
        let third ← value third
        let fourth ← value fourth
        let rest ← decodeChars rest
        some (joinFull first second third fourth ++ rest)
  | _ => none

def decode (text : String) : Option Bytes :=
  decodeChars text.toList

/-- A digit can be read back, and is no filling. -/
theorem value_digit (number : Nat) (small : number < 64) :
    value (digit number) = some number ∧ digit number ≠ '=' := by
  have every : ∀ index : Fin 64, value (digit index) = some index.1 ∧ digit index ≠ '=' := by
    decide +kernel
  exact every ⟨number, small⟩

theorem ofNat_eq (byte : UInt8) (number : Nat) (equal : number = byte.toNat) :
    UInt8.ofNat number = byte := by
  rw [equal, UInt8.ofNat_toNat]

theorem decodeChars_encodeChars (bytes : Bytes) : decodeChars (encodeChars bytes) = some bytes := by
  induction bytes using encodeChars.induct with
  | case1 => rfl
  | case2 first =>
      have small := first.toNat_lt
      obtain ⟨one, -⟩ := value_digit (first.toNat / 4) (by omega)
      obtain ⟨two, -⟩ := value_digit (first.toNat % 4 * 16) (by omega)
      simp only [encodeChars, decodeChars, decodeLast, one, two, if_true, Option.bind_eq_bind,
        Option.bind_some]
      rw [if_pos (by omega), ofNat_eq first _ (by omega)]
  | case3 first second =>
      have small := first.toNat_lt
      have small' := second.toNat_lt
      obtain ⟨one, -⟩ := value_digit (first.toNat / 4) (by omega)
      obtain ⟨two, -⟩ := value_digit (first.toNat % 4 * 16 + second.toNat / 16) (by omega)
      obtain ⟨three, noFilling⟩ := value_digit (second.toNat % 16 * 4) (by omega)
      rw [encodeChars, decodeChars, if_pos rfl]
      unfold decodeLast
      split
      · next same =>
          simp only [List.cons.injEq] at same
          exact absurd same.2.2.1 noFilling
      · next same =>
          simp only [List.cons.injEq, and_true] at same
          obtain ⟨rfl, rfl, rfl⟩ := same
          simp only [one, two, three, Option.bind_eq_bind, Option.bind_some]
          rw [if_pos (by omega), ofNat_eq first _ (by omega), ofNat_eq second _ (by omega)]
      · next other => exact absurd rfl (other _ _ _)
  | case4 first second third rest inductionHypothesis =>
      have small := first.toNat_lt
      have small' := second.toNat_lt
      have small'' := third.toNat_lt
      obtain ⟨one, -⟩ := value_digit (first.toNat / 4) (by omega)
      obtain ⟨two, -⟩ := value_digit (first.toNat % 4 * 16 + second.toNat / 16) (by omega)
      obtain ⟨three, -⟩ := value_digit (second.toNat % 16 * 4 + third.toNat / 64) (by omega)
      obtain ⟨four, noFilling⟩ := value_digit (third.toNat % 64) (by omega)
      rw [encodeChars, decodeChars, if_neg noFilling]
      simp only [one, two, three, four, inductionHypothesis, Option.bind_eq_bind,
        Option.bind_some, joinFull]
      rw [ofNat_eq first _ (by omega), ofNat_eq second _ (by omega), ofNat_eq third _ (by omega)]
      rfl

theorem decode_encode (bytes : Bytes) : decode (encode bytes) = some bytes := by
  rw [decode, encode, String.toList_ofList, decodeChars_encodeChars]

/-! ## Without filling -/

/-- The digits of the text of some bytes, and how many characters fill it up. -/
theorem exists_body (bytes : Bytes) :
    ∃ body, encodeChars bytes = body ++ List.replicate ((4 - body.length % 4) % 4) '=' ∧
      ∀ c ∈ body, ∃ number < 64, c = digit number := by
  induction bytes using encodeChars.induct with
  | case1 => exact ⟨[], rfl, fun c member => absurd member List.not_mem_nil⟩
  | case2 first =>
      have small := first.toNat_lt
      refine ⟨[digit (first.toNat / 4), digit (first.toNat % 4 * 16)], rfl, ?_⟩
      simp only [List.forall_mem_cons, List.not_mem_nil, false_implies, implies_true, and_true]
      exact ⟨⟨_, by omega, rfl⟩, ⟨_, by omega, rfl⟩⟩
  | case3 first second =>
      have small := first.toNat_lt
      have small' := second.toNat_lt
      refine ⟨[digit (first.toNat / 4), digit (first.toNat % 4 * 16 + second.toNat / 16),
        digit (second.toNat % 16 * 4)], rfl, ?_⟩
      simp only [List.forall_mem_cons, List.not_mem_nil, false_implies, implies_true, and_true]
      exact ⟨⟨_, by omega, rfl⟩, ⟨_, by omega, rfl⟩, ⟨_, by omega, rfl⟩⟩
  | case4 first second third rest inductionHypothesis =>
      obtain ⟨body, same, digits⟩ := inductionHypothesis
      have small := first.toNat_lt
      have small' := second.toNat_lt
      have small'' := third.toNat_lt
      refine ⟨digit (first.toNat / 4) :: digit (first.toNat % 4 * 16 + second.toNat / 16) ::
        digit (second.toNat % 16 * 4 + third.toNat / 64) :: digit (third.toNat % 64) :: body,
        ?_, ?_⟩
      · rw [encodeChars, same]
        simp only [List.cons_append, List.length_cons]
        rw [show body.length + 1 + 1 + 1 + 1 = body.length + 4 by omega, Nat.add_mod_right]
      · simp only [List.forall_mem_cons]
        exact ⟨⟨_, by omega, rfl⟩, ⟨_, by omega, rfl⟩, ⟨_, by omega, rfl⟩, ⟨_, by omega, rfl⟩,
          digits⟩

/-- The two characters that mean something else in a link are replaced. -/
def toUrl (c : Char) : Char :=
  if c = '+' then '-' else if c = '/' then '_' else c

def ofUrl (c : Char) : Char :=
  if c = '-' then '+' else if c = '_' then '/' else c

def encodeUrl (bytes : Bytes) : List Char :=
  ((encodeChars bytes).filter fun c => c != '=').map toUrl

/-- Neither filling nor the replaced characters are read. -/
def decodeUrl (text : List Char) : Option Bytes :=
  if text.any fun c => c == '=' || c == '+' || c == '/' then none
  else decodeChars (text.map ofUrl ++ List.replicate ((4 - text.length % 4) % 4) '=')

/-- The characters of a text without filling. -/
def isUrlChar (c : Char) : Bool :=
  c.isAlphanum || c == '-' || c == '_'

theorem toUrl_digit {number : Nat} (small : number < 64) :
    isUrlChar (toUrl (digit number)) = true ∧ ofUrl (toUrl (digit number)) = digit number := by
  have every : ∀ index : Fin 64, isUrlChar (toUrl (digit index)) = true ∧
      ofUrl (toUrl (digit index)) = digit index := by
    decide +kernel
  exact every ⟨number, small⟩

theorem isUrlChar_encodeUrl {bytes : Bytes} {c : Char}
    (member : c ∈ encodeUrl bytes) : isUrlChar c = true := by
  obtain ⟨body, same, digits⟩ := exists_body bytes
  rw [encodeUrl, same] at member
  obtain ⟨original, kept, rfl⟩ := List.mem_map.1 member
  obtain ⟨inText, noFilling⟩ := List.mem_filter.1 kept
  rcases List.mem_append.1 inText with inBody | isFilling
  · obtain ⟨number, small, rfl⟩ := digits original inBody
    exact (toUrl_digit small).1
  · rw [List.eq_of_mem_replicate isFilling] at noFilling
    cases noFilling

theorem decodeUrl_encodeUrl (bytes : Bytes) : decodeUrl (encodeUrl bytes) = some bytes := by
  obtain ⟨body, same, digits⟩ := exists_body bytes
  have isBody : (encodeChars bytes).filter (fun c => c != '=') = body := by
    rw [same, List.filter_append, List.filter_eq_self.2, List.filter_replicate_of_neg (by decide),
      List.append_nil]
    intro c member
    obtain ⟨number, small, rfl⟩ := digits c member
    exact bne_iff_ne.2 (value_digit number small).2
  have back : (encodeUrl bytes).map ofUrl = body := by
    rw [encodeUrl, isBody, List.map_map]
    conv_rhs => rw [← List.map_id body]
    refine List.map_congr_left fun c member => ?_
    obtain ⟨number, small, rfl⟩ := digits c member
    exact (toUrl_digit small).2
  have length : (encodeUrl bytes).length = body.length := by
    rw [← back, List.length_map]
  rw [decodeUrl, if_neg, back, length, ← same, decodeChars_encodeChars]
  intro found
  obtain ⟨c, member, isOther⟩ := List.any_eq_true.1 found
  have url := isUrlChar_encodeUrl member
  rcases (by simpa [or_assoc] using isOther : c = '=' ∨ c = '+' ∨ c = '/') with rfl | rfl | rfl
  all_goals exact absurd url (by decide)

theorem length_encodeChars (bytes : Bytes) :
    (encodeChars bytes).length = (bytes.length + 2) / 3 * 4 := by
  induction bytes using encodeChars.induct with
  | case4 first second third rest inductionHypothesis =>
      simp only [encodeChars, List.length_cons, inductionHypothesis]
      omega
  | _ => simp [encodeChars]

theorem length_encodeUrl_le (bytes : Bytes) :
    (encodeUrl bytes).length ≤ (bytes.length + 2) / 3 * 4 := by
  rw [encodeUrl, List.length_map, ← length_encodeChars]
  exact List.length_filter_le _ _

end Base64
