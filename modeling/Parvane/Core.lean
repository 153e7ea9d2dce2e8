import Mathlib.Algebra.Order.Ring.Int
import Mathlib.Data.List.Infix
import Parvane.Foundation.Wire

/-!
# Errors, addresses and references

The checks every part of the protocol makes before it uses a name that came from
outside: addresses `user@domain`, device identifiers and object references.
-/

namespace Parvane

open Wire (Bytes Message)

/-- Errors of the protocol engine.  The text names the offending field. -/
inductive ProtoError
  | frameTooLarge
  | malformed
  | fieldLimit (field : String)
  | serverSetField (field : String)
  | duplicateField (field : String)
  | tooDeep
  | unsupportedMajor (major : UInt32)
  | wrongDirection
  | unknownMethod
  | invalidField (field : String)
  | badAddress
  | badSignature
  | contextMismatch
  | duplicate
  | forbidden
  | badCertificate
  | rootMismatch
  | crypto
  | expired
  | rateLimited
  | brokenChain
  | notFound
  deriving DecidableEq, Repr

/-- Results of the protocol engine. -/
abbrev Result := Except ProtoError

/-- A sequence of two fallible steps succeeds when both do. -/
@[simp] theorem bind_eq_ok
    (first : Except ε α) (next : α -> Except ε β) (value : β) :
    (first >>= next) = .ok value ↔
      ∃ middle, first = .ok middle ∧ next middle = .ok value := by
  cases first with
  | error error => simp [bind, Except.bind]
  | ok middle => simp [bind, Except.bind]

/-- Fail with an error unless a condition holds. -/
def require (condition : Bool) (error : ProtoError) : Result Unit :=
  if condition then .ok () else .error error

@[simp] theorem require_eq_ok
    (condition : Bool) (error : ProtoError) (value : Unit) :
    require condition error = .ok value ↔ condition = true := by
  cases condition <;> simp [require]

/-- The value of a field that must be present. -/
def present (value : Option α) (error : ProtoError) : Result α :=
  match value with
  | none => .error error
  | some inner => .ok inner

@[simp] theorem present_eq_ok
    (value : Option α) (error : ProtoError) (inner : α) :
    present value error = .ok inner ↔ value = some inner := by
  cases value <;> simp [present]

/-- A method that may change its object and may fail.  The object is visible
after a failure too. -/
abbrev Update (σ : Type) := ExceptT ProtoError (StateM σ)

theorem exists_of_isOk {result : Except ε α} (isOk : result.isOk = true) :
    ∃ value, result = .ok value := by
  cases result with
  | error error => cases isOk
  | ok value => exact ⟨value, rfl⟩

theorem eq_ok_of_toOption {result : Except ε α} {value : α}
    (found : result.toOption = some value) : result = .ok value := by
  cases result with
  | error error => cases found
  | ok other => rw [Option.some.inj found]

namespace Update

/-- Run a method on an object. -/
def exec (update : Update σ α) (state : σ) : Result α × σ :=
  update.run.run state

@[simp] theorem exec_pure (value : α) (state : σ) :
    exec (pure value : Update σ α) state = (.ok value, state) := rfl

@[simp] theorem exec_bind
    (update : Update σ α) (next : α -> Update σ β) (state : σ) :
    exec (update >>= next) state =
      match exec update state with
      | (.ok value, later) => exec (next value) later
      | (.error error, later) => (.error error, later) := by
  unfold exec
  rw [ExceptT.run_bind, StateT.run_bind]
  rcases (ExceptT.run update).run state with ⟨result, later⟩
  cases result <;> rfl

@[simp] theorem exec_liftM (result : Result α) (state : σ) :
    exec (liftM result : Update σ α) state = (result, state) := rfl

@[simp] theorem exec_get (state : σ) : exec (get : Update σ σ) state = (.ok state, state) := rfl

@[simp] theorem exec_modify (change : σ -> σ) (state : σ) :
    exec (modify change : Update σ PUnit) state = (.ok ⟨⟩, change state) := rfl

@[simp] theorem exec_modifyGet (change : σ -> α × σ) (state : σ) :
    exec (modifyGet change : Update σ α) state =
      (.ok (change state).1, (change state).2) := rfl

/-- A method that makes all its checks first: either one of them fails and the
object stays as it was, or the object takes what they found. -/
def ChecksFirst
    (update : Update σ Unit) (check : Result ω) (take : σ -> ω -> σ) : Prop :=
  ∀ state, update.exec state =
    match check with
    | .ok found => (.ok (), take state found)
    | .error error => (.error error, state)

theorem checksFirst_bind
    {check : Result α} {next : α -> Update σ Unit} {rest : α -> Result ω} {take : σ -> ω -> σ}
    (later : ∀ value, ChecksFirst (next value) (rest value) take) :
    ChecksFirst (liftM check >>= next) (check >>= rest) take := by
  intro state
  rw [exec_bind, exec_liftM]
  cases check with
  | error error => rfl
  | ok value => exact later value state

theorem checksFirst_modify {change : σ -> σ} {found : ω} {take : σ -> ω -> σ}
    (changes : ∀ state, change state = take state found) :
    ChecksFirst (modify change) (pure found) take := by
  intro state
  rw [exec_modify, changes state]
  rfl

theorem checksFirst_throw (error : ProtoError) (take : σ -> ω -> σ) :
    ChecksFirst (throw error) (.error error) take :=
  fun _ => rfl

/-- What the checks of a list find, up to the first that fails. -/
def foundBefore (check : α -> Result ω) : List α -> List ω
  | [] => []
  | item :: items =>
      match check item with
      | .ok found => found :: foundBefore check items
      | .error _ => []

/-- Methods one after the other: the object takes what was found before the first check that
fails. -/
theorem exec_forM {step : α -> Update σ Unit} {check : α -> Result ω} {take : σ -> ω -> σ}
    (steps : ∀ item, ChecksFirst (step item) (check item) take)
    (items : List α) (state : σ) :
    exec (items.forM step) state =
      (items.forM fun item => (check item).map fun _ => (),
        (foundBefore check items).foldl take state) := by
  induction items generalizing state with
  | nil => rfl
  | cons item items inductionHypothesis =>
      change exec (step item >>= fun _ => items.forM step) state = _
      rw [exec_bind, steps item state, foundBefore, List.forM]
      cases check item with
      | error error => rfl
      | ok found => exact inductionHypothesis (take state found)

/-- A list of checks passes when each of them does. -/
theorem isOk_forM_map_iff (check : α -> Result ω) (items : List α) :
    (items.forM fun item => (check item).map fun _ => ()).isOk = true ↔
      ∀ item ∈ items, (check item).isOk = true := by
  induction items with
  | nil => simp [List.forM, Except.isOk, Except.toBool, pure, Except.pure]
  | cons item items inductionHypothesis =>
      rw [List.forM, List.forall_mem_cons, ← inductionHypothesis]
      cases check item <;> simp [bind, Except.bind, Except.map, Except.isOk, Except.toBool]

/-- Run on an object, the method is refused and leaves the object as it was in the
beginning, or it is accepted and what it returns and leaves meets a condition. -/
def Atomic
    (initial : σ) (update : Update σ α) (state : σ) (post : α -> σ -> Prop) : Prop :=
  match exec update state with
  | (.ok value, later) => post value later
  | (.error _, later) => later = initial

section

variable {initial state : σ} {post : β -> σ -> Prop}

theorem atomic_pure {value : β} (holds : post value state) :
    Atomic initial (pure value) state post :=
  holds

theorem atomic_get {next : σ -> Update σ β} (continues : Atomic initial (next state) state post) :
    Atomic initial (get >>= next) state post :=
  continues

theorem atomic_modify {change : σ -> σ} {next : PUnit -> Update σ β}
    (continues : Atomic initial (next ⟨⟩) (change state) post) :
    Atomic initial (modify change >>= next) state post :=
  continues

/-- A check, made while the object is as it was. -/
theorem atomic_check {check : Result α} {next : α -> Update σ β}
    (continues : ∀ value, check = .ok value -> Atomic initial (next value) initial post) :
    Atomic initial (liftM check >>= next) initial post := by
  unfold Atomic
  rw [exec_bind, exec_liftM]
  cases check with
  | error error => rfl
  | ok value => exact continues value rfl

theorem atomic_bind {first : Update σ α} {next : α -> Update σ β} {middle : α -> σ -> Prop}
    (holds : Atomic initial first state middle)
    (continues : ∀ value later, middle value later -> Atomic initial (next value) later post) :
    Atomic initial (first >>= next) state post := by
  unfold Atomic at holds ⊢
  rw [exec_bind]
  revert holds
  rcases exec first state with ⟨error | value, later⟩
  · exact id
  · exact continues value later

theorem atomic_mono {update : Update σ β} {weaker : β -> σ -> Prop}
    (holds : Atomic initial update state post)
    (implies : ∀ value later, post value later -> weaker value later) :
    Atomic initial update state weaker := by
  unfold Atomic at holds ⊢
  revert holds
  rcases exec update state with ⟨error | value, later⟩
  · exact id
  · exact implies value later

/-- The two outcomes of such a method. -/
theorem Atomic.cases {update : Update σ β}
    (holds : Atomic initial update state post) :
    (∃ error, exec update state = (.error error, initial)) ∨
      ∃ value later, exec update state = (.ok value, later) ∧ post value later := by
  unfold Atomic at holds
  revert holds
  rcases exec update state with ⟨error | value, later⟩
  · rintro rfl
    exact .inl ⟨error, rfl⟩
  · exact fun met => .inr ⟨value, later, rfl, met⟩

end

end Update

/-! ## Characters -/

/-- Characters with the Unicode property `White_Space`. -/
def isWhiteSpace (c : Char) : Bool :=
  let code := c.toNat
  (0x9 ≤ code && code ≤ 0xD) || code == 0x20 || code == 0x85 || code == 0xA0 ||
    code == 0x1680 || (0x2000 ≤ code && code ≤ 0x200A) || code == 0x2028 ||
    code == 0x2029 || code == 0x202F || code == 0x205F || code == 0x3000

/-- Control characters. -/
def isControl (c : Char) : Bool :=
  c.toNat ≤ 0x1F || (0x7F ≤ c.toNat && c.toNat ≤ 0x9F)

/-- ASCII digits, as a predicate on bytes. -/
def isDigitByte (byte : UInt8) : Bool :=
  48 ≤ byte && byte ≤ 57

/-! ## Addresses -/

def maxAddressLen : Nat := 255
def maxPartLen : Nat := 128
def maxDeviceIdLen : Nat := 64
def refIdLen : Nat := 16

/-- One side of an address. -/
def validPart (part : String) : Bool :=
  !part.isEmpty
    && part.utf8ByteSize ≤ maxPartLen
    && part.toList.head? ≠ some '.'
    && part.toList.getLast? ≠ some '.'
    && !decide (['.', '.'] <:+: part.toList)
    && part.toList.all fun c => c.isAlphanum || c == '.' || c == '_' || c == '-'

/-- A server domain. -/
def isValidDomain (domain : String) : Bool :=
  validPart domain

/-- The parts of a text between occurrences of a separator. -/
def splitParts (separator : Char) (text : String) : List String :=
  (text.toList.splitOn separator).map String.ofList

/-- An address has exactly two valid parts. -/
def isValidAddress (s : String) : Bool :=
  if s.isEmpty || s.utf8ByteSize > maxAddressLen then false
  else
    match splitParts '@' s with
    | [local_, domain] => validPart local_ && validPart domain
    | _ => false

/-- The domain of a valid address. -/
def addressDomain (s : String) : Option String :=
  if isValidAddress s then (splitParts '@' s)[1]? else none

/-- A device identifier. -/
def isValidDeviceId (s : String) : Bool :=
  !s.isEmpty
    && s.utf8ByteSize ≤ maxDeviceIdLen
    && s.toList.all fun c => c.isAlphanum || c == '_' || c == '-'

/-- The address of a user. -/
@[ext] structure UserRef where
  address : String
  deriving DecidableEq, Repr

/-- One device of a user. -/
@[ext] structure DeviceRef where
  address : String
  deviceId : String
  deriving DecidableEq, Repr

/-- An object on a server. -/
@[ext] structure Ref where
  domain : String
  id : Bytes
  deriving DecidableEq, Repr

instance : Message UserRef where
  fields user := Wire.string 1 user.address
  fields_injective first second equal := by
    simpa [UserRef.ext_iff] using Wire.select_each [1] equal

instance : Message Ref where
  fields ref := Wire.string 1 ref.domain ++ Wire.bytes 2 ref.id
  fields_injective first second equal := by
    simpa [Ref.ext_iff] using Wire.select_each [1, 2] equal

def checkUser (user : UserRef) : Result Unit :=
  require (isValidAddress user.address) .badAddress

def checkDevice (device : DeviceRef) : Result Unit :=
  require (isValidAddress device.address && isValidDeviceId device.deviceId) .badAddress

def checkRef (ref : Ref) : Result Unit :=
  require (isValidDomain ref.domain && ref.id.length == refIdLen) .badAddress

theorem length_of_checkRef {ref : Ref}
    (checked : checkRef ref = .ok ()) : ref.id.length = refIdLen := by
  rw [checkRef, require_eq_ok, Bool.and_eq_true, beq_iff_eq] at checked
  exact checked.2

end Parvane
