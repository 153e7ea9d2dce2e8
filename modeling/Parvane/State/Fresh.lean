import Parvane.State.Entries
import Parvane.State.Snapshot

/-!
# Operations that are stamped after the state

A device stamps its operations with times after all that it has seen.  What they write takes
effect, whatever was there.
-/

namespace Parvane.State

open Wire Convergence

variable {κ ν ε ρ : Type}

/-- Changes that one device stamps, one after the other. -/
inductive StampedBy (deviceId : String) (tsMs : Int64) :
    LamportClock -> List Op -> List StateOp -> Prop
  | nil (clock : LamportClock) : StampedBy deviceId tsMs clock [] []
  | cons {clock later : LamportClock} {opId : OpId} {kind : Op} {op : StateOp}
      (made : makeOpWithId clock deviceId tsMs opId kind = .ok (op, later))
      (rest : StampedBy deviceId tsMs later kinds ops) :
      StampedBy deviceId tsMs clock (kind :: kinds) (op :: ops)

variable {deviceId : String} {tsMs : Int64} {clock later : LamportClock} {kinds : List Op}
  {kind : Op} {op : StateOp} {opId : OpId} {ops : List StateOp} {sha256 : Bytes -> Digest}

theorem op_of_makeOpWithId (made : makeOpWithId clock deviceId tsMs opId kind = .ok (op, later)) :
    op.op = some kind := by
  obtain ⟨-, -, rfl, -⟩ := makeOpWithId_eq_ok.1 made
  rfl

theorem StampedBy.map_op (stamped : StampedBy deviceId tsMs clock kinds ops) :
    ops.map StateOp.op = kinds.map some := by
  induction stamped with
  | nil => rfl
  | cons made rest inductionHypothesis =>
      rw [List.map_cons, List.map_cons, inductionHypothesis, op_of_makeOpWithId made]

/-! ## Which are accepted -/

/-- A stamped operation is accepted when its kind is. -/
theorem accepted_iff_carriedOut
    (made : makeOpWithId clock deviceId tsMs opId kind = .ok (op, later)) :
    accepted sha256 op = true ↔ CarriedOut kind := by
  obtain ⟨device, early, rfl, -⟩ := makeOpWithId_eq_ok.1 made
  have opIdFits : opId16 opId.bytes "op_id" = .ok opId := by
    rw [opId16, ofBytes?_eq_some.2 rfl]
    rfl
  have positive : (clock.last + 1 != 0 && decide (clock.last + 1 ≤ acceptLamportCeiling)) = true := by
    have bound : clock.last.toNat < 1099511627776 := UInt64.lt_iff_toNat_lt.1 early
    rw [Bool.and_eq_true, bne_iff_ne, decide_eq_true_eq, UInt64.le_iff_toNat_le, ne_eq,
      ← UInt64.toNat_inj, UInt64.toNat_add]
    simp only [UInt64.toNat_one, UInt64.toNat_zero, acceptLamportCeiling]
    have ceiling : UInt64.toNat 1099511627776 = 1099511627776 := rfl
    omega
  have header : checkHeader ⟨opId.bytes, clock.last + 1, deviceId, tsMs, some kind⟩ = .ok () := by
    simp [checkHeader, opIdFits, device, require]
    simpa using positive
  rw [accepted]
  rcases refused_or_carriedOut kind with ⟨error, refused⟩ | carriedOut
  · refine iff_of_false ?_ fun carriedOut => ?_
    · simp [apply, header, opIdFits, refused, Except.isOk, Except.toBool]
    · have stamp : Stamp := ⟨0, deviceId, opId, sha256 []⟩
      have ran := (refused stamp .new).symm.trans (carriedOut stamp .new)
      cases (Prod.mk.inj ran).1
  · refine iff_of_true ?_ carriedOut
    simp [apply, header, opIdFits, carriedOut _ _, Except.isOk, Except.toBool]

theorem carriedOut_of_accepted
    (isAccepted : accepted sha256 op = true)
    (carried : op.op = some kind) : CarriedOut kind := by
  rcases refused_or_carriedOut kind with ⟨error, refused⟩ | carriedOut
  · rw [accepted, apply] at isAccepted
    cases header : checkHeader op with
    | error error => simp [header, Except.isOk, Except.toBool] at isAccepted
    | ok _ =>
        cases opId : opId16 op.opId "op_id" with
        | error error => simp [header, opId, Except.isOk, Except.toBool] at isAccepted
        | ok id => simp [header, opId, carried, refused, Except.isOk, Except.toBool] at isAccepted
  · exact carriedOut

/-! ## What they leave -/

theorem stampOf_of_makeOpWithId
    (sha256 : Bytes -> Digest)
    (made : makeOpWithId clock deviceId tsMs opId kind = .ok (op, later)) :
    ∃ stamp, stampOf sha256 op = some stamp ∧ stamp.lamport = op.lamport := by
  obtain ⟨-, -, rfl, -⟩ := makeOpWithId_eq_ok.1 made
  rw [stampOf, ofBytes?_eq_some.2 rfl]
  exact ⟨_, rfl, rfl⟩

theorem lt_of_lamport {first second : Stamp} (earlier : first.lamport < second.lamport) :
    first < second := by
  change first.key < second.key
  exact Prod.Lex.toLex_lt_toLex.2 (.inl (UInt64.lt_iff_toNat_lt.1 earlier))

/-- The live value of a key. -/
def liveAt [Ord κ] [Std.TransOrd κ] (map : Std.ExtTreeMap κ (Lww ν)) (key : κ) : Option ν :=
  map[key]?.bind Lww.value

/-- No entry is later than the clock. -/
def Bounded [Ord κ] [Std.TransOrd κ] (clock : LamportClock)
    (map : Std.ExtTreeMap κ (Lww ν)) : Prop :=
  ∀ (key : κ) (entry : Lww ν), map[key]? = some entry -> entry.stamp.lamport ≤ clock.last

section

variable [Ord κ] [Std.TransOrd κ] [Std.LawfulEqOrd κ] [DecidableEq κ]
  {write : Op -> Option (κ × Option ν)}
  {read : PersonalState -> Std.ExtTreeMap κ (Lww ν)}
  {state : PersonalState}

section

variable (isMap : IsMap sha256 (entryOf sha256 write) Lww.stamp read)

include isMap

/-- A stamped operation writes its key, whatever was there. -/
theorem getElem?_effect_of_stamped
    (made : makeOpWithId clock deviceId tsMs opId kind = .ok (op, later))
    (bounded : Bounded clock (read state))
    (key : κ) :
    ∃ stamp : Stamp, stamp.lamport = later.last ∧
      (read (effect sha256 state op))[key]? =
        match write kind with
        | some (target, value) =>
            if target = key then some ⟨stamp, value⟩ else (read state)[key]?
        | none => (read state)[key]? := by
  obtain ⟨stamp, isStamp, lamport⟩ := stampOf_of_makeOpWithId sha256 made
  have times := lamport_of_makeOpWithId made
  refine ⟨stamp, lamport.trans times.2.symm, ?_⟩
  rw [isMap.getElem?_effect, entryOf, isStamp, op_of_makeOpWithId made]
  cases written : write kind with
  | none => simp [written]
  | some entry =>
      obtain ⟨target, value⟩ := entry
      simp only [Option.bind_eq_bind, Option.bind_some, Option.pure_def, written]
      by_cases same : target = key
      · rw [if_pos same, if_pos same]
        cases before : (read state)[key]? with
        | none => rfl
        | some entry =>
            have newer : entry.stamp < stamp :=
              lt_of_lamport (lt_of_le_of_lt (bounded key entry before) (lamport ▸ times.1))
            rw [keepGreatest_some, if_pos newer]
      · rw [if_neg same, if_neg same]

theorem bounded_effect
    (made : makeOpWithId clock deviceId tsMs opId kind = .ok (op, later))
    (bounded : Bounded clock (read state)) : Bounded later (read (effect sha256 state op)) := by
  intro key entry found
  obtain ⟨stamp, isLast, isEntry⟩ := getElem?_effect_of_stamped isMap made bounded key
  have times := lamport_of_makeOpWithId made
  have grows : clock.last ≤ later.last := times.2 ▸ times.1.le
  rw [isEntry] at found
  split at found
  · split at found
    · cases found
      exact isLast.le
    · exact (bounded key entry found).trans grows
  · exact (bounded key entry found).trans grows

/-- The last value that is written to a key is the one that is there. -/
theorem liveAt_of_stamped
    (stamped : StampedBy deviceId tsMs clock kinds ops)
    (bounded : Bounded clock (read state))
    {key : κ} {value : Option ν}
    (unique : ∀ kind ∈ kinds, ∀ other, write kind = some (key, other) -> other = value)
    (writes : liveAt (read state) key = value ∨ ∃ kind ∈ kinds, write kind = some (key, value)) :
    liveAt (read (ops.foldl (effect sha256) state)) key = value := by
  induction stamped generalizing state with
  | nil clock =>
      rcases writes with isLive | ⟨_, member, -⟩
      · exact isLive
      · cases member
  | cons made rest inductionHypothesis =>
      rw [List.forall_mem_cons] at unique
      refine inductionHypothesis (bounded_effect isMap made bounded) unique.2 ?_
      obtain ⟨stamp, -, isEntry⟩ := getElem?_effect_of_stamped isMap made bounded key
      rw [liveAt, isEntry]
      split
      · next target other written =>
        split
        · next same =>
          subst same
          exact .inl (unique.1 other written)
        · next different =>
          refine writes.imp_right ?_
          rintro ⟨kind, member, isKind⟩
          rcases List.mem_cons.1 member with rfl | member
          · rw [written] at isKind
            cases isKind
            exact absurd rfl different
          · exact ⟨kind, member, isKind⟩
      · next unwritten =>
        refine writes.imp_right ?_
        rintro ⟨kind, member, isKind⟩
        rcases List.mem_cons.1 member with rfl | member
        · rw [unwritten] at isKind
          cases isKind
        · exact ⟨kind, member, isKind⟩

end

end

/-- The entries of a reached state are not later than its greatest time. -/
theorem bounded_of_reached [Ord κ] [Std.TransOrd κ] [Std.LawfulEqOrd κ] [DecidableEq κ]
    {write : Op -> Option (κ × Option ν)}
    {read : PersonalState -> Std.ExtTreeMap κ (Lww ν)}
    (isMap : IsMap sha256 (entryOf sha256 write) Lww.stamp read)
    {history : List StateOp}
    (behind : (applyAll sha256 history .new).2.maxLamport ≤ clock.last) :
    Bounded clock (read (applyAll sha256 history .new).2) := by
  intro key entry found
  obtain ⟨op, member, isAccepted, offered⟩ := isMap.offered found
  have stamped := entryOf_eq_some offered
  obtain ⟨opId, -, isStamp⟩ := Option.map_eq_some_iff.1 stamped
  have lamport : op.lamport = entry.stamp.lamport := congrArg Stamp.lamport isStamp
  exact lamport ▸ (le_maxLamport_applyAll member isAccepted .new).trans behind

section

variable {write : Op -> Option ν} {read : PersonalState -> Option (Lww ν)} {state : PersonalState}

/-- The register is not later than the clock. -/
def RegisterBounded (clock : LamportClock) (register : Option (Lww ν)) : Prop :=
  ∀ entry ∈ register, entry.stamp.lamport ≤ clock.last

section

variable (isRegister : IsRegister sha256 write read)

include isRegister

theorem registerBounded_of_reached
    {history : List StateOp}
    (behind : (applyAll sha256 history .new).2.maxLamport ≤ clock.last) :
    RegisterBounded clock (read (applyAll sha256 history .new).2) := by
  intro entry found
  obtain ⟨op, member, isAccepted, offered⟩ := isRegister.offered found
  have stamped := offerOf_eq_some offered
  obtain ⟨opId, -, isStamp⟩ := Option.map_eq_some_iff.1 stamped
  have lamport : op.lamport = entry.stamp.lamport := congrArg Stamp.lamport isStamp
  exact lamport ▸ (le_maxLamport_applyAll member isAccepted .new).trans behind

theorem read_effect_of_stamped
    (made : makeOpWithId clock deviceId tsMs opId kind = .ok (op, later))
    (bounded : RegisterBounded clock (read state)) :
    ∃ stamp : Stamp, stamp.lamport = later.last ∧
      read (effect sha256 state op) =
        match write kind with
        | some value => some ⟨stamp, some value⟩
        | none => read state := by
  obtain ⟨stamp, isStamp, lamport⟩ := stampOf_of_makeOpWithId sha256 made
  have times := lamport_of_makeOpWithId made
  refine ⟨stamp, lamport.trans times.2.symm, ?_⟩
  rw [isRegister.step, registerStep, isStamp, op_of_makeOpWithId made]
  dsimp only
  cases write kind with
  | none => rfl
  | some value =>
      rw [registerWrite, putReg_eq_keepGreatest]
      cases before : read state with
      | none => rfl
      | some entry =>
          have newer : entry.stamp < stamp :=
            lt_of_lamport (lt_of_le_of_lt (bounded entry before) (lamport ▸ times.1))
          rw [keepGreatest_some, if_pos newer]

/-- The last value that is written to a register is the one that is there. -/
theorem regValue_of_stamped
    (stamped : StampedBy deviceId tsMs clock kinds ops)
    (bounded : RegisterBounded clock (read state))
    {value : ν} (unique : ∀ kind ∈ kinds, ∀ other, write kind = some other -> other = value)
    (writes : regValue (read state) = some value ∨ ∃ kind ∈ kinds, write kind = some value) :
    regValue (read (ops.foldl (effect sha256) state)) = some value := by
  induction stamped generalizing state with
  | nil clock =>
      rcases writes with isLive | ⟨_, member, -⟩
      · exact isLive
      · cases member
  | cons made rest inductionHypothesis =>
      rw [List.forall_mem_cons] at unique
      obtain ⟨stamp, isLast, isEntry⟩ := read_effect_of_stamped isRegister made bounded
      have times := lamport_of_makeOpWithId made
      refine inductionHypothesis ?_ unique.2 ?_
      · intro entry found
        rw [isEntry] at found
        split at found
        · cases found
          exact isLast.le
        · exact (bounded entry found).trans (times.2 ▸ times.1.le)
      · rw [isEntry]
        split
        · next other written => exact .inl (congrArg some (unique.1 other written))
        · next unwritten =>
          refine writes.imp_right ?_
          rintro ⟨kind, member, isKind⟩
          rcases List.mem_cons.1 member with rfl | member
          · rw [unwritten] at isKind
            cases isKind
          · exact ⟨kind, member, isKind⟩

end

end

end Parvane.State
