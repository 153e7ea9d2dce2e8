import Parvane.Identity.Invariants
import Mathlib.Data.List.ReduceOption

/-!
# Keys of revoked devices

A device that is revoked by another hand takes its keys with it, provided that it was
certified once and is still active.  Eras that ended earlier keep their mark.
-/

namespace Parvane.Identity.DeviceLog

open Wire Sign

variable {library : Library} {log next start : DeviceLog} {event : Event} {head : Hash}

/-- A device that is revoked by another hand was certified once and is active; a
certificate does not bring back a revoked key. -/
def Careful (log : DeviceLog) : Event -> Prop
  | .revoked id false =>
      ∃ era, (log.eras.filter fun era => era.deviceId == id) = [era] ∧ era.until = none
  | .added _ key _ _ => ∀ era ∈ log.eras, era.key.bytes = key -> era.revoked = false
  | _ => True

instance (log : DeviceLog) (event : Event) : Decidable (log.Careful event) :=
  match event with
  | .revoked id false =>
      match found : log.eras.filter fun era => era.deviceId == id with
      | [era] =>
          if isOpen : era.until = none then .isTrue ⟨era, found, isOpen⟩
          else .isFalse fun ⟨other, foundOther, otherOpen⟩ => by
            cases found.symm.trans foundOther
            exact isOpen otherOpen
      | [] => .isFalse fun ⟨_, foundOther, _⟩ => by cases found.symm.trans foundOther
      | _ :: _ :: _ => .isFalse fun ⟨_, foundOther, _⟩ => by cases found.symm.trans foundOther
  | .added _ key _ _ =>
      inferInstanceAs (Decidable (∀ era ∈ log.eras, era.key.bytes = key -> era.revoked = false))
  | .revoked _ true | .genesis | .rotated | .renamed | .legacy => .isTrue trivial

/-- An entry is accepted and careful. -/
def AcceptsCarefully
    (library : Library) (log : DeviceLog) (event : Event) (next : DeviceLog) : Prop :=
  Accepts library log event next ∧ log.Careful event

variable {events : List Event}

theorem accepts_of_carefully
    (run : Run (AcceptsCarefully library) start events log) :
    Run (Accepts library) start events log := by
  induction run with
  | nil log => exact .nil log
  | cons first rest inductionHypothesis => exact .cons first.1 inductionHypothesis

theorem Step.version_eq (step : Step log head event next) : next.version = log.version + 1 := by
  cases step <;> rfl

theorem version_of_run
    (run : Run (Accepts library) start events log) :
    log.version = start.version + events.length := by
  induction run with
  | nil log => rfl
  | cons first rest inductionHypothesis =>
      obtain ⟨head, step⟩ := first.step
      rw [inductionHypothesis, step.version_eq, List.length_cons]
      omega

/-! ## Revoked for good -/

/-- The keys of the device ended at the given version, marked as revoked. -/
structure Dead (id : String) (version : Nat) (log : DeviceLog) : Prop where
  gone : id ∈ log.revoked
  marked : ∀ era ∈ log.eras, era.deviceId = id -> era.revoked = true
  closed : ∀ era ∈ log.eras, era.deviceId = id -> ∀ other ∈ log.eras, other.key = era.key ->
    ∃ last, other.until = some last ∧ last ≤ version
  floor : ∃ era ∈ log.eras, era.revoked = true ∧ era.until = some version

/-- An era that is closed stays as it is. -/
theorem mem_closeEras_closed
    {eras : List KeyEra} {deviceId : Option String} {version last : Nat} {revoked : Bool}
    {era : KeyEra} (isClosed : era.until = some last)
    (member : era ∈ eras) : era ∈ closeEras eras deviceId version revoked := by
  refine mem_closeEras.2 (.inr ⟨member, fun closes => ?_⟩)
  cases isClosed.symm.trans closes.1

variable {version : Nat}

/-- The eras from which those of the list after closing come. -/
theorem exists_of_mem_closeEras
    {eras : List KeyEra} {deviceId : Option String} {revoked : Bool} {era : KeyEra}
    (member : era ∈ closeEras eras deviceId version revoked) :
    ∃ before ∈ eras, before.deviceId = era.deviceId ∧ before.key = era.key ∧
      (before.until ≠ none -> era = before) := by
  rcases mem_closeEras.1 member with ⟨before, inside, closes, rfl⟩ | ⟨inside, -⟩
  · exact ⟨before, inside, rfl, rfl, fun isClosed => absurd closes.1 isClosed⟩
  · exact ⟨era, inside, rfl, rfl, fun _ => rfl⟩

variable {id : String}

theorem Dead.closeEras
    (dead : Dead id version log)
    {deviceId : Option String} {last : Nat} {revoked : Bool} {after : DeviceLog}
    (eras : after.eras = closeEras log.eras deviceId last revoked)
    (gone : id ∈ after.revoked) : Dead id version after := by
  have stays : ∀ era ∈ Identity.closeEras log.eras deviceId last revoked,
      ∀ own ∈ log.eras, own.deviceId = id -> own.key = era.key -> era ∈ log.eras := by
    intro era member own inside ownId sameKey
    obtain ⟨before, beforeInside, -, key, same⟩ := exists_of_mem_closeEras member
    obtain ⟨_, isClosed, -⟩ := dead.closed own inside ownId before beforeInside
      (key.trans sameKey.symm)
    rw [same (by simp [isClosed])]
    exact beforeInside
  have old : ∀ era ∈ Identity.closeEras log.eras deviceId last revoked, era.deviceId = id ->
      era ∈ log.eras := by
    intro era member isDevice
    obtain ⟨before, inside, device, key, -⟩ := exists_of_mem_closeEras member
    exact stays era member before inside (device.trans isDevice) key
  refine ⟨gone, ?_, ?_, ?_⟩
  · rw [eras]
    intro era member isDevice
    exact dead.marked era (old era member isDevice) isDevice
  · rw [eras]
    intro era member isDevice other otherMember sameKey
    have inside := old era member isDevice
    exact dead.closed era inside isDevice other
      (stays other otherMember era inside isDevice sameKey.symm) sameKey
  · obtain ⟨era, member, marked, isClosed⟩ := dead.floor
    rw [eras]
    exact ⟨era, mem_closeEras_closed isClosed member, marked, isClosed⟩

/-- Nothing brings the keys of the device back. -/
theorem Dead.step
    (dead : Dead id version log) (step : Step log head event next)
    (careful : log.Careful event) : Dead id version next := by
  cases step with
  | genesis isEmpty root ssk former => exact ⟨dead.gone, dead.marked, dead.closed, dead.floor⟩
  | legacy devices notExposed shrinks => exact ⟨dead.gone, dead.marked, dead.closed, dead.floor⟩
  | rotate ssk => exact dead.closeEras rfl dead.gone
  | rename address genesis op => exact dead.closeEras rfl dead.gone
  | revoke other entry =>
      exact dead.closeEras rfl (Std.ExtTreeSet.mem_insert.2 (.inr dead.gone))
  | add device key keyEq notExposed notRevoked distinct grows =>
      -- The new era is of another device and another key.
      have closed : Dead id version
          { log with
            eras := Identity.closeEras log.eras (some device.cert.deviceId) (log.version + 1)
              false } :=
        dead.closeEras rfl dead.gone
      have otherDevice : device.cert.deviceId ≠ id := by
        rintro rfl
        exact notRevoked dead.gone
      have otherKey : ∀ era ∈ Identity.closeEras log.eras (some device.cert.deviceId)
          (log.version + 1) false, era.deviceId = id -> key ≠ era.key := by
        rintro era member isDevice rfl
        obtain ⟨before, inside, device, key, -⟩ := exists_of_mem_closeEras member
        have unmarked := careful before inside ((congrArg FixedBytes.bytes key).trans keyEq)
        rw [dead.marked before inside (device.trans isDevice)] at unmarked
        cases unmarked
      refine ⟨dead.gone, ?_, ?_, ?_⟩
      · intro era member isDevice
        rcases List.mem_append.1 member with old | isNew
        · exact closed.marked era old isDevice
        · rw [List.mem_singleton.1 isNew] at isDevice
          exact absurd isDevice otherDevice
      · intro era member isDevice other otherMember sameKey
        rcases List.mem_append.1 member with old | isNew
        · rcases List.mem_append.1 otherMember with otherOld | otherNew
          · exact closed.closed era old isDevice other otherOld sameKey
          · rw [List.mem_singleton.1 otherNew] at sameKey
            exact absurd sameKey (otherKey era old isDevice)
        · rw [List.mem_singleton.1 isNew] at isDevice
          exact absurd isDevice otherDevice
      · obtain ⟨era, member, rest⟩ := closed.floor
        exact ⟨era, List.mem_append_left _ member, rest⟩

/-- A careful revocation ends all keys of the device. -/
theorem dead_of_revoked
    (invariant : Invariant log)
    (step : Step log head (.revoked id false) next)
    (careful : log.Careful (.revoked id false)) : Dead id (log.version + 1) next := by
  obtain ⟨own, ownEq, isOpen⟩ := careful
  have only : ∀ era ∈ log.eras, era.deviceId = id -> era = own := by
    intro era member isDevice
    have inside : era ∈ log.eras.filter fun era => era.deviceId == id :=
      List.mem_filter.2 ⟨member, by simpa using isDevice⟩
    rw [ownEq] at inside
    exact List.mem_singleton.1 inside
  obtain ⟨ownMember, ownDevice⟩ : own ∈ log.eras ∧ own.deviceId = id := by
    have inside : own ∈ log.eras.filter fun era => era.deviceId == id := by simp [ownEq]
    simpa using inside
  obtain ⟨device, found, foundKey⟩ :=
    (invariant.openEras id own.key).1 ⟨own, ownMember, isOpen, ownDevice, rfl⟩
  generalize eventEq : Event.revoked id false = event at step
  cases step with
  | revoke other entry =>
      injection eventEq with same left
      subst same
      rw [← left, Bool.not_false]
      have ofDevice : ∀ era ∈ closeEras log.eras (some id) (log.version + 1) true,
          era.deviceId = id ->
          era = { own with «until» := some (log.version + 1), revoked := true } := by
        intro era member isDevice
        rcases mem_closeEras.1 member with ⟨before, inside, -, rfl⟩ | ⟨inside, notClosed⟩
        · rw [only before inside isDevice]
        · rw [only era inside isDevice] at notClosed
          exact absurd ⟨isOpen, by simp [ownDevice]⟩ notClosed
      refine ⟨Std.ExtTreeSet.mem_insert_self, ?_, ?_, ?_⟩
      · intro era member isDevice
        rw [ofDevice era member isDevice]
      · intro era member isDevice other otherMember sameKey
        rw [ofDevice era member isDevice] at sameKey
        rcases mem_closeEras.1 otherMember with ⟨before, inside, -, rfl⟩ | ⟨inside, notClosed⟩
        · exact ⟨_, rfl, le_rfl⟩
        · cases ended : other.until with
          | some last => exact ⟨last, rfl, (invariant.ended other inside last ended).trans (by simp)⟩
          | none =>
              -- Two active devices would share the key.
              obtain ⟨second, secondFound, secondKey⟩ :=
                (invariant.openEras other.deviceId other.key).1 ⟨other, inside, ended, rfl, rfl⟩
              have different : id ≠ other.deviceId := by
                intro same
                exact notClosed ⟨ended, by simpa using same⟩
              refine absurd ?_ (invariant.distinct id other.deviceId device second found secondFound
                different).1
              rw [foundKey, secondKey, sameKey]
      · refine ⟨{ own with «until» := some (log.version + 1), revoked := true }, ?_, rfl, rfl⟩
        exact mem_closeEras.2 (.inl ⟨own, ownMember, ⟨isOpen, by simp [ownDevice]⟩, rfl⟩)
  | _ => cases eventEq

theorem Dead.run
    (dead : Dead id version start)
    (run : Run (AcceptsCarefully library) start events log) : Dead id version log := by
  refine run.invariant ?_ dead
  intro state later label _ accepts dead
  obtain ⟨head, step⟩ := accepts.1.step
  exact dead.step step accepts.2

/-- In a careful run a device that was revoked by another hand is dead. -/
theorem dead_of_careful {before after : List Event}
    (invariant : Invariant start) (isEmpty : start.version = 0)
    (run : Run (AcceptsCarefully library) start (before ++ .revoked id false :: after) log) :
    Dead id (before.length + 1) log := by
  obtain ⟨middle, first, second⟩ := run.exists_of_append
  cases second with
  | cons revocation rest =>
      obtain ⟨head, step⟩ := revocation.1.step
      have version := version_of_run (accepts_of_carefully first)
      rw [isEmpty, Nat.zero_add] at version
      have dead := dead_of_revoked (invariant.run (accepts_of_carefully first)) step revocation.2
      rw [version] at dead
      exact dead.run rest

theorem le_revocationFloor
    (marked : ∃ era ∈ log.eras, era.revoked = true ∧ era.until = some version) :
    version ≤ log.revocationFloor := by
  obtain ⟨era, member, isRevoked, isClosed⟩ := marked
  have inside : version ∈ ((log.eras.filter KeyEra.revoked).map KeyEra.until).reduceOption := by
    rw [List.reduceOption_mem_iff, List.mem_map]
    exact ⟨era, List.mem_filter.2 ⟨member, isRevoked⟩, isClosed⟩
  rw [revocationFloor]
  cases greatest : (((log.eras.filter KeyEra.revoked).map KeyEra.until).reduceOption).max? with
  | none =>
      rw [List.max?_eq_none_iff] at greatest
      rw [greatest] at inside
      cases inside
  | some last => exact (List.max?_eq_some_iff.1 greatest).2 version inside

/-- The device that was revoked at the given version does not sign any more: none of its
keys counts as unrevoked, unless an unrevoked device shares it, and none is in force. -/
def KeysDead (events : List Event) (id : String) (version : Nat) (log : DeviceLog) : Prop :=
  version ≤ log.revocationFloor ∧
    ∀ era ∈ log.eras, era.deviceId = id ->
      (log.keyKnownUnrevoked era.key.bytes = true ->
        ∃ other ∈ log.eras, other.key = era.key ∧ other.deviceId ≠ id ∧
          .revoked other.deviceId false ∉ events) ∧
      ∀ later, version ≤ later -> log.keyActiveAt era.key.bytes later = false

/-- In a run where devices revoked by another hand were certified once and active, and
no certificate brings back a revoked key, the keys of revoked devices stay dead. -/
theorem revoked_keys_dead
    (library : Library)
    (user : String)
    (start log : DeviceLog)
    (before after : List Event)
    (id : String)
    (created : new user = .ok start)
    (run : Run (AcceptsCarefully library) start (before ++ .revoked id false :: after) log) :
    KeysDead (before ++ .revoked id false :: after) id (before.length + 1) log := by
  have isEmpty : start.version = 0 := by
    simp only [new, bind_eq_ok, pure, Except.pure, Except.ok.injEq] at created
    obtain ⟨_, -, rfl⟩ := created
    rfl
  have invariant := invariant_of_new created
  have dead := dead_of_careful invariant isEmpty run
  refine ⟨le_revocationFloor dead.floor, fun era member isDevice => ⟨?_, ?_⟩⟩
  · intro known
    simp only [keyKnownUnrevoked, List.any_eq_true, Bool.and_eq_true, beq_iff_eq,
      Bool.not_eq_true'] at known
    obtain ⟨other, otherMember, sameKey, unmarked⟩ := known
    refine ⟨other, otherMember, FixedBytes.bytes_injective sameKey, ?_, ?_⟩
    · intro same
      rw [dead.marked other otherMember same] at unmarked
      cases unmarked
    · intro revoked
      obtain ⟨earlier, later, eventsEq⟩ := List.append_of_mem revoked
      rw [eventsEq] at run
      rw [(dead_of_careful invariant isEmpty run).marked other otherMember rfl] at unmarked
      cases unmarked
  · intro version reached
    rw [keyActiveAt, List.any_eq_false]
    intro other otherMember inForce
    simp only [Bool.and_eq_true, beq_iff_eq, decide_eq_true_eq] at inForce
    obtain ⟨⟨sameKey, -⟩, notEnded⟩ := inForce
    obtain ⟨last, isLast, early⟩ := dead.closed era member isDevice other otherMember
      (FixedBytes.bytes_injective sameKey)
    simp only [isLast, Option.all_some, decide_eq_true_eq] at notEnded
    omega

/-! ## Samples -/

theorem carefully_cons
    (op : SignedOp) {final : DeviceLog}
    (ran : ((apply library op).exec log).1 = .ok ())
    (eventEq : log.eventOf library op = .ok event) (careful : log.Careful event)
    (rest : Run (AcceptsCarefully library) ((apply library op).exec log).2 events final) :
    Run (AcceptsCarefully library) log (event :: events) final :=
  .cons ⟨⟨op, Prod.ext ran rfl, eventEq⟩, careful⟩ rest

theorem revoked_keys_dead_sample :
    KeysDead [.genesis, .added "d" (sampleKey 3) 1 true, .revoked "d" false] "d" 3
        (replay stolenLibrary stolenOps sampleStart) ∧
      (replay stolenLibrary (stolenOps.take 2) sampleStart).keyKnownUnrevoked (sampleKey 3) =
        true := by
  refine ⟨revoked_keys_dead stolenLibrary "u@a.org" sampleStart _
    [.genesis, .added "d" (sampleKey 3) 1 true] [] "d" new_sampleStart ?_, by decide +kernel⟩
  refine carefully_cons (sampleOp 1 1) (by decide +kernel) (by decide +kernel) (by decide +kernel) ?_
  refine carefully_cons (sampleOp 2 2) (by decide +kernel) (by decide +kernel) (by decide +kernel) ?_
  refine carefully_cons (sampleOp 3 1) (by decide +kernel) (by decide +kernel) (by decide +kernel) ?_
  exact .nil _

/-- The root key revokes a device that was certified twice with the same key. -/
def recertifiedLibrary : Library :=
  sampleLibrary
    [sampleGenesis, sampleEntry 2 (sampleAdd 0), sampleEntry 3 (sampleAdd 1),
      sampleEntry 4 (.revokeDeviceId "d")]
    [sampleCert "d" 3 1, sampleCert "d" 3 2]

def recertifiedOps : List SignedOp := [sampleOp 1 1, sampleOp 2 2, sampleOp 3 2, sampleOp 4 1]

/-- The root key reports a device that had left by itself. -/
def leftLibrary : Library :=
  sampleLibrary
    [sampleGenesis, sampleEntry 2 (sampleAdd 0), sampleEntry 3 (.revokeDeviceId "d"),
      sampleEntry 4 (.revokeDeviceId "d")]
    [sampleCert "d" 3 1]

def leftOps : List SignedOp := [sampleOp 1 1, sampleOp 2 2, sampleOp 3 3, sampleOp 4 1]

/-- In both cases the key goes on to count as unrevoked, and in the second the floor is
not raised. -/
theorem revoked_key_survives :
    (∃ before,
      eventsOf recertifiedLibrary recertifiedOps sampleStart =
          some (before ++ [.revoked "d" false]) ∧
        ¬ KeysDead (before ++ [.revoked "d" false]) "d" 4
          (replay recertifiedLibrary recertifiedOps sampleStart)) ∧
      ∃ before,
        eventsOf leftLibrary leftOps sampleStart = some (before ++ [.revoked "d" false]) ∧
          ¬ 4 ≤ (replay leftLibrary leftOps sampleStart).revocationFloor ∧
          (replay leftLibrary leftOps sampleStart).keyKnownUnrevoked (sampleKey 3) = true := by
  refine ⟨⟨[.genesis, .added "d" (sampleKey 3) 1 true, .added "d" (sampleKey 3) 2 true],
    by decide +kernel, ?_⟩, ⟨[.genesis, .added "d" (sampleKey 3) 1 true, .revoked "d" true],
    by decide +kernel, by decide +kernel, by decide +kernel⟩⟩
  rintro ⟨-, dead⟩
  have only : ∀ era ∈ (replay recertifiedLibrary recertifiedOps sampleStart).eras,
      era.deviceId = "d" ∧ era.key.bytes = sampleKey 3 := by
    decide +kernel
  have known : (replay recertifiedLibrary recertifiedOps sampleStart).keyKnownUnrevoked
      (sampleKey 3) = true := by
    decide +kernel
  obtain ⟨era, member⟩ := List.exists_mem_of_ne_nil
    (replay recertifiedLibrary recertifiedOps sampleStart).eras (by decide +kernel)
  rw [← (only era member).2] at known
  obtain ⟨other, otherMember, -, different, -⟩ := (dead era member (only era member).1).1 known
  exact different (only other otherMember).1

end Parvane.Identity.DeviceLog
