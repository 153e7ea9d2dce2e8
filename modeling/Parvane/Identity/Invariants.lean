import Parvane.Identity.Steps

/-!
# What the device log keeps

Open key eras are those of the active devices, revoked devices do not come back, and a
self-signing key that was exposed does not certify anything.
-/

namespace Parvane.Identity.DeviceLog

open Wire Sign

/-- An entry is accepted. -/
def Accepts (library : Library) (log : DeviceLog) (event : Event) (next : DeviceLog) : Prop :=
  ∃ op, (apply library op).exec log = (.ok (), next) ∧ log.eventOf library op = .ok event

variable {library : Library} {log next : DeviceLog} {event : Event} {head : Hash}

theorem Accepts.step (accepts : Accepts library log event next) :
    ∃ head, Step log head event next := by
  obtain ⟨op, ran, eventEq⟩ := accepts
  have goodAddress : ¬ log.BadFormerAddress library op := by
    intro bad
    obtain ⟨error, _, refused, -⟩ := bad.exec_apply
    rw [refused] at ran
    cases ran
  have goodHash : ¬ log.BadGenesisHash library op := by
    intro bad
    obtain ⟨error, _, refused, -⟩ := bad.exec_apply
    rw [refused] at ran
    cases ran
  obtain ⟨_, refused⟩ | ⟨_, later, accepted, found, foundEq, step⟩ :=
    (apply_atomic goodAddress goodHash).cases
  · rw [refused] at ran
    cases ran
  · rw [accepted] at ran
    cases ran
    rw [foundEq] at eventEq
    cases eventEq
    exact ⟨_, step⟩

/-! ## Closing eras -/

/-- The era is open and of the device, if one is given. -/
def Closes (deviceId : Option String) (era : KeyEra) : Prop :=
  era.until = none ∧ ∀ device ∈ deviceId, device = era.deviceId

theorem closes_iff {deviceId : Option String} {era : KeyEra} :
    (era.until.isNone && deviceId.all fun device => device == era.deviceId) = true ↔
      Closes deviceId era := by
  cases deviceId <;> simp [Closes]

variable {deviceId : Option String} {eras : List KeyEra} {version : Nat}

theorem mem_closeEras {revoked : Bool} {era : KeyEra} :
    era ∈ closeEras eras deviceId version revoked ↔
      (∃ before ∈ eras, Closes deviceId before ∧
        era = { before with «until» := some version, revoked := revoked }) ∨
      era ∈ eras ∧ ¬ Closes deviceId era := by
  rw [closeEras, List.mem_map]
  constructor
  · rintro ⟨before, member, rfl⟩
    split
    · next isClosed => exact .inl ⟨before, member, closes_iff.1 isClosed, rfl⟩
    · next isOpen => exact .inr ⟨member, mt closes_iff.2 isOpen⟩
  · rintro (⟨before, member, isClosed, rfl⟩ | ⟨member, isOpen⟩)
    · exact ⟨before, member, if_pos (closes_iff.2 isClosed)⟩
    · exact ⟨era, member, if_neg (mt closes_iff.1 isOpen)⟩

theorem mem_closeEras_open {revoked : Bool} {era : KeyEra}
    (isOpen : era.until = none) :
    era ∈ closeEras eras deviceId version revoked ↔
      era ∈ eras ∧ ∃ device ∈ deviceId, device ≠ era.deviceId := by
  rw [mem_closeEras]
  constructor
  · rintro (⟨before, -, -, rfl⟩ | ⟨member, notClosed⟩)
    · cases isOpen
    · refine ⟨member, ?_⟩
      by_contra none
      push Not at none
      exact notClosed ⟨isOpen, none⟩
  · rintro ⟨member, device, isDevice, different⟩
    exact .inr ⟨member, fun closes => different (closes.2 device isDevice)⟩

/-- The devices of the open eras. -/
def openDevices (eras : List KeyEra) : List String :=
  (eras.filter fun era => era.until.isNone).map KeyEra.deviceId

theorem openDevices_cons (era : KeyEra) (eras : List KeyEra) :
    openDevices (era :: eras) =
      if era.until.isNone then era.deviceId :: openDevices eras else openDevices eras := by
  rw [openDevices, List.filter_cons]
  split <;> rfl

theorem openDevices_append (first second : List KeyEra) :
    openDevices (first ++ second) = openDevices first ++ openDevices second := by
  simp [openDevices]

theorem mem_openDevices {eras : List KeyEra} {id : String} :
    id ∈ openDevices eras ↔ ∃ era ∈ eras, era.until = none ∧ era.deviceId = id := by
  simp [openDevices, and_assoc]

theorem openDevices_closeEras_sublist
    (eras : List KeyEra) (deviceId : Option String) (version : Nat) (revoked : Bool) :
    (openDevices (closeEras eras deviceId version revoked)).Sublist (openDevices eras) := by
  induction eras with
  | nil => exact List.Sublist.refl _
  | cons era eras inductionHypothesis =>
      have cons : closeEras (era :: eras) deviceId version revoked =
          (if era.until.isNone && deviceId.all (fun device => device == era.deviceId) then
            { era with «until» := some version, revoked := revoked }
          else era) :: closeEras eras deviceId version revoked := rfl
      rw [cons, openDevices_cons, openDevices_cons]
      split
      · next isClosed =>
          rw [Bool.and_eq_true] at isClosed
          rw [if_neg (by simp), if_pos isClosed.1]
          exact inductionHypothesis.cons _
      · split
        · exact inductionHypothesis.cons_cons _
        · exact inductionHypothesis

/-! ## The invariant -/

/-- What holds of a device log at any time. -/
structure Invariant (log : DeviceLog) : Prop where
  openEras : ∀ (id : String) (key : Hash),
    (∃ era ∈ log.eras, era.until = none ∧ era.deviceId = id ∧ era.key = key) ↔
      ∃ device, log.devices[id]? = some device ∧ device.cert.olmEd25519 = key.bytes
  oneEra : (openDevices log.eras).Nodup
  begins : ∀ era ∈ log.eras, era.from ≤ log.version
  ends : ∀ era ∈ log.eras, ∀ last ∈ era.until, era.from < last
  ended : ∀ era ∈ log.eras, ∀ last ∈ era.until, last ≤ log.version
  distinct : ∀ (first second : String) (left right : VerifiedDevice),
    log.devices[first]? = some left ->
    log.devices[second]? = some right -> first ≠ second ->
    left.cert.olmEd25519 ≠ right.cert.olmEd25519 ∧
      left.cert.olmCurve25519 ≠ right.cert.olmCurve25519
  revoked : ∀ id ∈ log.revoked, log.devices[id]? = none

theorem begins_closeEras {version bound : Nat} {revoked : Bool}
    (begins : ∀ era ∈ eras, era.from ≤ bound) :
    ∀ era ∈ closeEras eras deviceId version revoked, era.from ≤ bound := by
  intro era member
  rcases mem_closeEras.1 member with ⟨before, inside, -, rfl⟩ | ⟨inside, -⟩
  · exact begins before inside
  · exact begins era inside

theorem ends_closeEras {revoked : Bool}
    (begins : ∀ era ∈ eras, era.from ≤ version)
    (ends : ∀ era ∈ eras, ∀ last ∈ era.until, era.from < last) :
    ∀ era ∈ closeEras eras deviceId (version + 1) revoked, ∀ last ∈ era.until,
      era.from < last := by
  intro era member last isLast
  rcases mem_closeEras.1 member with ⟨before, inside, -, rfl⟩ | ⟨inside, -⟩
  · cases isLast
    exact Nat.lt_succ_of_le (begins before inside)
  · exact ends era inside last isLast

theorem ended_closeEras {revoked : Bool}
    (ended : ∀ era ∈ eras, ∀ last ∈ era.until, last ≤ version) :
    ∀ era ∈ closeEras eras deviceId (version + 1) revoked, ∀ last ∈ era.until,
      last ≤ version + 1 := by
  intro era member last isLast
  rcases mem_closeEras.1 member with ⟨before, inside, -, rfl⟩ | ⟨inside, -⟩
  · cases isLast
    exact le_rfl
  · exact (ended era inside last isLast).trans (Nat.le_succ _)

/-- With all eras closed and no device left, the invariant holds. -/
theorem Invariant.closeAll
    (invariant : Invariant log) {after : DeviceLog}
    (eras : after.eras = closeEras log.eras none (log.version + 1) false)
    (devices : after.devices = ∅)
    (version : after.version = log.version + 1) : Invariant after := by
  refine ⟨?_, ?_, ?_, ?_, ?_, ?_, ?_⟩
  · intro id key
    rw [eras, devices]
    constructor
    · rintro ⟨era, member, isOpen, -⟩
      obtain ⟨-, device, isDevice, -⟩ := (mem_closeEras_open isOpen).1 member
      cases isDevice
    · rintro ⟨device, found, -⟩
      simp at found
  · rw [eras]
    exact invariant.oneEra.sublist (openDevices_closeEras_sublist _ _ _ _)
  · rw [eras, version]
    exact begins_closeEras fun era member => (invariant.begins era member).trans (Nat.le_succ _)
  · rw [eras]
    exact ends_closeEras invariant.begins invariant.ends
  · rw [eras, version]
    exact ended_closeEras invariant.ended
  · simp [devices]
  · simp [devices]

theorem Invariant.genesis
    (invariant : Invariant log) {after : DeviceLog} (eras : after.eras = log.eras)
    (devices : after.devices = log.devices) (revoked : after.revoked = log.revoked)
    (version : after.version = log.version + 1) : Invariant after := by
  refine ⟨?_, ?_, ?_, ?_, ?_, ?_, ?_⟩
  · rw [eras, devices]
    exact invariant.openEras
  · rw [eras]
    exact invariant.oneEra
  · rw [eras, version]
    exact fun era member => (invariant.begins era member).trans (Nat.le_succ _)
  · rw [eras]
    exact invariant.ends
  · rw [eras, version]
    exact fun era member last isLast =>
      (invariant.ended era member last isLast).trans (Nat.le_succ _)
  · rw [devices]
    exact invariant.distinct
  · rw [revoked, devices]
    exact invariant.revoked

/-- The open eras of the other devices stay. -/
theorem Invariant.openEras_of_ne
    (invariant : Invariant log) {id other : String} (different : id ≠ other)
    {revoked : Bool} {key : Hash} :
    (∃ era ∈ closeEras log.eras (some id) version revoked,
        era.until = none ∧ era.deviceId = other ∧ era.key = key) ↔
      ∃ device, log.devices[other]? = some device ∧ device.cert.olmEd25519 = key.bytes := by
  rw [← invariant.openEras]
  constructor
  · rintro ⟨era, member, isOpen, rest⟩
    exact ⟨era, ((mem_closeEras_open isOpen).1 member).1, isOpen, rest⟩
  · rintro ⟨era, member, isOpen, rfl, keyEq⟩
    exact ⟨era, (mem_closeEras_open isOpen).2 ⟨member, id, rfl, different⟩, isOpen, rfl, keyEq⟩

theorem not_mem_openDevices_closeEras
    (eras : List KeyEra) (id : String) (version : Nat) (revoked : Bool) :
    id ∉ openDevices (closeEras eras (some id) version revoked) := by
  intro member
  obtain ⟨era, inside, isOpen, isDevice⟩ := mem_openDevices.1 member
  obtain ⟨-, device, same, different⟩ := (mem_closeEras_open isOpen).1 inside
  cases same
  exact different isDevice.symm

/-- An accepted entry keeps the invariant. -/
theorem Step.invariant (step : Step log head event next) (invariant : Invariant log) :
    Invariant next := by
  cases step with
  | genesis isEmpty root ssk former => exact invariant.genesis rfl rfl rfl rfl
  | rotate ssk => exact invariant.closeAll rfl rfl rfl
  | rename address genesis op => exact invariant.closeAll rfl rfl rfl
  | legacy devices notExposed shrinks => exact invariant.genesis rfl rfl rfl rfl
  | revoke id entry =>
      refine ⟨?_, ?_, ?_, ?_, ?_, ?_, ?_⟩
      · intro other key
        by_cases same : id = other
        · subst same
          constructor
          · rintro ⟨era, member, isOpen, isDevice, -⟩
            exact absurd (mem_openDevices.2 ⟨era, member, isOpen, isDevice⟩)
              (not_mem_openDevices_closeEras _ _ _ _)
          · rintro ⟨device, found, -⟩
            simp at found
        · have kept : (log.devices.erase id)[other]? = log.devices[other]? := by
            rw [Std.ExtTreeMap.getElem?_erase, if_neg (by simpa using same)]
          rw [kept]
          exact invariant.openEras_of_ne same
      · exact invariant.oneEra.sublist (openDevices_closeEras_sublist _ _ _ _)
      · exact begins_closeEras fun era member => (invariant.begins era member).trans (Nat.le_succ _)
      · exact ends_closeEras invariant.begins invariant.ends
      · exact ended_closeEras invariant.ended
      · intro first second left right firstFound secondFound
        simp only [Std.ExtTreeMap.getElem?_erase] at firstFound secondFound
        split at firstFound
        · cases firstFound
        · split at secondFound
          · cases secondFound
          · exact invariant.distinct first second left right firstFound secondFound
      · intro other member
        rw [Std.ExtTreeSet.mem_insert, compare_eq_iff_eq] at member
        rw [Std.ExtTreeMap.getElem?_erase]
        rcases member with rfl | member
        · simp
        · rw [invariant.revoked other member, ite_self]
  | add device key keyEq notExposed notRevoked distinct grows =>
      refine ⟨?_, ?_, ?_, ?_, ?_, ?_, ?_⟩
      · intro other otherKey
        simp only [List.mem_append, List.mem_singleton, or_and_right, exists_or, exists_eq_left,
          Std.ExtTreeMap.getElem?_insert, compare_eq_iff_eq]
        by_cases same : device.cert.deviceId = other
        · rw [if_pos same]
          constructor
          · rintro (⟨era, member, isOpen, isDevice, -⟩ | ⟨-, -, rfl⟩)
            · exact absurd (mem_openDevices.2 ⟨era, member, isOpen, isDevice.trans same.symm⟩)
                (not_mem_openDevices_closeEras _ _ _ _)
            · exact ⟨device, rfl, keyEq.symm⟩
          · rintro ⟨found, foundEq, foundKey⟩
            cases foundEq
            exact .inr ⟨trivial, same, FixedBytes.bytes_injective (keyEq.trans foundKey)⟩
        · simp only [same, if_false, false_and, and_false, or_false]
          exact invariant.openEras_of_ne same
      · rw [openDevices_append]
        refine List.nodup_append.2
          ⟨invariant.oneEra.sublist (openDevices_closeEras_sublist _ _ _ _), by simp [openDevices],
            ?_⟩
        rintro other member _ isNew rfl
        simp only [openDevices, List.filter_cons, Option.isNone_none, if_true, List.filter_nil,
          List.map_cons, List.map_nil, List.mem_singleton] at isNew
        rw [isNew] at member
        exact not_mem_openDevices_closeEras _ _ _ _ member
      · intro era member
        rcases List.mem_append.1 member with old | isNew
        · exact (begins_closeEras invariant.begins era old).trans (Nat.le_succ _)
        · rw [List.mem_singleton.1 isNew]
      · intro era member
        rcases List.mem_append.1 member with old | isNew
        · exact ends_closeEras invariant.begins invariant.ends era old
        · rw [List.mem_singleton.1 isNew]
          simp
      · intro era member
        rcases List.mem_append.1 member with old | isNew
        · exact ended_closeEras invariant.ended era old
        · rw [List.mem_singleton.1 isNew]
          simp
      · intro first second left right firstFound secondFound different
        simp only [Std.ExtTreeMap.getElem?_insert, compare_eq_iff_eq] at firstFound secondFound
        split at firstFound
        · next isFirst =>
            cases firstFound
            rw [if_neg (isFirst ▸ different)] at secondFound
            obtain ⟨signing, olm⟩ :=
              distinct second right secondFound (isFirst ▸ Ne.symm different)
            exact ⟨signing.symm, olm.symm⟩
        · split at secondFound
          · next isSecond =>
              cases secondFound
              exact distinct first left firstFound (isSecond ▸ different)
          · exact invariant.distinct first second left right firstFound secondFound different
      · intro other member
        rw [Std.ExtTreeMap.getElem?_insert, if_neg ?_]
        · exact invariant.revoked other member
        · rw [compare_eq_iff_eq]
          rintro rfl
          exact notRevoked member

theorem invariant_of_new {user : String} (created : new user = .ok log) : Invariant log := by
  simp only [new, bind_eq_ok, pure, Except.pure, Except.ok.injEq] at created
  obtain ⟨_, -, rfl⟩ := created
  refine ⟨?_, List.nodup_nil, ?_, ?_, ?_, ?_, ?_⟩ <;> simp

/-! ## Whole runs -/

section

variable {events : List Event} {final : DeviceLog}

/-- Whatever every step keeps, every run keeps. -/
theorem run_invariant
    (holds : DeviceLog -> Prop)
    (run : Run (Accepts library) log events final)
    (keeps : ∀ log next head, ∀ event ∈ events, Step log head event next -> holds log ->
      holds next)
    (initially : holds log) : holds final := by
  refine run.invariant ?_ initially
  intro state later label member accepts
  obtain ⟨head, step⟩ := accepts.step
  exact keeps state later head label member step

theorem Invariant.run
    (invariant : Invariant log)
    (run : Run (Accepts library) log events final) : Invariant final :=
  run_invariant Invariant run (fun _ _ _ _ _ step => step.invariant) invariant

theorem mem_revoked_of_run {id : String}
    (isRevoked : id ∈ log.revoked)
    (run : Run (Accepts library) log events final) : id ∈ final.revoked := by
  refine run_invariant (fun log => id ∈ log.revoked) run ?_ isRevoked
  intro log next head event _ step isRevoked
  cases step with
  | revoke other entry => exact Std.ExtTreeSet.mem_insert.2 (.inr isRevoked)
  | _ => exact isRevoked

/-- The list of older devices does not gain an element. -/
theorem legacy_shrinks {current : List LegacyDevice}
    (published : log.legacy = some current)
    (run : Run (Accepts library) log events final) :
    ∃ devices, final.legacy = some devices ∧ ∀ device ∈ devices, device ∈ current := by
  refine run_invariant
    (fun log => ∃ devices, log.legacy = some devices ∧ ∀ device ∈ devices, device ∈ current)
    run ?_ ⟨current, published, fun _ => id⟩
  rintro log next head event - step ⟨devices, isList, subset⟩
  cases step with
  | legacy shorter notExposed shrinks =>
      exact ⟨shorter, rfl, fun device member =>
        subset device (shrinks devices isList device member)⟩
  | revoke id entry =>
      refine ⟨devices.filter fun device => device.deviceId != id, by simp [isList], ?_⟩
      exact fun device member => subset device (List.mem_of_mem_filter member)
  | _ => exact ⟨devices, isList, subset⟩

/-- The devices that were certified, with the serial numbers. -/
def addedOf (events : List Event) : List (String × UInt64) :=
  events.filterMap fun event =>
    match event with
    | .added id _ serial _ => some (id, serial)
    | _ => none

/-- The serial numbers of a device grow. -/
theorem serials_grow (run : Run (Accepts library) log events final) :
    (∀ added ∈ addedOf events, ∀ serial, log.maxSerial[added.1]? = some serial ->
        serial < added.2) ∧
      (addedOf events).Pairwise fun first second => first.1 = second.1 -> first.2 < second.2 := by
  induction run with
  | nil log => simp [addedOf]
  | @cons log next final event events first rest inductionHypothesis =>
      obtain ⟨later, pairwise⟩ := inductionHypothesis
      obtain ⟨head, step⟩ := first.step
      cases step with
      | add device key keyEq notExposed notRevoked distinct grows =>
          have cons : addedOf (.added device.cert.deviceId device.cert.olmEd25519
              device.cert.serial (holdsSsk device.cert) :: events) =
              (device.cert.deviceId, device.cert.serial) :: addedOf events := rfl
          have own : ∀ added ∈ addedOf events, device.cert.deviceId = added.1 ->
              device.cert.serial < added.2 := by
            intro added member same
            refine later added member device.cert.serial ?_
            rw [← same]
            exact Std.ExtTreeMap.getElem?_insert_self
          rw [cons]
          refine ⟨?_, List.pairwise_cons.2 ⟨own, pairwise⟩⟩
          intro added member serial found
          rcases List.mem_cons.1 member with rfl | member
          · exact grows serial found
          · by_cases same : device.cert.deviceId = added.1
            · rw [← same] at found
              exact (grows serial found).trans (own added member same)
            · refine later added member serial ?_
              rw [Std.ExtTreeMap.getElem?_insert, if_neg (by simpa using same)]
              exact found
      | _ => exact ⟨later, pairwise⟩

/-- The self-signing key vouches for devices in the entry. -/
def Event.certifies : Event -> Bool
  | .added .. | .legacy => true
  | _ => false

/-- An exposed self-signing key certifies nothing until it is changed. -/
theorem exposed_run
    (exposed : log.sskExposed = true)
    (run : Run (Accepts library) log events final)
    (notRotated : .rotated ∉ events) : ∀ event ∈ events, event.certifies = false := by
  induction run with
  | nil log => simp
  | @cons log next final event events first rest inductionHypothesis =>
      rw [List.mem_cons, not_or] at notRotated
      have allowed : next.sskExposed = true ∧ event.certifies = false := by
        obtain ⟨head, step⟩ := first.step
        cases step with
        | rotate ssk => exact absurd rfl notRotated.1
        | add device key keyEq notExposed notRevoked distinct grows =>
            rw [exposed] at notExposed
            cases notExposed
        | legacy devices notExposed shrinks =>
            rw [exposed] at notExposed
            cases notExposed
        | revoke id entry => simp [exposed, Event.certifies]
        | genesis isEmpty root ssk former => exact ⟨exposed, rfl⟩
        | rename address genesis op => exact ⟨exposed, rfl⟩
      intro other member
      rcases List.mem_cons.1 member with rfl | member
      · exact allowed.2
      · exact inductionHypothesis allowed.1 notRotated.2 other member

theorem mem_sskHolders_of_run {id : String}
    (holds : id ∈ log.sskHolders)
    (run : Run (Accepts library) log events final)
    (notRotated : .rotated ∉ events) : id ∈ final.sskHolders := by
  refine run_invariant (fun log => id ∈ log.sskHolders) run ?_ holds
  intro log next head event member step holds
  cases step with
  | rotate ssk => exact absurd member notRotated
  | add device key keyEq notExposed notRevoked distinct grows =>
      dsimp only
      split
      · exact Std.ExtTreeSet.mem_insert.2 (.inr holds)
      · exact holds
  | _ => exact holds

/-- Once a holder of the self-signing key was revoked by another hand, the key certifies
nothing until it is changed. -/
theorem revoked_holder_exposes
    {before middle after : List Event} {id : String} {key : Bytes} {serial : UInt64}
    (run : Run (Accepts library) log
      (before ++ .added id key serial true :: middle ++ .revoked id false :: after) final)
    (middleNotRotated : .rotated ∉ middle) (afterNotRotated : .rotated ∉ after) :
    ∀ event ∈ after, event.certifies = false := by
  obtain ⟨atRevocation, first, second⟩ := run.exists_of_append
  obtain ⟨atAddition, -, first⟩ := first.exists_of_append
  cases first with
  | @cons _ added _ _ _ addition kept =>
      cases second with
      | @cons _ revoked _ _ _ revocation rest =>
          have holds : id ∈ added.sskHolders := by
            obtain ⟨head, step⟩ := addition.step
            generalize eventEq : Event.added id key serial true = event at step
            cases step with
            | add device signingKey isKey notExposed notRevoked distinct grows =>
                injection eventEq with idEq keyEq serialEq holdsEq
                subst idEq
                dsimp only
                rw [← holdsEq, if_pos rfl]
                exact Std.ExtTreeSet.mem_insert_self
            | _ => cases eventEq
          have stillHolds := mem_sskHolders_of_run holds kept middleNotRotated
          have exposed : revoked.sskExposed = true := by
            obtain ⟨head, step⟩ := revocation.step
            generalize eventEq : Event.revoked id false = event at step
            cases step with
            | revoke other entry =>
                injection eventEq with same left
                subst same
                simp [held, ← left, stillHolds]
            | _ => cases eventEq
          exact exposed_run exposed rest afterNotRotated

/-- Only the root key changes the self-signing key. -/
theorem Accepts.rotated_by_root (accepts : Accepts library log .rotated next) :
    ∃ op entry, log.readEntry library op = .ok entry ∧ entry.signer = log.rootKey := by
  obtain ⟨op, ran, eventEq⟩ := accepts
  simp only [eventOf, bind_eq_ok] at eventEq
  obtain ⟨entry, read, eventEq⟩ := eventEq
  refine ⟨op, entry, read, ?_⟩
  by_cases isEmpty : log.version = 0
  · rw [if_pos isEmpty] at eventEq
    cases eventEq
  rw [if_neg isEmpty] at eventEq
  by_contra other
  have refused : (entry.signer == log.rootKey) = false := by simpa using other
  cases changeEq : entry.change with
  | rotateSelfSigningKey rotate =>
      simp only [apply, applyRotate, Update.exec_bind, Update.exec_get, Update.exec_liftM, read,
        if_neg isEmpty, changeEq] at ran
      cases sameRoot : require
        (entry.entry.rootKey.isEmpty || entry.entry.rootKey == log.rootKey.bytes) .rootMismatch with
      | error error =>
          simp only [sameRoot] at ran
          cases ran
      | ok value =>
          simp only [sameRoot] at ran
          simp only [refused, require, Bool.false_eq_true, if_false] at ran
          cases ran
  | addDevice signed =>
      simp only [changeEvent, changeEq, bind_eq_ok] at eventEq
      obtain ⟨device, -, eventEq⟩ := eventEq
      cases eventEq
  | _ =>
      rw [changeEvent, changeEq] at eventEq
      cases eventEq

theorem Invariant.active_eq (invariant : Invariant log) (id : String) :
    log.active id = log.devices[id]? := by
  rw [active]
  split
  · next isRevoked => exact (invariant.revoked id (Std.ExtTreeSet.contains_iff_mem.1 isRevoked)).symm
  · rfl

theorem mem_revoked_of_event {id : String} {left : Bool}
    (run : Run (Accepts library) log events final)
    (revoked : .revoked id left ∈ events) : id ∈ final.revoked := by
  obtain ⟨before, after, rfl⟩ := List.append_of_mem revoked
  obtain ⟨middle, -, second⟩ := run.exists_of_append
  cases second with
  | @cons _ later _ _ _ revocation rest =>
      refine mem_revoked_of_run ?_ rest
      obtain ⟨head, step⟩ := revocation.step
      generalize eventEq : Event.revoked id left = event at step
      cases step with
      | revoke other entry =>
          injection eventEq with same
          subst same
          exact Std.ExtTreeSet.mem_insert_self
      | _ => cases eventEq

end

/-- What the device log promises, in every run from the empty log. -/
theorem log_secure
    (library : Library)
    (user : String)
    (start log : DeviceLog)
    (events : List Event)
    (created : new user = .ok start)
    (run : Run (Accepts library) start events log) :
    -- Each active device has one open era, with its signing key, and there is no other.
    (∀ id key, (∃ era ∈ log.eras, era.until = none ∧ era.deviceId = id ∧ era.key = key) ↔
        ∃ device, log.active id = some device ∧ device.cert.olmEd25519 = key.bytes) ∧
      (openDevices log.eras).Nodup ∧
      (∀ era ∈ log.eras, ∀ last, era.until = some last -> era.from < last) ∧
      -- Active devices do not share keys.
      (∀ first second left right, log.active first = some left -> log.active second = some right ->
        first ≠ second -> left.cert.olmEd25519 ≠ right.cert.olmEd25519 ∧
          left.cert.olmCurve25519 ≠ right.cert.olmCurve25519) ∧
      (∀ id left, .revoked id left ∈ events -> log.active id = none) ∧
      (addedOf events).Pairwise (fun first second => first.1 = second.1 -> first.2 < second.2) ∧
      -- A holder of the current self-signing key was revoked by another hand.
      (∀ before middle after rest id key serial,
        events = before ++ .added id key serial true :: middle ++ .revoked id false :: after ++
          rest ->
        .rotated ∉ middle -> .rotated ∉ after -> ∀ event ∈ after, event.certifies = false) ∧
      (∀ before after, events = before ++ .rotated :: after ->
        ∃ middle op entry, Run (Accepts library) start before middle ∧
          middle.readEntry library op = .ok entry ∧ entry.signer = middle.rootKey) ∧
      -- The published list of older devices only shrinks.
      (∀ middle after current, Run (Accepts library) middle after log ->
        middle.legacy = some current ->
        ∃ devices, log.legacy = some devices ∧ ∀ device ∈ devices, device ∈ current) := by
  have invariant := (invariant_of_new created).run run
  refine ⟨?_, invariant.oneEra, invariant.ends, ?_, ?_, (serials_grow run).2, ?_, ?_, ?_⟩
  · intro id key
    rw [invariant.active_eq]
    exact invariant.openEras id key
  · intro first second left right firstFound secondFound
    rw [invariant.active_eq] at firstFound secondFound
    exact invariant.distinct first second left right firstFound secondFound
  · intro id left revoked
    rw [invariant.active_eq]
    exact invariant.revoked id (mem_revoked_of_event run revoked)
  · rintro before middle after rest id key serial rfl middleNotRotated afterNotRotated
    obtain ⟨_, first, -⟩ := run.exists_of_append
    exact revoked_holder_exposes first middleNotRotated afterNotRotated
  · rintro before after rfl
    obtain ⟨middle, first, second⟩ := run.exists_of_append
    cases second with
    | cons rotation rest =>
        obtain ⟨op, entry, read, signer⟩ := rotation.rotated_by_root
        exact ⟨middle, op, entry, first, read, signer⟩
  · intro middle after current later published
    exact legacy_shrinks published later

/-! ## A sample -/

/-- What the entries were, if all of them are accepted. -/
def eventsOf (library : Library) : List SignedOp -> DeviceLog -> Option (List Event)
  | [], _ => some []
  | op :: ops, log =>
      match ((apply library op).exec log).1, log.eventOf library op with
      | .ok (), .ok event =>
          (eventsOf library ops ((apply library op).exec log).2).map (event :: ·)
      | _, _ => none

theorem run_replay {library : Library} {ops : List SignedOp} {log : DeviceLog} {events : List Event}
    (accepted : eventsOf library ops log = some events) :
    Run (Accepts library) log events (replay library ops log) := by
  induction ops generalizing log events with
  | nil =>
      cases accepted
      exact .nil log
  | cons op ops inductionHypothesis =>
      rw [eventsOf] at accepted
      split at accepted
      · next event ran eventEq =>
          obtain ⟨later, laterEq, rfl⟩ := Option.map_eq_some_iff.1 accepted
          exact .cons ⟨op, Prod.ext ran rfl, eventEq⟩ (inductionHypothesis laterEq)
      · cases accepted

/-- A certificate of the sample user for a device with the given signing key. -/
def sampleCert (deviceId : String) (key : UInt8) (serial : UInt64) : DeviceCertificate where
  user := some ⟨"u@a.org"⟩
  deviceId := deviceId
  olmCurve25519 := sampleKey key
  olmEd25519 := sampleKey key
  hpkeX25519 := sampleKey key
  features := []
  serial := serial
  possessionSignature := List.replicate 64 0

/-- A device gets the certificate of the given number. -/
def sampleAdd (number : UInt8) : Change :=
  .addDevice ⟨[number], List.replicate 64 0, sampleKey 2, List.replicate 64 0, sampleKey 1⟩

theorem new_sampleStart : new "u@a.org" = .ok sampleStart := by
  have valid : isValidAddress "u@a.org" = true := by decide +kernel
  simp only [new, require, valid, if_true]
  rfl

/-- A device is added and then revoked by the root key. -/
def stolenLibrary : Library :=
  sampleLibrary
    [sampleGenesis, sampleEntry 2 (sampleAdd 0), sampleEntry 3 (.revokeDeviceId "d")]
    [sampleCert "d" 3 1]

def stolenOps : List SignedOp := [sampleOp 1 1, sampleOp 2 2, sampleOp 3 1]

theorem eventsOf_stolen :
    eventsOf stolenLibrary stolenOps sampleStart =
      some [.genesis, .added "d" (sampleKey 3) 1 true, .revoked "d" false] := by
  decide +kernel

theorem log_secure_sample :
    (replay stolenLibrary stolenOps sampleStart).active "d" = none ∧
      (replay stolenLibrary (stolenOps.take 2) sampleStart).active "d" ≠ none :=
  ⟨(log_secure stolenLibrary "u@a.org" sampleStart _ _ new_sampleStart
      (run_replay eventsOf_stolen)).2.2.2.2.1 "d" false (by decide), by decide +kernel⟩

end Parvane.Identity.DeviceLog
