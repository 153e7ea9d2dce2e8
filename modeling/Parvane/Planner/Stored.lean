import Parvane.Planner.Records

/-!
# Objects that are kept

What a planner keeps under a name has come together from many changes.  Each of them passed
its check; the whole passes it too, but for the counts of its parts and for records that
nothing but their name is known of.
-/

namespace Parvane.Planner

open Wire Domain Convergence

/-- Stamps that a change may carry. -/
def AllValid (stamps : List LwwStamp) : Prop :=
  ∀ stamp ∈ stamps, IsValidStamp stamp

theorem allValid_append (first second : List LwwStamp) :
    AllValid (first ++ second) ↔ AllValid first ∧ AllValid second :=
  List.forall_mem_append

theorem allValid_nil : AllValid [] :=
  fun _ member => absurd member List.not_mem_nil

/-- How the objects of one kind are kept: their name, how one is put into the slot of its
name, their stamps and their check. -/
structure Shelf (α : Type) where
  name : α -> String
  put : Option α -> α -> α
  stamps : α -> List LwwStamp
  check : α -> Result Unit
  /-- The part of the check that may fail for what is kept. -/
  fits : α -> Bool
  /-- What holds of everything that is kept. -/
  Sound : α -> Prop

namespace Shelf

/-- What is kept stays sound, is put back as it is, and passes its check if it fits. -/
structure Lawful (shelf : Shelf α) : Prop where
  name_put : ∀ slot incoming,
    (∀ current ∈ slot, shelf.name current = shelf.name incoming) ->
      shelf.name (shelf.put slot incoming) = shelf.name incoming
  stamps_put : ∀ slot incoming,
    (∀ current ∈ slot, shelf.name current = shelf.name incoming) ->
      (∀ current ∈ slot, AllValid (shelf.stamps current)) -> AllValid (shelf.stamps incoming) ->
        AllValid (shelf.stamps (shelf.put slot incoming))
  sound_put : ∀ slot incoming,
    (∀ current ∈ slot, shelf.Sound current ∧ shelf.name current = shelf.name incoming) ->
      shelf.check incoming = .ok () -> shelf.Sound (shelf.put slot incoming)
  put_none : ∀ kept, shelf.Sound kept -> shelf.put none kept = kept
  check_iff : ∀ kept, shelf.Sound kept -> (shelf.check kept = .ok () ↔ shelf.fits kept = true)

end Shelf

/-- Objects that are merged field by field, into an object with nothing but a name when there
is none. -/
structure Object (α : Type) where
  merge : α -> α -> α
  empty : String -> α
  name : α -> String
  stamps : α -> List LwwStamp
  check : α -> Result Unit
  fits : α -> Bool
  Sound : α -> Prop

namespace Object

def shelf (object : Object α) : Shelf α where
  name := object.name
  put slot incoming := object.merge (slot.getD (object.empty (object.name incoming))) incoming
  stamps := object.stamps
  check := object.check
  fits := object.fits
  Sound := object.Sound

structure Lawful (object : Object α) : Prop where
  name_empty : ∀ name, object.name (object.empty name) = name
  name_merge : ∀ current incoming, object.name (object.merge current incoming) =
    object.name current
  stamps_empty : ∀ name, AllValid (object.stamps (object.empty name))
  stamps_merge : ∀ current incoming, AllValid (object.stamps current) ->
    AllValid (object.stamps incoming) -> AllValid (object.stamps (object.merge current incoming))
  sound_empty : ∀ incoming, object.check incoming = .ok () ->
    object.Sound (object.empty (object.name incoming))
  sound_merge : ∀ current incoming, object.Sound current -> object.check incoming = .ok () ->
    object.Sound (object.merge current incoming)
  merge_empty : ∀ kept, object.Sound kept ->
    object.merge (object.empty (object.name kept)) kept = kept
  check_iff : ∀ kept, object.Sound kept -> (object.check kept = .ok () ↔ object.fits kept = true)

theorem Lawful.shelf {object : Object α} (lawful : object.Lawful) : object.shelf.Lawful where
  name_put slot incoming same := by
    refine (lawful.name_merge _ _).trans ?_
    cases slot with
    | none => exact lawful.name_empty _
    | some current => exact same current rfl
  stamps_put slot incoming _ valid ofIncoming := by
    refine lawful.stamps_merge _ _ ?_ ofIncoming
    cases slot with
    | none => exact lawful.stamps_empty _
    | some current => exact valid current rfl
  sound_put slot incoming held checked := by
    refine lawful.sound_merge _ _ ?_ checked
    cases slot with
    | none => exact lawful.sound_empty incoming checked
    | some current => exact (held current rfl).1
  put_none := lawful.merge_empty
  check_iff := lawful.check_iff

end Object

/-! ## Registers -/

section

variable [Stamped α] {current incoming : Option α}

/-- A field that was merged is one of the two. -/
theorem mergeReg_choice (current incoming : Option α) :
    mergeReg current incoming = current ∨ mergeReg current incoming = incoming := by
  cases incoming with
  | none => exact .inl rfl
  | some value =>
      rw [mergeReg]
      split
      · exact .inr rfl
      · exact .inl rfl

/-- A field that is kept is stamped, so it would be taken again. -/
theorem mergeReg_again
    (kept : mergeReg none current = current) :
    mergeReg none (mergeReg current incoming) = mergeReg current incoming := by
  cases incoming with
  | none => exact kept
  | some value =>
      rw [mergeReg]
      split
      · next newer =>
          cases stamped : Stamped.stamp value with
          | none =>
              rw [stamped] at newer
              cases newer
          | some stamp => simp [mergeReg, isNewer, stamped]
      · exact kept

theorem all_mergeReg {holds : α -> Bool}
    (ofCurrent : current.all holds = true) (ofIncoming : incoming.all holds = true) :
    (mergeReg current incoming).all holds = true := by
  rcases mergeReg_choice current incoming with same | same
  · rw [same, ofCurrent]
  · rw [same, ofIncoming]

theorem checkOption_mergeReg {check : α -> Result Unit}
    (ofCurrent : checkOption current check = .ok ())
    (ofIncoming : checkOption incoming check = .ok ()) :
    checkOption (mergeReg current incoming) check = .ok () := by
  rcases mergeReg_choice current incoming with same | same
  · rw [same, ofCurrent]
  · rw [same, ofIncoming]

theorem allValid_mergeReg
    (ofCurrent : AllValid (regStamp current))
    (ofIncoming : AllValid (regStamp incoming)) :
    AllValid (regStamp (mergeReg current incoming)) := by
  rcases mergeReg_choice current incoming with same | same
  · rw [same]
    exact ofCurrent
  · rw [same]
    exact ofIncoming

end

theorem checkStr_mergeReg {current incoming : Option Str} {max : Nat} {ok : String -> Bool}
    (ofCurrent : checkStr current max ok = .ok ())
    (ofIncoming : checkStr incoming max ok = .ok ()) :
    checkStr (mergeReg current incoming) max ok = .ok () := by
  rw [checkStr, require_eq_ok] at *
  exact all_mergeReg ofCurrent ofIncoming

theorem checkRemind_mergeReg {current incoming : Option U32}
    (ofCurrent : checkRemind current = .ok ())
    (ofIncoming : checkRemind incoming = .ok ()) :
    checkRemind (mergeReg current incoming) = .ok () := by
  rw [checkRemind, require_eq_ok] at *
  exact all_mergeReg ofCurrent ofIncoming

theorem mergeDeleted_again {current incoming : Option LwwStamp}
    (kept : mergeDeleted none current = current) :
    mergeDeleted none (mergeDeleted current incoming) = mergeDeleted current incoming := by
  rw [mergeDeleted_eq_ite current]
  split
  · next later =>
      rw [mergeDeleted_eq_ite, if_pos]
      exact lt_of_le_of_lt (not_lt.1 (not_stampKey_lt_none current)) later
  · exact kept

theorem allValid_mergeDeleted {current incoming : Option LwwStamp}
    (ofCurrent : AllValid current.toList) (ofIncoming : AllValid incoming.toList) :
    AllValid (mergeDeleted current incoming).toList := by
  rw [mergeDeleted_eq_ite]
  split
  · exact ofIncoming
  · exact ofCurrent

/-! ## Occurrences -/

def isOccurrence (o : Occurrence) : Bool :=
  isDay o.day && o.doneSteps.length ≤ 100 && o.doneSteps.all (· < 100)

theorem checkOccurrences_iff (items : List Occurrence) :
    checkOccurrences items = .ok () ↔
      items.length ≤ maxOccurrences ∧ ∀ item ∈ items, isOccurrence item = true := by
  simp only [checkOccurrences, bind_eq_ok, require_eq_ok, exists_const, decide_eq_true_eq,
    List.all_eq_true]
  rfl

/-- Occurrences that are kept are in the order of their days. -/
theorem mergeOccurrences_again {current : List Occurrence}
    (kept : mergeOccurrences [] current = current)
    (incoming : List Occurrence) :
    mergeOccurrences [] (mergeOccurrences current incoming) =
      mergeOccurrences current incoming := by
  have sorted : KeyedList.StrictlySorted Occurrence.day current := by
    rw [← kept]
    exact (KeyedList.mergeAll_spec day_newerOccurrence (fun _ => rfl)
      (List.Pairwise.nil : KeyedList.DistinctKeys Occurrence.day []) current).1
  exact KeyedList.mergeAll_nil day_newerOccurrence (fun _ => rfl)
    (KeyedList.mergeAll_spec day_newerOccurrence (fun _ => rfl) sorted.distinctKeys incoming).1
    (fun _ _ => rfl)

/-- An occurrence that was merged is one of the two lists. -/
theorem forall_mem_mergeOccurrences
    {Holds : Occurrence -> Prop} {current incoming : List Occurrence}
    (ofCurrent : ∀ occurrence ∈ current, Holds occurrence)
    (ofIncoming : ∀ occurrence ∈ incoming, Holds occurrence) :
    ∀ occurrence ∈ mergeOccurrences current incoming, Holds occurrence := by
  refine KeyedList.forall_mem_mergeAll ?_ (fun _ offered => offered) ofCurrent ofIncoming
  intro entry value entryHolds valueHolds _
  rw [newerOccurrence]
  split
  · exact valueHolds
  · exact entryHolds

theorem allValid_filterMap (items : List Occurrence) :
    AllValid (items.filterMap Occurrence.stamp) ↔
      ∀ occurrence ∈ items, AllValid occurrence.stamp.toList := by
  simp only [AllValid, List.mem_filterMap, forall_exists_index, and_imp, Option.mem_toList]
  exact ⟨fun all item member stamp stamped => all stamp item member stamped,
    fun all stamp item member stamped => all item member stamp stamped⟩

theorem allValid_mergeOccurrences {current incoming : List Occurrence}
    (ofCurrent : AllValid (current.filterMap Occurrence.stamp))
    (ofIncoming : AllValid (incoming.filterMap Occurrence.stamp)) :
    AllValid ((mergeOccurrences current incoming).filterMap Occurrence.stamp) := by
  rw [allValid_filterMap] at *
  exact forall_mem_mergeOccurrences ofCurrent ofIncoming

/-! ## Tasks -/

/-- A kept task is put back as it is, and only the number of its occurrences may fail its
check. -/
def Task.Sound (t : Task) : Prop :=
  mergeTask { id := t.id } t = t ∧ checkTask { t with occurrences := [] } = .ok () ∧
    ∀ occurrence ∈ t.occurrences, isOccurrence occurrence = true

def taskObject : Object Task where
  merge := mergeTask
  empty id := { id := id }
  name := Task.id
  stamps task := changeStamps ⟨some (.task task)⟩
  check := checkTask
  fits task := task.occurrences.length ≤ maxOccurrences
  Sound := Task.Sound

theorem checkTask_iff (t : Task) :
    checkTask t = .ok () ↔
      checkTask { t with occurrences := [] } = .ok () ∧
        checkOccurrences t.occurrences = .ok () := by
  have empty : checkOccurrences [] = .ok () := rfl
  simp only [checkTask, bind_eq_ok, Unique.exists_iff, PUnit.default_eq_unit, empty, true_and]
  tauto

theorem mergeTask_check {current incoming : Task}
    (ofCurrent : checkTask { current with occurrences := [] } = .ok ())
    (ofIncoming : checkTask { incoming with occurrences := [] } = .ok ()) :
    checkTask { mergeTask current incoming with occurrences := [] } = .ok () := by
  simp only [checkTask, bind_eq_ok, Unique.exists_iff, PUnit.default_eq_unit, require_eq_ok,
    mergeTask] at *
  obtain ⟨id, name, description, status, listId, day, due, start, minutes, remind, steps, rule,
    occurrences, origin, source⟩ := ofCurrent
  obtain ⟨-, name', description', status', listId', day', due', start', minutes', remind', steps',
    rule', -, origin', source'⟩ := ofIncoming
  exact ⟨id, checkStr_mergeReg name name', checkStr_mergeReg description description',
    checkStr_mergeReg status status', checkStr_mergeReg listId listId',
    checkStr_mergeReg day day', checkStr_mergeReg due due', checkStr_mergeReg start start',
    all_mergeReg minutes minutes', checkRemind_mergeReg remind remind',
    all_mergeReg steps steps', checkOption_mergeReg rule rule', occurrences,
    checkOption_mergeReg origin origin', all_mergeReg source source'⟩

theorem mergeTask_again {current : Task}
    (kept : mergeTask { id := current.id } current = current)
    (incoming : Task) :
    mergeTask { id := current.id } (mergeTask current incoming) = mergeTask current incoming := by
  simp only [Task.ext_iff, mergeTask] at kept ⊢
  simp only [kept, mergeReg_again, mergeDeleted_again, mergeOccurrences_again, and_self]

theorem allValid_mergeTask {current incoming : Task}
    (ofCurrent : AllValid (changeStamps ⟨some (.task current)⟩))
    (ofIncoming : AllValid (changeStamps ⟨some (.task incoming)⟩)) :
    AllValid (changeStamps ⟨some (.task (mergeTask current incoming))⟩) := by
  simp only [changeStamps, mergeTask, List.flatMap_cons, List.flatMap_nil, allValid_append]
    at ofCurrent ofIncoming ⊢
  simp only [ofCurrent, ofIncoming, allValid_mergeReg, allValid_mergeDeleted,
    allValid_mergeOccurrences, and_self]

theorem Task.Sound.merge {current incoming : Task}
    (sound : current.Sound)
    (checked : checkTask incoming = .ok ()) : (mergeTask current incoming).Sound := by
  obtain ⟨kept, ofCurrent, occurrences⟩ := sound
  obtain ⟨ofIncoming, occurrences'⟩ := (checkTask_iff incoming).1 checked
  exact ⟨mergeTask_again kept incoming, mergeTask_check ofCurrent ofIncoming,
    forall_mem_mergeOccurrences occurrences ((checkOccurrences_iff _).1 occurrences').2⟩

theorem taskObject_lawful : taskObject.Lawful where
  name_empty _ := rfl
  name_merge _ _ := rfl
  stamps_empty _ := allValid_nil
  stamps_merge _ _ := allValid_mergeTask
  sound_empty incoming checked := by
    refine ⟨rfl, ?_, fun _ member => absurd member List.not_mem_nil⟩
    change checkTask incoming = .ok () at checked
    simp only [checkTask, bind_eq_ok, require_eq_ok] at checked
    obtain ⟨_, named, -⟩ := checked
    change checkTask { id := incoming.id } = .ok ()
    rw [checkTask, named]
    rfl
  sound_merge _ _ := Task.Sound.merge
  merge_empty _ sound := sound.1
  check_iff kept sound := by
    change checkTask kept = .ok () ↔ decide (kept.occurrences.length ≤ maxOccurrences) = true
    rw [checkTask_iff, checkOccurrences_iff, decide_eq_true_eq]
    exact (and_iff_right sound.2.1).trans (and_iff_left sound.2.2)

/-! ## Events -/

/-- A kept event is put back as it is, and only the number of its occurrences may fail its
check. -/
def Event.Sound (e : Event) : Prop :=
  mergeEvent { id := e.id } e = e ∧ checkEvent { e with occurrences := [] } = .ok () ∧
    ∀ occurrence ∈ e.occurrences, isOccurrence occurrence = true

def eventObject : Object Event where
  merge := mergeEvent
  empty id := { id := id }
  name := Event.id
  stamps event := changeStamps ⟨some (.event event)⟩
  check := checkEvent
  fits event := event.occurrences.length ≤ maxOccurrences
  Sound := Event.Sound

theorem checkEvent_iff (e : Event) :
    checkEvent e = .ok () ↔
      checkEvent { e with occurrences := [] } = .ok () ∧
        checkOccurrences e.occurrences = .ok () := by
  have empty : checkOccurrences [] = .ok () := rfl
  simp only [checkEvent, bind_eq_ok, Unique.exists_iff, PUnit.default_eq_unit, empty, true_and]
  tauto

theorem mergeEvent_check {current incoming : Event}
    (ofCurrent : checkEvent { current with occurrences := [] } = .ok ())
    (ofIncoming : checkEvent { incoming with occurrences := [] } = .ok ()) :
    checkEvent { mergeEvent current incoming with occurrences := [] } = .ok () := by
  simp only [checkEvent, bind_eq_ok, Unique.exists_iff, PUnit.default_eq_unit, require_eq_ok,
    mergeEvent] at *
  obtain ⟨id, name, description, listId, start, finish, day, weekdays, rule, occurrences, origin,
    color, remind⟩ := ofCurrent
  obtain ⟨-, name', description', listId', start', finish', day', weekdays', rule', -, origin',
    color', remind'⟩ := ofIncoming
  exact ⟨id, checkStr_mergeReg name name', checkStr_mergeReg description description',
    checkStr_mergeReg listId listId', checkStr_mergeReg start start',
    checkStr_mergeReg finish finish', checkStr_mergeReg day day', all_mergeReg weekdays weekdays',
    checkOption_mergeReg rule rule', occurrences, checkOption_mergeReg origin origin',
    all_mergeReg color color', checkRemind_mergeReg remind remind'⟩

theorem mergeEvent_again {current : Event}
    (kept : mergeEvent { id := current.id } current = current)
    (incoming : Event) :
    mergeEvent { id := current.id } (mergeEvent current incoming) =
      mergeEvent current incoming := by
  simp only [Event.ext_iff, mergeEvent] at kept ⊢
  simp only [kept, mergeReg_again, mergeDeleted_again, mergeOccurrences_again, and_self]

theorem allValid_mergeEvent {current incoming : Event}
    (ofCurrent : AllValid (changeStamps ⟨some (.event current)⟩))
    (ofIncoming : AllValid (changeStamps ⟨some (.event incoming)⟩)) :
    AllValid (changeStamps ⟨some (.event (mergeEvent current incoming))⟩) := by
  simp only [changeStamps, mergeEvent, List.flatMap_cons, List.flatMap_nil, allValid_append]
    at ofCurrent ofIncoming ⊢
  simp only [ofCurrent, ofIncoming, allValid_mergeReg, allValid_mergeDeleted,
    allValid_mergeOccurrences, and_self]

theorem Event.Sound.merge {current incoming : Event}
    (sound : current.Sound)
    (checked : checkEvent incoming = .ok ()) : (mergeEvent current incoming).Sound := by
  obtain ⟨kept, ofCurrent, occurrences⟩ := sound
  obtain ⟨ofIncoming, occurrences'⟩ := (checkEvent_iff incoming).1 checked
  exact ⟨mergeEvent_again kept incoming, mergeEvent_check ofCurrent ofIncoming,
    forall_mem_mergeOccurrences occurrences ((checkOccurrences_iff _).1 occurrences').2⟩

theorem eventObject_lawful : eventObject.Lawful where
  name_empty _ := rfl
  name_merge _ _ := rfl
  stamps_empty _ := allValid_nil
  stamps_merge _ _ := allValid_mergeEvent
  sound_empty incoming checked := by
    refine ⟨rfl, ?_, fun _ member => absurd member List.not_mem_nil⟩
    change checkEvent incoming = .ok () at checked
    simp only [checkEvent, bind_eq_ok, require_eq_ok] at checked
    obtain ⟨_, named, -⟩ := checked
    change checkEvent { id := incoming.id } = .ok ()
    rw [checkEvent, named]
    rfl
  sound_merge _ _ := Event.Sound.merge
  merge_empty _ sound := sound.1
  check_iff kept sound := by
    change checkEvent kept = .ok () ↔ decide (kept.occurrences.length ≤ maxOccurrences) = true
    rw [checkEvent_iff, checkOccurrences_iff, decide_eq_true_eq]
    exact (and_iff_right sound.2.1).trans (and_iff_left sound.2.2)

/-! ## Lists, words and marks -/

/-- A kept list is put back as it is and passes its check. -/
def TaskList.Sound (l : TaskList) : Prop :=
  mergeList { id := l.id } l = l ∧ checkList l = .ok ()

def listObject : Object TaskList where
  merge := mergeList
  empty id := { id := id }
  name := TaskList.id
  stamps list := changeStamps ⟨some (.list list)⟩
  check := checkList
  fits _ := true
  Sound := TaskList.Sound

theorem listObject_lawful : listObject.Lawful where
  name_empty _ := rfl
  name_merge _ _ := rfl
  stamps_empty _ := allValid_nil
  stamps_merge current incoming ofCurrent ofIncoming := by
    simp only [listObject, changeStamps, mergeList, allValid_append] at ofCurrent ofIncoming ⊢
    simp only [ofCurrent, ofIncoming, allValid_mergeReg, allValid_mergeDeleted, and_self]
  sound_empty incoming checked := by
    refine ⟨rfl, ?_⟩
    change checkList incoming = .ok () at checked
    simp only [checkList, bind_eq_ok, require_eq_ok] at checked
    obtain ⟨_, named, -⟩ := checked
    change checkList { id := incoming.id } = .ok ()
    rw [checkList, named]
    rfl
  sound_merge current incoming sound checked := by
    obtain ⟨kept, ofCurrent⟩ := sound
    refine ⟨?_, ?_⟩
    · change mergeList { id := current.id } (mergeList current incoming) =
        mergeList current incoming
      simp only [TaskList.ext_iff, mergeList] at kept ⊢
      simp only [kept, mergeReg_again, mergeDeleted_again, and_self]
    · change checkList incoming = .ok () at checked
      change checkList (mergeList current incoming) = .ok ()
      simp only [checkList, bind_eq_ok, Unique.exists_iff, PUnit.default_eq_unit, require_eq_ok,
        mergeList] at *
      exact ⟨ofCurrent.1, checkStr_mergeReg ofCurrent.2.1 checked.2.1,
        all_mergeReg ofCurrent.2.2 checked.2.2⟩
  merge_empty _ sound := sound.1
  check_iff _ sound := iff_of_true sound.2 rfl

/-- A kept word is put back as it is and passes its check. -/
def LearnedWord.Sound (isUppercase : Char -> Bool) (w : LearnedWord) : Prop :=
  mergeLearned { id := w.id } w = w ∧ checkLearned isUppercase w = .ok ()

def wordObject (isUppercase : Char -> Bool) : Object LearnedWord where
  merge := mergeLearned
  empty id := { id := id }
  name := LearnedWord.id
  stamps word := changeStamps ⟨some (.learned word)⟩
  check := checkLearned isUppercase
  fits _ := true
  Sound := LearnedWord.Sound isUppercase

theorem wordObject_lawful (isUppercase : Char -> Bool) : (wordObject isUppercase).Lawful where
  name_empty _ := rfl
  name_merge _ _ := rfl
  stamps_empty _ := allValid_nil
  stamps_merge current incoming ofCurrent ofIncoming := by
    simp only [wordObject, changeStamps, mergeLearned, List.flatMap_cons, List.flatMap_nil,
      allValid_append] at ofCurrent ofIncoming ⊢
    simp only [ofCurrent, ofIncoming, allValid_mergeReg, allValid_mergeDeleted, and_self]
  sound_empty incoming checked := by
    refine ⟨rfl, ?_⟩
    change checkLearned isUppercase incoming = .ok () at checked
    simp only [checkLearned, bind_eq_ok, require_eq_ok] at checked
    obtain ⟨_, named, -⟩ := checked
    change checkLearned isUppercase { id := incoming.id } = .ok ()
    rw [checkLearned, named]
    rfl
  sound_merge current incoming sound checked := by
    obtain ⟨kept, ofCurrent⟩ := sound
    refine ⟨?_, ?_⟩
    · change mergeLearned { id := current.id } (mergeLearned current incoming) =
        mergeLearned current incoming
      simp only [LearnedWord.ext_iff, mergeLearned] at kept ⊢
      simp only [kept, mergeReg_again, mergeDeleted_again, and_self]
    · change checkLearned isUppercase incoming = .ok () at checked
      change checkLearned isUppercase (mergeLearned current incoming) = .ok ()
      simp only [checkLearned, bind_eq_ok, Unique.exists_iff, PUnit.default_eq_unit,
        require_eq_ok, mergeLearned, List.all_cons, List.all_nil, Bool.and_true,
        Bool.and_eq_true] at *
      obtain ⟨id, kind, minutes, ⟨kindCount, minutesCount⟩, touched⟩ := ofCurrent
      obtain ⟨-, kind', minutes', ⟨kindCount', minutesCount'⟩, touched'⟩ := checked
      exact ⟨id, checkStr_mergeReg kind kind', all_mergeReg minutes minutes',
        ⟨all_mergeReg kindCount kindCount', all_mergeReg minutesCount minutesCount'⟩,
        all_mergeReg touched touched'⟩
  merge_empty _ sound := sound.1
  check_iff _ sound := iff_of_true sound.2 rfl

/-- A kept mark is put back as it is and passes its check. -/
def Reminded.Sound (r : Reminded) : Prop :=
  mergeReminded { id := r.id } r = r ∧ checkReminded r = .ok ()

def markObject : Object Reminded where
  merge := mergeReminded
  empty id := { id := id }
  name := Reminded.id
  stamps mark := changeStamps ⟨some (.reminded mark)⟩
  check := checkReminded
  fits _ := true
  Sound := Reminded.Sound

/-- The mark has its stamp by the rule of tombstones. -/
theorem mergeReminded_stamp (current incoming : Reminded) :
    (mergeReminded current incoming).stamp = mergeDeleted current.stamp incoming.stamp :=
  (mergeDeleted_eq_ite current.stamp incoming.stamp).symm

theorem markObject_lawful : markObject.Lawful where
  name_empty _ := rfl
  name_merge _ _ := rfl
  stamps_empty _ := allValid_nil
  stamps_merge current incoming ofCurrent ofIncoming := by
    simp only [markObject, changeStamps, mergeReminded_stamp, allValid_append]
      at ofCurrent ofIncoming ⊢
    exact ⟨allValid_mergeDeleted ofCurrent.1 ofIncoming.1,
      allValid_mergeDeleted ofCurrent.2 ofIncoming.2⟩
  sound_empty _ checked := ⟨rfl, checked⟩
  sound_merge current incoming sound checked := by
    obtain ⟨kept, ofCurrent⟩ := sound
    refine ⟨?_, ofCurrent⟩
    have stamps := congrArg Reminded.stamp kept
    rw [mergeReminded_stamp] at stamps
    apply Reminded.ext
    · rfl
    · change (mergeReminded { id := current.id } (mergeReminded current incoming)).stamp =
        (mergeReminded current incoming).stamp
      rw [mergeReminded_stamp, mergeReminded_stamp]
      exact mergeDeleted_again stamps
    · exact mergeDeleted_again (congrArg Reminded.deleted kept)
  merge_empty _ sound := sound.1
  check_iff _ sound := iff_of_true sound.2 rfl

/-! ## Records -/

section

variable [Record α]

theorem isStamped_of_replaces {current incoming : α}
    (replaces : Replaces incoming current = true) : IsStamped incoming := by
  by_contra unstamped
  rw [Replaces, isNewer_of_not_isStamped unstamped] at replaces
  cases replaces

theorem freshRecord_of_isStamped {record : α}
    (stamped : IsStamped record) : freshRecord record = record := by
  unfold freshRecord
  rw [if_neg]
  intro noStamp
  rw [IsStamped, Option.isNone_iff_eq_none.1 noStamp] at stamped
  cases stamped

theorem freshRecord_of_not_isStamped {record : α}
    (unstamped : ¬ IsStamped record) :
    freshRecord record = Record.tombstone (Record.id record) (Record.deleted record) := by
  unfold freshRecord
  rw [if_pos]
  simpa [IsStamped] using unstamped

end

section

variable [Record α] [LawfulRecord α]

/-- More than the name of the record is known. -/
def hasContent (record : α) : Bool :=
  (Stamped.stamp record).isSome || (Record.deleted record).isSome

/-- A kept record is put back as it is, and passes its check if it has a stamp. -/
def RecordSound (check : α -> Result Unit) (record : α) : Prop :=
  isId (Record.id record) = true ∧ freshRecord record = record ∧
    (IsStamped record -> check record = .ok ())

/-- A check of a record that does not look at the tombstone of a stamped record, and looks at
nothing but the name of one without a stamp.  A bare name may pass or not. -/
structure RecordCheck (check : α -> Result Unit) (bare : Bool) : Prop where
  named : ∀ record, check record = .ok () -> isId (Record.id record) = true
  withDeleted : ∀ record deleted, IsStamped record ->
    check (Record.withDeleted record deleted) = check record
  tombstone : ∀ id stamp, isId id = true -> check (Record.tombstone id (some stamp)) = .ok ()
  bare : ∀ id, isId id = true -> (check (Record.tombstone id none) = .ok () ↔ bare = true)

def recordShelf (check : α -> Result Unit) (bare : Bool) : Shelf α where
  name := Record.id
  put slot incoming := slot.elim (freshRecord incoming) (joinRecord · incoming)
  stamps record := (Stamped.stamp record).toList ++ (Record.deleted record).toList
  check := check
  fits record := hasContent record || bare
  Sound := RecordSound check

/-- The record that stays, with both tombstones. -/
theorem joinRecord_eq (current incoming : α) :
    joinRecord current incoming =
      Record.withDeleted (if Replaces incoming current then incoming else current)
        (mergeDeleted (Record.deleted current) (Record.deleted incoming)) := by
  unfold joinRecord Replaces
  simp only
  split
  · simp
  · rfl

theorem freshRecord_freshRecord (record : α) :
    freshRecord (freshRecord record) = freshRecord record := by
  by_cases stamped : IsStamped record
  · rw [freshRecord_of_isStamped stamped, freshRecord_of_isStamped stamped]
  · have unstamped : ¬ IsStamped (Record.tombstone (Record.id record) (Record.deleted record) : α) := by
      simp [IsStamped]
    rw [freshRecord_of_not_isStamped stamped, freshRecord_of_not_isStamped unstamped]
    simp

variable {check : α -> Result Unit} {bare : Bool}

theorem RecordSound.fresh
    (lawful : RecordCheck check bare) {incoming : α}
    (checked : check incoming = .ok ()) : RecordSound check (freshRecord incoming) := by
  refine ⟨?_, freshRecord_freshRecord incoming, fun stamped => ?_⟩
  · rw [id_freshRecord]
    exact lawful.named incoming checked
  · by_cases incomingStamped : IsStamped incoming
    · rw [freshRecord_of_isStamped incomingStamped]
      exact checked
    · rw [freshRecord_of_not_isStamped incomingStamped] at stamped
      simp [IsStamped] at stamped

theorem RecordSound.join
    (lawful : RecordCheck check bare) {current incoming : α} (sound : RecordSound check current)
    (checked : check incoming = .ok ())
    (same : Record.id current = Record.id incoming) :
    RecordSound check (joinRecord current incoming) := by
  obtain ⟨named, kept, ofCurrent⟩ := sound
  refine ⟨?_, ?_, ?_⟩
  · rw [id_joinRecord current incoming same, ← same]
    exact named
  · rw [joinRecord_eq]
    by_cases replaces : Replaces incoming current = true
    · rw [if_pos replaces]
      apply freshRecord_of_isStamped
      rw [IsStamped, LawfulRecord.stamp_withDeleted]
      exact isStamped_of_replaces replaces
    · rw [if_neg replaces]
      by_cases stamped : IsStamped current
      · apply freshRecord_of_isStamped
        rw [IsStamped, LawfulRecord.stamp_withDeleted]
        exact stamped
      · rw [freshRecord_of_not_isStamped stamped] at kept
        rw [← kept, LawfulRecord.withDeleted_tombstone, freshRecord_of_not_isStamped]
        · simp
        · simp [IsStamped]
  · intro stamped
    rw [joinRecord_eq] at stamped ⊢
    rw [IsStamped, LawfulRecord.stamp_withDeleted] at stamped
    rw [lawful.withDeleted _ _ stamped]
    by_cases replaces : Replaces incoming current = true
    · rw [if_pos replaces]
      exact checked
    · rw [if_neg replaces] at stamped ⊢
      exact ofCurrent stamped

omit [LawfulRecord α] in
theorem RecordSound.check_iff
    (lawful : RecordCheck check bare) {record : α} (sound : RecordSound check record) :
    check record = .ok () ↔ (hasContent record || bare) = true := by
  obtain ⟨named, kept, stampedCheck⟩ := sound
  by_cases stamped : IsStamped record
  · refine iff_of_true (stampedCheck stamped) ?_
    rw [hasContent, show (Stamped.stamp record).isSome = true from stamped]
    rfl
  · have noStamp : (Stamped.stamp record).isSome = false := by
      simpa [IsStamped] using stamped
    rw [freshRecord_of_not_isStamped stamped] at kept
    cases deleted : Record.deleted record with
    | none =>
        rw [deleted] at kept
        rw [hasContent, noStamp, deleted, ← kept, lawful.bare _ named]
        simp
    | some stamp =>
        rw [deleted] at kept
        rw [hasContent, noStamp, deleted, ← kept]
        exact iff_of_true (lawful.tombstone _ _ named) rfl

theorem RecordCheck.shelf (lawful : RecordCheck check bare) : (recordShelf check bare).Lawful where
  name_put slot incoming same := by
    cases slot with
    | none => exact id_freshRecord incoming
    | some current => exact id_joinRecord current incoming (same current rfl)
  stamps_put slot incoming _ valid ofIncoming := by
    change AllValid ((Stamped.stamp incoming).toList ++ (Record.deleted incoming).toList)
      at ofIncoming
    obtain ⟨stampValid, deletedValid⟩ := (allValid_append _ _).1 ofIncoming
    cases slot with
    | none =>
        by_cases stamped : IsStamped incoming
        · change AllValid ((Stamped.stamp (freshRecord incoming)).toList ++
            (Record.deleted (freshRecord incoming)).toList)
          rw [freshRecord_of_isStamped stamped]
          exact ofIncoming
        · change AllValid ((Stamped.stamp (freshRecord incoming)).toList ++
            (Record.deleted (freshRecord incoming)).toList)
          rw [freshRecord_of_not_isStamped stamped, LawfulRecord.stamp_tombstone,
            LawfulRecord.deleted_tombstone]
          exact deletedValid
    | some current =>
        obtain ⟨currentStamp, currentDeleted⟩ := (allValid_append _ _).1 (valid current rfl)
        change AllValid ((Stamped.stamp (joinRecord current incoming)).toList ++
          (Record.deleted (joinRecord current incoming)).toList)
        rw [joinRecord_eq, LawfulRecord.stamp_withDeleted, LawfulRecord.deleted_withDeleted,
          allValid_append]
        refine ⟨?_, allValid_mergeDeleted currentDeleted deletedValid⟩
        split
        · exact stampValid
        · exact currentStamp
  sound_put slot incoming held checked := by
    cases slot with
    | none => exact RecordSound.fresh lawful checked
    | some current =>
        obtain ⟨sound, same⟩ := held current rfl
        exact sound.join lawful checked same
  put_none _ sound := sound.2.1
  check_iff _ sound := sound.check_iff lawful

end

theorem isTombstone_of_isSome {stamp : Option LwwStamp}
    (stamped : stamp.isSome = true)
    (deleted : Option LwwStamp) : isTombstone stamp deleted = false := by
  cases stamp with
  | none => cases stamped
  | some stamp => rfl

theorem goalPeriod_recordCheck : RecordCheck checkGoalPeriod true where
  named record checked := by
    simp only [checkGoalPeriod, bind_eq_ok, require_eq_ok] at checked
    obtain ⟨_, named, -⟩ := checked
    exact named
  withDeleted record deleted stamped := by
    have stampedField : record.stamp.isSome = true := stamped
    change checkGoalPeriod { record with deleted := deleted } = _
    simp only [checkGoalPeriod, isTombstone_of_isSome stampedField]
  tombstone id stamp named := by
    change checkGoalPeriod { id := id, deleted := some stamp } = _
    rw [checkGoalPeriod, named]
    rfl
  bare id named := by
    change checkGoalPeriod { id := id } = _ ↔ _
    rw [checkGoalPeriod, named]
    exact iff_of_true rfl rfl

theorem health_recordCheck : RecordCheck checkHealth false where
  named record checked := by
    simp only [checkHealth, bind_eq_ok, require_eq_ok] at checked
    obtain ⟨_, named, -⟩ := checked
    exact named
  withDeleted record deleted stamped := by
    have stampedField : record.stamp.isSome = true := stamped
    change checkHealth { record with deleted := deleted } = _
    simp only [checkHealth, isTombstone_of_isSome stampedField]
  tombstone id stamp named := by
    change checkHealth { id := id, deleted := some stamp } = _
    rw [checkHealth, named]
    rfl
  bare id named := by
    change checkHealth { id := id } = _ ↔ _
    have noDay : isDay "" = false := by decide
    simp [checkHealth, named, isTombstone, noDay, bind_eq_ok]

theorem quickLine_recordCheck : RecordCheck checkQuickLine false where
  named line checked := by
    simp only [checkQuickLine, bind_eq_ok, require_eq_ok] at checked
    obtain ⟨_, named, -⟩ := checked
    exact named
  withDeleted line deleted stamped := by
    have stampedField : line.stamp.isSome = true := stamped
    change checkQuickLine { line with deleted := deleted } = _
    simp only [checkQuickLine, isTombstone_of_isSome stampedField]
  tombstone id stamp named := by
    change checkQuickLine { id := id, deleted := some stamp } = _
    rw [checkQuickLine, named]
    rfl
  bare id named := by
    change checkQuickLine { id := id } = _ ↔ _
    have noText : isBlank "" = true := rfl
    simp [checkQuickLine, named, isTombstone, noText]

theorem entry_recordCheck : RecordCheck checkEntry false where
  named entry checked := by
    simp only [checkEntry, bind_eq_ok, require_eq_ok] at checked
    obtain ⟨_, named, -⟩ := checked
    exact named
  withDeleted entry deleted stamped := by
    have stampedField : entry.stamp.isSome = true := stamped
    change checkEntry { entry with deleted := deleted } = _
    simp only [checkEntry, isTombstone_of_isSome stampedField]
  tombstone id stamp named := by
    change checkEntry { id := id, deleted := some stamp } = _
    rw [checkEntry, named]
    rfl
  bare id named := by
    change checkEntry { id := id } = _ ↔ _
    have noMeal : "" ∉ meals := by decide
    simp [checkEntry, named, isTombstone, noMeal]

/-! ## Days of the diary -/

theorem checkEntries_iff (entries : List FoodEntry) :
    checkEntries entries = .ok () ↔ ∀ entry ∈ entries, checkEntry entry = .ok () := by
  refine ⟨fun checked _ => mem_checkEntries checked, fun checked => ?_⟩
  induction entries with
  | nil => rfl
  | cons entry entries inductionHypothesis =>
      obtain ⟨head, tail⟩ := List.forall_mem_cons.1 checked
      rw [checkEntries, head]
      exact inductionHypothesis tail

/-- A kept day is put back as it is; the number of its entries and entries that are nothing
but a name may fail its check. -/
def NutritionDay.Sound (d : NutritionDay) : Prop :=
  mergeDay { day := d.day } d = d ∧ isDay d.day = true ∧
    checkOption d.fixedGoals checkGoals = .ok () ∧
    ∀ entry ∈ d.entries, RecordSound checkEntry entry

def dayObject : Object NutritionDay where
  merge := mergeDay
  empty day := { day := day }
  name := NutritionDay.day
  stamps day := changeStamps ⟨some (.nutritionDay day)⟩
  check := checkDay
  fits day := decide (day.entries.length ≤ 200) && day.entries.all hasContent
  Sound := NutritionDay.Sound

theorem checkDay_iff (d : NutritionDay) :
    checkDay d = .ok () ↔ isDay d.day = true ∧ d.entries.length ≤ 200 ∧
      (∀ entry ∈ d.entries, checkEntry entry = .ok ()) ∧
      checkOption d.fixedGoals checkGoals = .ok () := by
  simp only [checkDay, bind_eq_ok, Unique.exists_iff, PUnit.default_eq_unit, require_eq_ok,
    decide_eq_true_eq, checkEntries_iff]

theorem entries_sound {current incoming : List FoodEntry}
    (sound : ∀ entry ∈ current, RecordSound checkEntry entry)
    (checked : ∀ entry ∈ incoming, checkEntry entry = .ok ()) :
    ∀ entry ∈ KeyedList.mergeAll FoodEntry.id joinRecord freshRecord current incoming,
      RecordSound checkEntry entry := by
  refine KeyedList.forall_mem_mergeAll ?_ ?_ sound checked
  · intro entry value entrySound valueChecked same
    exact entrySound.join entry_recordCheck valueChecked same
  · exact fun value => RecordSound.fresh entry_recordCheck

theorem allValid_entries {current incoming : List FoodEntry}
    (ofCurrent : AllValid (current.flatMap fun e => e.stamp.toList ++ e.deleted.toList))
    (ofIncoming : AllValid (incoming.flatMap fun e => e.stamp.toList ++ e.deleted.toList)) :
    AllValid ((KeyedList.mergeAll FoodEntry.id joinRecord freshRecord current incoming).flatMap
      fun e => e.stamp.toList ++ e.deleted.toList) := by
  have each (entries : List FoodEntry) :
      AllValid (entries.flatMap fun e => e.stamp.toList ++ e.deleted.toList) ↔
        ∀ entry ∈ entries, AllValid (entry.stamp.toList ++ entry.deleted.toList) :=
    List.forall_mem_flatMap
  have lawful := entry_recordCheck.shelf
  rw [each] at *
  refine KeyedList.forall_mem_mergeAll ?_ ?_ ofCurrent ofIncoming
  · intro entry value entryValid valueValid same
    refine lawful.stamps_put (some entry) value ?_ ?_ valueValid
    · rintro _ ⟨⟩
      exact same
    · rintro _ ⟨⟩
      exact entryValid
  · intro value valueValid
    refine lawful.stamps_put none value ?_ ?_ valueValid
    · rintro _ ⟨⟩
    · rintro _ ⟨⟩

theorem mergeDay_again {current : NutritionDay}
    (kept : mergeDay { day := current.day } current = current)
    {incoming : NutritionDay}
    (sound : ∀ entry ∈ (mergeDay current incoming).entries, RecordSound checkEntry entry) :
    mergeDay { day := current.day } (mergeDay current incoming) = mergeDay current incoming := by
  have sorted : KeyedList.StrictlySorted FoodEntry.id current.entries := by
    rw [← congrArg NutritionDay.entries kept]
    exact (KeyedList.mergeAll_spec id_joinRecord id_freshRecord
      (List.Pairwise.nil : KeyedList.DistinctKeys FoodEntry.id []) current.entries).1
  have entries : KeyedList.mergeAll FoodEntry.id joinRecord freshRecord []
      (mergeDay current incoming).entries = (mergeDay current incoming).entries :=
    KeyedList.mergeAll_nil id_joinRecord id_freshRecord
      (KeyedList.mergeAll_spec id_joinRecord id_freshRecord sorted.distinctKeys
        incoming.entries).1 fun entry member => (sound entry member).2.1
  apply NutritionDay.ext
  · rfl
  · exact entries
  · exact mergeReg_again (congrArg NutritionDay.isComplete kept)
  · exact mergeReg_again (congrArg NutritionDay.fixedGoals kept)
  · exact mergeReg_again (congrArg NutritionDay.waterMl kept)

theorem dayObject_lawful : dayObject.Lawful where
  name_empty _ := rfl
  name_merge _ _ := rfl
  stamps_empty _ := allValid_nil
  stamps_merge current incoming ofCurrent ofIncoming := by
    simp only [dayObject, changeStamps, mergeDay, allValid_append] at ofCurrent ofIncoming ⊢
    simp only [ofCurrent, ofIncoming, allValid_mergeReg, allValid_entries, and_self]
  sound_empty incoming checked :=
    ⟨rfl, ((checkDay_iff incoming).1 checked).1, rfl, fun _ member =>
      absurd member List.not_mem_nil⟩
  sound_merge current incoming sound checked := by
    obtain ⟨kept, named, goals, entries⟩ := sound
    obtain ⟨-, -, entries', goals'⟩ := (checkDay_iff incoming).1 checked
    have merged := entries_sound entries entries'
    exact ⟨mergeDay_again kept merged, named, checkOption_mergeReg goals goals', merged⟩
  merge_empty _ sound := sound.1
  check_iff kept sound := by
    obtain ⟨-, named, goals, entries⟩ := sound
    change checkDay kept = .ok () ↔
      (decide (kept.entries.length ≤ 200) && kept.entries.all hasContent) = true
    rw [checkDay_iff, Bool.and_eq_true, decide_eq_true_eq, List.all_eq_true]
    have each : (∀ entry ∈ kept.entries, checkEntry entry = .ok ()) ↔
        ∀ entry ∈ kept.entries, hasContent entry = true := by
      refine forall₂_congr fun entry member => ?_
      rw [(entries entry member).check_iff entry_recordCheck, Bool.or_false]
    rw [each]
    tauto

end Parvane.Planner
