import Mathlib.Algebra.Order.Ring.Int
import Mathlib.Data.List.Basic

/-!
# Actions that may fail half way

An action changes an object and may fail.  A failure undoes nothing: the object stays as
the action left it.  What holds of an object after a failure is therefore proved step by
step, like what holds after a success.
-/

/-- An action on an object that may fail.  The object is visible after a failure too. -/
abbrev Fallible (ε σ : Type) := ExceptT ε (StateM σ)

namespace Fallible

variable {ε σ τ : Type}

/-- Run an action on an object. -/
def exec (action : Fallible ε σ α) (state : σ) : Except ε α × σ :=
  action.run.run state

@[simp] theorem exec_pure (value : α) (state : σ) :
    exec (pure value : Fallible ε σ α) state = (.ok value, state) := rfl

@[simp] theorem exec_bind
    (action : Fallible ε σ α) (next : α -> Fallible ε σ β) (state : σ) :
    exec (action >>= next) state =
      match exec action state with
      | (.ok value, later) => exec (next value) later
      | (.error error, later) => (.error error, later) := by
  unfold exec
  rw [ExceptT.run_bind, StateT.run_bind]
  rcases (ExceptT.run action).run state with ⟨result, later⟩
  cases result <;> rfl

@[simp] theorem exec_map
    (change : α -> β) (action : Fallible ε σ α) (state : σ) :
    exec (change <$> action) state =
      match exec action state with
      | (.ok value, later) => (.ok (change value), later)
      | (.error error, later) => (.error error, later) := by
  rw [map_eq_pure_bind, exec_bind]
  rfl

@[simp] theorem exec_liftM (result : Except ε α) (state : σ) :
    exec (liftM result : Fallible ε σ α) state = (result, state) := rfl

@[simp] theorem exec_get (state : σ) : exec (get : Fallible ε σ σ) state = (.ok state, state) := rfl

@[simp] theorem exec_modify (change : σ -> σ) (state : σ) :
    exec (modify change : Fallible ε σ PUnit) state = (.ok ⟨⟩, change state) := rfl

@[simp] theorem exec_modifyGet (change : σ -> α × σ) (state : σ) :
    exec (modifyGet change : Fallible ε σ α) state = (.ok (change state).1, (change state).2) := rfl

variable {next : α -> Fallible ε σ β} {action : Fallible ε σ α}

theorem exec_bind_eq_ok {state later : σ} {result : β} :
    exec (action >>= next) state = (.ok result, later) ↔
      ∃ value middle, exec action state = (.ok value, middle) ∧
        exec (next value) middle = (.ok result, later) := by
  rw [exec_bind]
  rcases exec action state with ⟨error | value, middle⟩ <;> simp

theorem exec_bind_eq_error {state later : σ} {error : ε} :
    exec (action >>= next) state = (.error error, later) ↔
      exec action state = (.error error, later) ∨
        ∃ value middle, exec action state = (.ok value, middle) ∧
          exec (next value) middle = (.error error, later) := by
  rw [exec_bind]
  rcases exec action state with ⟨failure | value, middle⟩ <;> simp

variable {check : Except ε α}

/-- A check that comes first leaves the object as it is. -/
theorem exec_check_eq_error {state later : σ} {error : ε} :
    exec (liftM check >>= next) state = (.error error, later) ↔
      (check = .error error ∧ later = state) ∨
        ∃ value, check = .ok value ∧ exec (next value) state = (.error error, later) := by
  rw [exec_bind, exec_liftM]
  cases check <;> simp [eq_comm]

/-- A check that passed leaves the object as it is. -/
theorem exec_check_eq_ok {state later : σ} {result : β} :
    exec (liftM check >>= next) state = (.ok result, later) ↔
      ∃ value, check = .ok value ∧ exec (next value) state = (.ok result, later) := by
  rw [exec_bind, exec_liftM]
  cases check <;> simp

theorem exec_get_bind (next : σ -> Fallible ε σ α) (state : σ) :
    exec (get >>= next) state = exec (next state) state := rfl

theorem exec_modify_bind (change : σ -> σ) (next : PUnit -> Fallible ε σ α) (state : σ) :
    exec (modify change >>= next) state = exec (next ⟨⟩) (change state) := rfl

theorem exec_modifyGet_bind (change : σ -> α × σ) (next : α -> Fallible ε σ β) (state : σ) :
    exec (modifyGet change >>= next) state = exec (next (change state).1) (change state).2 := rfl

/-- Run an action and give its result, whether it failed or not. -/
def attempt (action : Fallible ε σ α) : Fallible ε σ (Except ε α) :=
  modifyGet action.exec

theorem exec_attempt_bind
    (action : Fallible ε σ α) (next : Except ε α -> Fallible ε σ β) (state : σ) :
    exec (action.attempt >>= next) state =
      exec (next (exec action state).1) (exec action state).2 := rfl

/-- Run an action on a part of the object. -/
def within (get : σ -> τ) (put : τ -> σ -> σ) (action : Fallible ε τ α) : Fallible ε σ α := do
  let result ← modifyGet fun state =>
    ((exec action (get state)).1, put (exec action (get state)).2 state)
  liftM result

@[simp] theorem exec_within
    (get : σ -> τ) (put : τ -> σ -> σ) (action : Fallible ε τ α) (state : σ) :
    exec (within get put action) state =
      ((exec action (get state)).1, put (exec action (get state)).2 state) := rfl

/-! ## What an action leaves as it was -/

/-- A part of the object is the same after the action, whether it failed or not. -/
def Keeps (part : σ -> τ) (action : Fallible ε σ α) : Prop :=
  ∀ state, part (exec action state).2 = part state

/-- A part of the object is the same after the action if it failed. -/
def Reverts (part : σ -> τ) (action : Fallible ε σ α) : Prop :=
  ∀ state error later, exec action state = (.error error, later) -> part later = part state

/-- The action does not fail. -/
def Total (action : Fallible ε σ α) : Prop :=
  ∀ state, ∃ value later, exec action state = (.ok value, later)

section

theorem total_pure (value : α) : Total (pure value : Fallible ε σ α) :=
  fun state => ⟨value, state, rfl⟩

theorem total_get : Total (get : Fallible ε σ σ) :=
  fun state => ⟨state, state, rfl⟩

theorem total_modify (change : σ -> σ) : Total (modify change : Fallible ε σ PUnit) :=
  fun state => ⟨⟨⟩, change state, rfl⟩

theorem total_modifyGet (change : σ -> α × σ) : Total (modifyGet change : Fallible ε σ α) :=
  fun state => ⟨(change state).1, (change state).2, rfl⟩

theorem total_attempt (action : Fallible ε σ α) : Total action.attempt :=
  total_modifyGet _

theorem total_bind
    (first : Total action)
    (second : ∀ value, Total (next value)) : Total (action >>= next) := by
  intro state
  obtain ⟨value, middle, found⟩ := first state
  obtain ⟨result, later, last⟩ := second value middle
  exact ⟨result, later, exec_bind_eq_ok.2 ⟨value, middle, found, last⟩⟩

theorem total_mapM {body : α -> Fallible ε σ β}
    (each : ∀ item, Total (body item))
    (items : List α) : Total (items.mapM body) := by
  induction items with
  | nil =>
      rw [List.mapM_nil]
      exact total_pure _
  | cons item items inductionHypothesis =>
      rw [List.mapM_cons]
      exact total_bind (each item) fun _ =>
        total_bind inductionHypothesis fun _ => total_pure _

theorem total_foldlM {body : β -> α -> Fallible ε σ β}
    (each : ∀ value item, Total (body value item))
    (items : List α)
    (value : β) : Total (items.foldlM body value) := by
  induction items generalizing value with
  | nil => exact total_pure value
  | cons item items inductionHypothesis =>
      rw [List.foldlM_cons]
      exact total_bind (each value item) inductionHypothesis

end

section

variable {part : σ -> τ}

theorem keeps_pure (value : α) : Keeps part (pure value : Fallible ε σ α) :=
  fun _ => rfl

theorem keeps_throw (error : ε) : Keeps part (throw error : Fallible ε σ α) :=
  fun _ => rfl

theorem keeps_get : Keeps part (get : Fallible ε σ σ) :=
  fun _ => rfl

theorem keeps_liftM (result : Except ε α) : Keeps part (liftM result : Fallible ε σ α) :=
  fun _ => rfl

theorem keeps_modify {change : σ -> σ}
    (same : ∀ state, part (change state) = part state) :
    Keeps part (modify change : Fallible ε σ PUnit) :=
  same

theorem keeps_modifyGet {change : σ -> α × σ}
    (same : ∀ state, part (change state).2 = part state) :
    Keeps part (modifyGet change : Fallible ε σ α) :=
  same

theorem keeps_bind
    (first : Keeps part action)
    (second : ∀ value, Keeps part (next value)) : Keeps part (action >>= next) := by
  intro state
  have kept := first state
  rw [exec_bind]
  revert kept
  rcases exec action state with ⟨error | value, later⟩
  · exact id
  · exact (second value later).trans

theorem keeps_within {υ : Type} {kept : σ -> υ} {put : τ -> σ -> σ}
    (same : ∀ value state, kept (put value state) = kept state)
    (get : σ -> τ)
    (action : Fallible ε τ α) : Keeps kept (within get put action) :=
  fun state => same _ state

theorem keeps_attempt {action : Fallible ε σ α} (kept : Keeps part action) :
    Keeps part action.attempt :=
  kept

theorem keeps_forM {items : List α} {body : α -> Fallible ε σ PUnit}
    (each : ∀ item ∈ items, Keeps part (body item)) : Keeps part (items.forM body) := by
  induction items with
  | nil => exact keeps_pure _
  | cons item items inductionHypothesis =>
      refine keeps_bind (each item List.mem_cons_self) fun _ => ?_
      exact inductionHypothesis fun other member => each other (List.mem_cons_of_mem _ member)

theorem keeps_mapM {items : List α} {body : α -> Fallible ε σ β}
    (each : ∀ item ∈ items, Keeps part (body item)) : Keeps part (items.mapM body) := by
  induction items with
  | nil =>
      rw [List.mapM_nil]
      exact keeps_pure _
  | cons item items inductionHypothesis =>
      rw [List.mapM_cons]
      refine keeps_bind (each item List.mem_cons_self) fun _ => keeps_bind ?_ fun _ => keeps_pure _
      exact inductionHypothesis fun other member => each other (List.mem_cons_of_mem _ member)

theorem Keeps.ite {first second : Fallible ε σ α} {condition : Prop}
    [Decidable condition] (left : Keeps part first)
    (right : Keeps part second) : Keeps part (if condition then first else second) := by
  split
  · exact left
  · exact right

theorem Keeps.reverts {action : Fallible ε σ α} (kept : Keeps part action) : Reverts part action := by
  intro state error later failed
  have same := kept state
  rwa [failed] at same

/-- Steps that leave the part as it was may come first. -/
theorem Keeps.reverts_bind
    (first : Keeps part action)
    (second : ∀ value, Reverts part (next value)) : Reverts part (action >>= next) := by
  intro state error later failed
  have kept := first state
  rw [exec_bind] at failed
  rcases found : exec action state with ⟨refusal | value, middle⟩
  · rw [found] at failed kept
    cases failed
    exact kept
  · rw [found] at failed kept
    exact (second value middle error later failed).trans kept

/-- What comes after the last change of the part must not fail. -/
theorem Reverts.bind_total
    (first : Reverts part action)
    (total : ∀ value, Total (next value)) : Reverts part (action >>= next) := by
  intro state error later failed
  rw [exec_bind] at failed
  rcases found : exec action state with ⟨refusal | value, middle⟩
  · rw [found] at failed
    cases failed
    exact first state _ _ found
  · rw [found] at failed
    obtain ⟨result, final, succeeded⟩ := total value middle
    cases succeeded.symm.trans failed

end

/-! ## What an action leaves behind -/

/-- The object has a property after the action, whether it failed or not. -/
def Leaves (holds : σ -> Prop) (action : Fallible ε σ α) (state : σ) : Prop :=
  holds (exec action state).2

section

variable {holds : σ -> Prop} {state : σ}

theorem leaves_pure {value : α} (now : holds state) :
    Leaves holds (pure value : Fallible ε σ α) state :=
  now

theorem leaves_bind
    (failed : ∀ error later, exec action state = (.error error, later) -> holds later)
    (succeeded : ∀ value later, exec action state = (.ok value, later) ->
      Leaves holds (next value) later) : Leaves holds (action >>= next) state := by
  rw [Leaves, exec_bind]
  rcases ran : exec action state with ⟨error | value, later⟩
  · exact failed error later ran
  · exact succeeded value later ran

theorem leaves_check
    (failed : holds state)
    (passed : ∀ value, check = .ok value -> Leaves holds (next value) state) :
    Leaves holds (liftM check >>= next) state := by
  rw [Leaves, exec_bind, exec_liftM]
  cases check with
  | error error => exact failed
  | ok value => exact passed value rfl

theorem leaves_get {next : σ -> Fallible ε σ α}
    (rest : Leaves holds (next state) state) : Leaves holds (get >>= next) state :=
  rest

theorem leaves_modify_bind {change : σ -> σ} {next : PUnit -> Fallible ε σ α}
    (rest : Leaves holds (next ⟨⟩) (change state)) : Leaves holds (modify change >>= next) state :=
  rest

theorem leaves_modifyGet_bind {change : σ -> α × σ}
    (rest : Leaves holds (next (change state).1) (change state).2) :
    Leaves holds (modifyGet change >>= next) state :=
  rest

theorem Leaves.ite {first second : Fallible ε σ α} {condition : Prop}
    [Decidable condition] (left : condition -> Leaves holds first state)
    (right : ¬ condition -> Leaves holds second state) :
    Leaves holds (if condition then first else second) state := by
  split
  · exact left ‹_›
  · exact right ‹_›

end

/-! ## What an action gives -/

/-- Whatever the action gives when it succeeds has a property. -/
def Yields (good : α -> Prop) (action : Fallible ε σ α) : Prop :=
  ∀ state value later, exec action state = (.ok value, later) -> good value

section

variable {good : α -> Prop}

theorem yields_pure {value : α} (isGood : good value) :
    Yields good (pure value : Fallible ε σ α) := by
  rintro _ _ _ ⟨⟩
  exact isGood

theorem yields_any (action : Fallible ε σ α) : Yields (fun _ => True) action :=
  fun _ _ _ _ => trivial

theorem yields_bind {action : Fallible ε σ β} {next : β -> Fallible ε σ α} {before : β -> Prop}
    (first : Yields before action)
    (second : ∀ value, before value -> Yields good (next value)) :
    Yields good (action >>= next) := by
  intro state result later succeeded
  obtain ⟨value, middle, found, rest⟩ := exec_bind_eq_ok.1 succeeded
  exact second value (first state value middle found) middle result later rest

/-- What comes first does not matter. -/
theorem yields_bind_any {action : Fallible ε σ β} {next : β -> Fallible ε σ α}
    (second : ∀ value, Yields good (next value)) : Yields good (action >>= next) :=
  yields_bind (yields_any action) fun value _ => second value

theorem yields_mapM {body : β -> Fallible ε σ α}
    (each : ∀ item, Yields good (body item))
    (items : List β) : Yields (fun values => ∀ value ∈ values, good value) (items.mapM body) := by
  induction items with
  | nil =>
      rw [List.mapM_nil]
      exact yields_pure (by simp)
  | cons item items inductionHypothesis =>
      rw [List.mapM_cons]
      refine yields_bind (each item) fun value isGood =>
        yields_bind inductionHypothesis fun values rest => yields_pure ?_
      exact List.forall_mem_cons.2 ⟨isGood, rest⟩

end

/-! ## How an action ends -/

/-- The object has a property after a failure, and after a success one that may depend on
the result. -/
def Ends
    (action : Fallible ε σ α) (state : σ) (failed : σ -> Prop) (done : α -> σ -> Prop) : Prop :=
  match exec action state with
  | (.error _, later) => failed later
  | (.ok value, later) => done value later

section

variable {state : σ} {failed : σ -> Prop} {done : α -> σ -> Prop}

theorem Ends.of_error {error : ε} {later : σ}
    (ends : Ends action state failed done)
    (ran : exec action state = (.error error, later)) : failed later := by
  rwa [Ends, ran] at ends

theorem Ends.of_ok {value : α} {later : σ}
    (ends : Ends action state failed done)
    (ran : exec action state = (.ok value, later)) : done value later := by
  rwa [Ends, ran] at ends

theorem ends_pure {value : α} (now : done value state) :
    Ends (pure value : Fallible ε σ α) state failed done :=
  now

theorem ends_throw {error : ε} (now : failed state) :
    Ends (throw error : Fallible ε σ α) state failed done :=
  now

theorem Ends.mono {lost : σ -> Prop} {won : α -> σ -> Prop}
    (ends : Ends action state failed done) (failure : ∀ later, failed later -> lost later)
    (success : ∀ value later, done value later -> won value later) :
    Ends action state lost won := by
  unfold Ends at ends ⊢
  split
  · next error later ran =>
      rw [ran] at ends
      exact failure later ends
  · next value later ran =>
      rw [ran] at ends
      exact success value later ends

theorem Ends.bind {action : Fallible ε σ β} {next : β -> Fallible ε σ α} {middle : β -> σ -> Prop}
    (first : Ends action state failed middle)
    (second : ∀ value later, middle value later -> Ends (next value) later failed done) :
    Ends (action >>= next) state failed done := by
  unfold Ends at first
  rw [Ends, exec_bind]
  rcases ran : exec action state with ⟨error | value, later⟩
  · rwa [ran] at first
  · rw [ran] at first
    exact second value later first

theorem ends_check {check : Except ε β} {next : β -> Fallible ε σ α}
    (now : failed state)
    (passed : ∀ value, check = .ok value -> Ends (next value) state failed done) :
    Ends (liftM check >>= next) state failed done := by
  rw [Ends, exec_bind, exec_liftM]
  cases check with
  | error error => exact now
  | ok value => exact passed value rfl

/-- A check of which it is known that it passes. -/
theorem ends_check_ok {check : Except ε β} {next : β -> Fallible ε σ α} {value : β}
    (found : check = .ok value)
    (rest : Ends (next value) state failed done) :
    Ends (liftM check >>= next) state failed done := by
  subst found
  exact rest

theorem ends_get_bind {next : σ -> Fallible ε σ α}
    (rest : Ends (next state) state failed done) : Ends (get >>= next) state failed done :=
  rest

theorem ends_modify_bind {change : σ -> σ} {next : PUnit -> Fallible ε σ α}
    (rest : Ends (next ⟨⟩) (change state) failed done) :
    Ends (modify change >>= next) state failed done :=
  rest

/-- An action that is tried ends in both ways, and is followed either way. -/
theorem Ends.attempt_bind
    {action : Fallible ε σ β} {next : Except ε β -> Fallible ε σ α} {lost : σ -> Prop}
    {won : β -> σ -> Prop} (tried : Ends action state lost won)
    (success : ∀ value later, won value later -> Ends (next (.ok value)) later failed done)
    (failure : ∀ error later, lost later -> Ends (next (.error error)) later failed done) :
    Ends (action.attempt >>= next) state failed done := by
  unfold Ends at tried
  rw [Ends, exec_attempt_bind]
  rcases ran : exec action state with ⟨error | value, later⟩
  · rw [ran] at tried
    exact failure error later tried
  · rw [ran] at tried
    exact success value later tried

/-- A part that the action keeps, and what it yields. -/
theorem Keeps.ends {part : σ -> τ} {good : α -> Prop}
    (kept : Keeps part action) (yields : Yields good action) (state : σ) :
    Ends action state (fun later => part later = part state)
      fun value later => part later = part state ∧ good value := by
  have same := kept state
  unfold Ends
  split
  · next ran =>
      rw [ran] at same
      exact same
  · next ran =>
      rw [ran] at same
      exact ⟨same, yields _ _ _ ran⟩

/-- What keeps a part and does not fail, ends in one way only. -/
theorem Keeps.ends_total {part : σ -> τ}
    (kept : Keeps part action) (total : Total action) (state : σ) :
    Ends action state failed fun _ later => part later = part state := by
  obtain ⟨value, later, ran⟩ := total state
  have same := kept state
  rw [ran] at same
  rw [Ends, ran]
  exact same

end

/-! ## When an action succeeds -/

/-- The action succeeds exactly under a condition, and says what it has done then. -/
def Settles
    (action : Fallible ε σ α) (state : σ) (passes : Prop) (ends : α -> σ -> Prop) : Prop :=
  (passes -> ∃ value later, exec action state = (.ok value, later) ∧ ends value later) ∧
    (¬ passes -> ∃ error later, exec action state = (.error error, later))

section

variable {state : σ} {passes : Prop} {ends : α -> σ -> Prop}

section

variable (settles : Settles action state passes ends)

include settles

theorem Settles.of_ok {value : α} {later : σ}
    (succeeded : exec action state = (.ok value, later)) : passes ∧ ends value later := by
  by_cases passed : passes
  · obtain ⟨other, last, found, ended⟩ := settles.1 passed
    cases succeeded.symm.trans found
    exact ⟨passed, ended⟩
  · obtain ⟨error, last, failed⟩ := settles.2 passed
    cases succeeded.symm.trans failed

theorem Settles.succeeds_iff :
    (∃ value later, exec action state = (.ok value, later)) ↔ passes := by
  constructor
  · rintro ⟨value, later, succeeded⟩
    exact (settles.of_ok succeeded).1
  · intro passed
    obtain ⟨value, later, succeeded, -⟩ := settles.1 passed
    exact ⟨value, later, succeeded⟩

theorem Settles.mono {other : Prop} {more : α -> σ -> Prop}
    (same : other ↔ passes)
    (implies : passes -> ∀ value later, ends value later -> more value later) :
    Settles action state other more := by
  refine ⟨fun passed => ?_, fun refused => settles.2 (mt same.2 refused)⟩
  obtain ⟨value, later, found, ended⟩ := settles.1 (same.1 passed)
  exact ⟨value, later, found, implies (same.1 passed) value later ended⟩

/-- What the action gave and left is what its run shows. -/
theorem Settles.ran :
    Settles action state passes fun value later =>
      ends value later ∧ exec action state = (.ok value, later) := by
  refine ⟨fun passed => ?_, settles.2⟩
  obtain ⟨value, later, found, ended⟩ := settles.1 passed
  exact ⟨value, later, found, ended, found⟩

end

theorem settles_pure {value : α} (ended : ends value state) :
    Settles (pure value : Fallible ε σ α) state True ends :=
  ⟨fun _ => ⟨value, state, rfl, ended⟩, fun refused => absurd trivial refused⟩

theorem settles_bind {first second : Prop} {middle : α -> σ -> Prop} {ends : β -> σ -> Prop}
    (before : Settles action state first middle)
    (after : first -> ∀ value later, middle value later ->
      Settles (next value) later second ends) :
    Settles (action >>= next) state (first ∧ second) ends := by
  constructor
  · rintro ⟨passedFirst, passedSecond⟩
    obtain ⟨value, later, found, ended⟩ := before.1 passedFirst
    obtain ⟨result, last, finished, done⟩ :=
      (after passedFirst value later ended).1 passedSecond
    exact ⟨result, last, exec_bind_eq_ok.2 ⟨value, later, found, finished⟩, done⟩
  · intro refused
    by_cases passedFirst : first
    · obtain ⟨value, later, found, ended⟩ := before.1 passedFirst
      obtain ⟨error, last, failed⟩ :=
        (after passedFirst value later ended).2 fun passed => refused ⟨passedFirst, passed⟩
      exact ⟨error, last, exec_bind_eq_error.2 (.inr ⟨value, later, found, failed⟩)⟩
    · obtain ⟨error, later, failed⟩ := before.2 passedFirst
      exact ⟨error, later, exec_bind_eq_error.2 (.inl failed)⟩

theorem settles_liftM
    (decides : passes ↔ ∃ value, check = .ok value)
    (ended : ∀ value, check = .ok value -> ends value state) :
    Settles (liftM check : Fallible ε σ α) state passes ends := by
  constructor
  · intro passed
    obtain ⟨value, found⟩ := decides.1 passed
    exact ⟨value, state, by rw [exec_liftM, found], ended value found⟩
  · intro refused
    cases found : check with
    | error error => exact ⟨error, state, by rw [exec_liftM]⟩
    | ok value => exact absurd (decides.2 ⟨value, found⟩) refused

theorem settles_check {first second : Prop} {ends : β -> σ -> Prop}
    (decides : first ↔ ∃ value, check = .ok value)
    (after : ∀ value, check = .ok value -> Settles (next value) state second ends) :
    Settles (liftM check >>= next) state (first ∧ second) ends := by
  refine settles_bind (settles_liftM decides fun value found => ⟨found, rfl⟩ :
    Settles (liftM check : Fallible ε σ α) state first
      fun value later => check = .ok value ∧ later = state) ?_
  rintro - value later ⟨found, rfl⟩
  exact after value found

/-- What follows does not fail. -/
theorem settles_bind_total {first : Prop} {middle : α -> σ -> Prop}
    (before : Settles action state first middle)
    (after : ∀ value, Total (next value)) :
    Settles (action >>= next) state first fun _ _ => True := by
  have whole : Settles (action >>= next) state (first ∧ True) fun _ _ => True := by
    refine settles_bind before fun _ value later _ => ⟨fun _ => ?_, fun no => absurd trivial no⟩
    obtain ⟨result, last, found⟩ := after value later
    exact ⟨result, last, found, trivial⟩
  exact whole.mono (and_true first).symm.to_iff fun _ _ _ => id

/-- A check of which it is known that it passes. -/
theorem settles_check_ok {ends : β -> σ -> Prop} {value : α}
    (found : check = .ok value)
    (rest : Settles (next value) state passes ends) :
    Settles (liftM check >>= next) state passes ends := by
  subst found
  exact rest

theorem settles_check_error {ends : β -> σ -> Prop} {error : ε}
    (found : check = .error error) : Settles (liftM check >>= next) state False ends :=
  ⟨False.elim, fun _ => ⟨error, state, by rw [exec_bind, exec_liftM, found]⟩⟩

/-- A check after which nothing can fail. -/
theorem settles_check_last {first : Prop} {ends : β -> σ -> Prop}
    (decides : first ↔ ∃ value, check = .ok value)
    (after : ∀ value, check = .ok value -> Settles (next value) state True ends) :
    Settles (liftM check >>= next) state first ends :=
  (settles_check decides after).mono (and_true first).symm.to_iff fun _ _ _ => id

theorem settles_get_bind {next : σ -> Fallible ε σ α}
    (rest : Settles (next state) state passes ends) : Settles (get >>= next) state passes ends :=
  rest

theorem settles_modify_bind {change : σ -> σ} {next : PUnit -> Fallible ε σ α}
    (rest : Settles (next ⟨⟩) (change state) passes ends) :
    Settles (modify change >>= next) state passes ends :=
  rest

theorem settles_modifyGet_bind {change : σ -> β × σ} {next : β -> Fallible ε σ α}
    (rest : Settles (next (change state).1) (change state).2 passes ends) :
    Settles (modifyGet change >>= next) state passes ends :=
  rest

/-- What was tried is undone after a failure, and the failure passed on. -/
theorem settles_attempt
    {next : Except ε α -> Fallible ε σ β} {first second : Prop} {middle : α -> σ -> Prop}
    {ends : β -> σ -> Prop} (before : Settles action state first middle)
    (after : first -> ∀ value later, middle value later ->
      Settles (next (.ok value)) later second ends)
    (passesOn : ∀ error later, ∃ other last,
      exec (next (.error error)) later = (.error other, last)) :
    Settles (action.attempt >>= next) state (first ∧ second) ends := by
  constructor
  · rintro ⟨passedFirst, passedSecond⟩
    obtain ⟨value, later, found, ended⟩ := before.1 passedFirst
    obtain ⟨result, last, finished⟩ := (after passedFirst value later ended).1 passedSecond
    exact ⟨result, last, by rw [exec_attempt_bind, found]; exact finished.1, finished.2⟩
  · intro refused
    by_cases passedFirst : first
    · obtain ⟨value, later, found, ended⟩ := before.1 passedFirst
      obtain ⟨error, last, failed⟩ :=
        (after passedFirst value later ended).2 fun passed => refused ⟨passedFirst, passed⟩
      exact ⟨error, last, by rw [exec_attempt_bind, found]; exact failed⟩
    · obtain ⟨error, later, failed⟩ := before.2 passedFirst
      obtain ⟨other, last, passed⟩ := passesOn error later
      exact ⟨other, last, by rw [exec_attempt_bind, failed]; exact passed⟩

/-- A list of actions, each of which keeps an invariant that counts them. -/
theorem settles_mapM {body : α -> Fallible ε σ β}
    (holds : Nat -> σ -> Prop) (weight : α -> Nat) (passes : α -> Prop) (good : α -> β -> Prop)
    (each : ∀ item count state, holds count state ->
      Settles (body item) state (passes item) fun value later =>
        holds (count + weight item) later ∧ good item value)
    (items : List α)
    {count : Nat} {state : σ} (initially : holds count state) :
    Settles (items.mapM body) state (∀ item ∈ items, passes item) fun values later =>
      holds (count + (items.map weight).sum) later ∧
        ∀ item ∈ items, ∃ value ∈ values, good item value := by
  induction items generalizing count state with
  | nil =>
      rw [List.mapM_nil]
      exact (settles_pure ⟨initially, by simp⟩).mono (by simp) fun _ _ _ => id
  | cons item items inductionHypothesis =>
      rw [List.mapM_cons]
      refine Settles.mono (settles_bind (each item count state initially) fun _ value later ended =>
        settles_bind (inductionHypothesis ended.1) fun _ values last rest =>
          settles_pure ⟨?count, ?goods⟩) (by simp) fun _ _ _ => id
      case count =>
        rw [List.map_cons, List.sum_cons, ← Nat.add_assoc]
        exact rest.1
      case goods =>
        intro other member
        rcases List.mem_cons.1 member with rfl | member
        · exact ⟨value, List.mem_cons_self, ended.2⟩
        · obtain ⟨found, inside, isGood⟩ := rest.2 other member
          exact ⟨found, List.mem_cons_of_mem _ inside, isGood⟩

end

/-! ## Past the point of no return -/

/-- A check that comes first changes nothing if it fails. -/
theorem unchanged_check_iff
    {part : σ -> τ} {check : Except ε PUnit} {next : PUnit -> Fallible ε σ β} {state : σ} :
    (∀ error later, exec (liftM check >>= next) state = (.error error, later) ->
      part later = part state) ↔
    (check = .ok ⟨⟩ -> ∀ error later, exec (next ⟨⟩) state = (.error error, later) ->
      part later = part state) := by
  rw [exec_bind, exec_liftM]
  cases check with
  | error error =>
      refine iff_of_true ?_ (fun passed => nomatch passed)
      rintro _ _ ⟨⟩
      rfl
  | ok value => exact ⟨fun unchanged _ => unchanged, fun unchanged => unchanged rfl⟩

/-- Once a part was changed and no failure changes it back, what follows must not fail. -/
theorem unchanged_iff_of_commit {part : σ -> τ} {first : Fallible ε σ α} {state : σ}
    (refused : ∀ error later, exec first state = (.error error, later) ->
      part later = part state)
    (commits : ∀ value later, exec first state = (.ok value, later) -> part later ≠ part state)
    (stays : ∀ value, Reverts part (next value)) :
    (∀ error later, exec (first >>= next) state = (.error error, later) ->
      part later = part state) ↔
    ∀ value middle, exec first state = (.ok value, middle) ->
      ∃ result later, exec (next value) middle = (.ok result, later) := by
  constructor
  · intro unchanged value middle found
    rcases rest : exec (next value) middle with ⟨error | result, later⟩
    · have failed : exec (first >>= next) state = (.error error, later) :=
        exec_bind_eq_error.2 (.inr ⟨value, middle, found, rest⟩)
      have same := unchanged error later failed
      rw [stays value middle error later rest] at same
      exact absurd same (commits value middle found)
    · exact ⟨result, later, rfl⟩
  · intro succeeds error later failed
    obtain first | ⟨value, middle, found, rest⟩ := exec_bind_eq_error.1 failed
    · exact refused error later first
    · obtain ⟨result, last, succeeded⟩ := succeeds value middle found
      cases rest.symm.trans succeeded

end Fallible
