import Parvane.Anonymous.Isolation

/-!
# No connection is lost

The host closes a connection when the planner says so, or reports that it broke.  A
connection of which neither happened is still kept, unless a request for its recipient
came after the minute: then the planner forgets it.
-/

namespace Parvane.Anonymous

open Wire History

/-- What the planner keeps agrees with what the host was told. -/
structure Accounts (planner : AnonPlanner) (events : List Event) : Prop where
  accounted : ∀ before handing after, events = before ++ .handed handing :: after ->
    handing.opens = true -> handing.assignment.closeAfter = false ->
      (∃ conn ∈ planner.conns, conn.id = handing.conn ∧ conn.target = handing.target) ∨
        ∃ event ∈ after, event.Ends handing.conn
  heard : ∀ conn ∈ planner.conns,
    .handed ⟨conn.target, conn.openedMs, ⟨conn.id, true, false⟩⟩ ∈ events

/-- No connection is forgotten for a new one. -/
def AnonPlanner.Unreplaced (planner : AnonPlanner) (nowMs : Int64) (target : AnonTarget) : Prop :=
  target = .public ∨ (planner.reused target nowMs).isSome ∨
    ∀ conn ∈ planner.conns, conn.target ≠ target

/-- The call forgets no connection, and keeps none that the host does not hear of. -/
def Keeping (library : Library) (planner : AnonPlanner) : Call -> Prop
  | .assign target nowMs => planner.Unreplaced nowMs target
  | .plan requests nowMs =>
      match (targets library requests).2 with
      | none =>
          AnonPlanner.Along (fun planner target => planner.Unreplaced nowMs target) nowMs planner
            (targets library requests).1
      | some _ => planner.Shares nowMs (targets library requests).1
  | .expired _ => True
  | .closed _ => True

namespace Accounts

variable {planner next : AnonPlanner} {past : List Event} {target : AnonTarget} {nowMs : Int64}

theorem start : Accounts {} [] where
  accounted before handing after split := by simp at split
  heard conn kept := by cases kept

section

variable (accounts : Accounts planner past)

include accounts

/-- What one more entry has to say. -/
theorem concat {event : Event}
    (kept : ∀ conn ∈ planner.conns, conn ∈ next.conns ∨ event.Ends conn.id)
    (tracked : ∀ handing, event = .handed handing -> handing.opens = true ->
      handing.assignment.closeAfter = false ->
        ∃ conn ∈ next.conns, conn.id = handing.conn ∧ conn.target = handing.target)
    (heard : ∀ conn ∈ next.conns, conn ∈ planner.conns ∨
      event = .handed ⟨conn.target, conn.openedMs, ⟨conn.id, true, false⟩⟩) :
    Accounts next (past ++ [event]) where
  accounted before handing after split opens stays := by
    rcases concat_eq_split.1 split with ⟨rfl, isLast, rfl⟩ | ⟨rest, rfl, earlier⟩
    · exact .inl (tracked handing isLast.symm opens stays)
    · rcases accounts.accounted before handing rest earlier opens stays with
        ⟨conn, held, same, forTarget⟩ | ⟨ending, member, ends⟩
      · rcases kept conn held with still | ends
        · exact .inl ⟨conn, still, same, forTarget⟩
        · refine .inr ⟨event, List.mem_append_right _ (List.mem_singleton.2 rfl), ?_⟩
          rwa [← same]
      · exact .inr ⟨ending, List.mem_append_left _ member, ends⟩
  heard conn held := by
    rcases heard conn held with old | isNew
    · exact List.mem_append_left _ (accounts.heard conn old)
    · exact List.mem_append_right _ (List.mem_singleton.2 isNew.symm)

/-- Only the connections matter. -/
theorem of_conns
    (same : next.conns = planner.conns) : Accounts next past where
  accounted := by
    rw [same]
    exact accounts.accounted
  heard := by
    rw [same]
    exact accounts.heard

theorem assign
    (unreplaced : planner.Unreplaced nowMs target) :
    Accounts (planner.assign target nowMs).2
      (past ++ [.handed ⟨target, nowMs, (planner.assign target nowMs).1⟩]) := by
  cases found : planner.reused target nowMs with
  | some conn =>
      rw [AnonPlanner.assign_of_reused found]
      refine accounts.concat (fun conn held => .inl held) ?_ (fun conn held => .inl held)
      intro handing same opens
      rw [← Event.handed.inj same] at opens
      cases opens
  | none =>
      by_cases named : target = .public
      · subst named
        rw [AnonPlanner.assign_public]
        refine accounts.concat (fun conn held => .inl held) ?_ (fun conn held => .inl held)
        intro handing same _ stays
        rw [← Event.handed.inj same] at stays
        cases stays
      · have others : ∀ conn ∈ planner.conns, conn.target ≠ target := by
          rcases unreplaced with isPublic | isShared | others
          · exact absurd isPublic named
          · rw [found] at isShared
            cases isShared
          · exact others
        rw [AnonPlanner.assign_of_new named found]
        apply accounts.concat
        · intro conn held
          apply Or.inl
          apply List.mem_append_left
          exact List.mem_filter.2 ⟨held, decide_eq_true (others conn held)⟩
        · intro handing same _ _
          rw [← Event.handed.inj same]
          exact ⟨_, List.mem_append_right _ (List.mem_singleton.2 rfl), rfl, rfl⟩
        · intro conn held
          rcases List.mem_append.1 held with old | isNew
          · exact .inl (List.mem_filter.1 old).1
          · rw [List.mem_singleton.1 isNew]
            exact .inr rfl

theorem assignAll {targets : List AnonTarget}
    (unreplaced : AnonPlanner.Along (fun planner target => planner.Unreplaced nowMs target) nowMs
      planner targets) :
    Accounts (planner.assignAll nowMs targets).2
      (past ++ handings nowMs targets (planner.assignAll nowMs targets).1) := by
  induction targets generalizing planner past with
  | nil =>
      rw [AnonPlanner.assignAll, handings, List.zipWith_nil_left, List.append_nil]
      exact accounts
  | cons target targets inductionHypothesis =>
      have rest := inductionHypothesis (accounts.assign unreplaced.1) unreplaced.2
      rwa [List.append_assoc, List.singleton_append] at rest

theorem expired (nowMs : Int64) :
    Accounts (planner.expired nowMs).2 (past ++ [.expired (planner.expired nowMs).1]) := by
  apply accounts.concat
  · intro conn held
    cases young : conn.inSeries nowMs with
    | true => exact .inl (AnonPlanner.mem_conns_expired.2 ⟨held, young⟩)
    | false => exact .inr (AnonPlanner.mem_expired.2 ⟨conn, held, rfl, young⟩)
  · intro handing same
    cases same
  · intro conn held
    exact .inl (AnonPlanner.mem_conns_expired.1 held).1

theorem closed (id : UInt64) : Accounts (planner.closed id) (past ++ [.closed id]) := by
  apply accounts.concat
  · intro conn held
    by_cases same : conn.id = id
    · exact .inr same.symm
    · exact .inl (AnonPlanner.mem_conns_closed.2 ⟨held, same⟩)
  · intro handing same
    cases same
  · intro conn held
    exact .inl (AnonPlanner.mem_conns_closed.1 held).1

end

end Accounts

/-! ## Plans that fail -/

namespace AnonPlanner

variable {planner : AnonPlanner} {nowMs : Int64}

/-- Sharing adds no connection. -/
theorem conns_assignAll_of_shares {targets : List AnonTarget}
    (shares : planner.Shares nowMs targets) :
    (planner.assignAll nowMs targets).2.conns = planner.conns := by
  induction targets generalizing planner with
  | nil => rfl
  | cons target targets inductionHypothesis =>
      have later := fun other member => shares other (List.mem_cons_of_mem _ member)
      rw [assignAll]
      rcases shares target List.mem_cons_self with rfl | isShared
      · rw [assign_public]
        exact @inductionHypothesis ⟨planner.conns, planner.nextId + 1⟩ later
      · obtain ⟨conn, found⟩ := Option.isSome_iff_exists.1 isShared
        rw [assign_of_reused found]
        exact inductionHypothesis later

theorem nextId_assign_of_new {target : AnonTarget}
    (isNew : planner.reused target nowMs = none) :
    (planner.assign target nowMs).2.nextId = planner.nextId + 1 := by
  rw [assign, isNew]

/-- The counter tells how many connections were chosen anew. -/
theorem exists_nextId_assignAll
    (planner : AnonPlanner) (nowMs : Int64) (targets : List AnonTarget) :
    ∃ count ≤ targets.length,
      (planner.assignAll nowMs targets).2.nextId = planner.nextId + UInt64.ofNat count ∧
        (count = 0 -> ∀ target ∈ targets, (planner.reused target nowMs).isSome) := by
  induction targets generalizing planner with
  | nil => exact ⟨0, le_rfl, by simp [assignAll], by simp⟩
  | cons target targets inductionHypothesis =>
      obtain ⟨count, few, next, none⟩ := inductionHypothesis (planner.assign target nowMs).2
      cases found : planner.reused target nowMs with
      | some conn =>
          rw [assign_of_reused found] at next none
          refine ⟨count, Nat.le_succ_of_le few, ?_, ?_⟩
          · rw [assignAll, assign_of_reused found]
            exact next
          · intro zero other member
            rcases List.mem_cons.1 member with rfl | member
            · rw [found]
              rfl
            · exact none zero other member
      | none =>
          refine ⟨count + 1, Nat.succ_le_succ few, ?_, ?_⟩
          · rw [assignAll, next, nextId_assign_of_new found, UInt64.ofNat_add, UInt64.add_assoc,
              UInt64.add_comm 1]
            rfl
          · intro zero
            cases zero

/-- A plan keeps the planner as it was exactly if every request shares a connection. -/
theorem assignAll_unchanged_iff {targets : List AnonTarget}
    (few : targets.length < UInt64.size) :
    (planner.assignAll nowMs targets).2 = planner ↔
      ∀ target ∈ targets, (planner.reused target nowMs).isSome := by
  constructor
  · intro same
    obtain ⟨count, small, next, none⟩ := exists_nextId_assignAll planner nowMs targets
    rw [same] at next
    apply none
    have zero : UInt64.ofNat count = 0 := by
      have cancelled := congrArg (· - planner.nextId) next.symm
      rwa [UInt64.add_comm, UInt64.add_sub_cancel, UInt64.sub_self] at cancelled
    have number := congrArg UInt64.toNat zero
    rwa [UInt64.toNat_ofNat_of_lt' (by omega)] at number
  · intro shares
    induction targets with
    | nil => rfl
    | cons target targets inductionHypothesis =>
        obtain ⟨conn, found⟩ := Option.isSome_iff_exists.1 (shares target List.mem_cons_self)
        rw [assignAll, assign_of_reused found]
        apply inductionHypothesis (by rw [List.length_cons] at few; omega)
        intro other member
        exact shares other (List.mem_cons_of_mem _ member)

end AnonPlanner

theorem length_targets (library : Library) (requests : List Request) :
    (targets library requests).1.length ≤ requests.length := by
  induction requests with
  | nil => exact le_rfl
  | cons request requests inductionHypothesis =>
      rw [targets]
      cases anonTarget library request.1 request.2 with
      | error error => exact Nat.zero_le _
      | ok target => exact Nat.succ_le_succ inductionHypothesis

namespace Accounts

variable {planner : AnonPlanner} {past : List Event}

/-- One call. -/
theorem perform {library : Library} {call : Call}
    (accounts : Accounts planner past) (keeping : Keeping library planner call) :
    Accounts (perform library planner call).2
      (past ++ (Anonymous.perform library planner call).1) := by
  cases call with
  | assign target nowMs => exact accounts.assign keeping
  | plan requests nowMs =>
      rw [Keeping] at keeping
      rw [Anonymous.perform, AnonPlanner.exec_plan]
      cases failure : (targets library requests).2 with
      | none =>
          rw [failure] at keeping
          exact accounts.assignAll keeping
      | some error =>
          rw [failure] at keeping
          rw [List.append_nil]
          exact accounts.of_conns (AnonPlanner.conns_assignAll_of_shares keeping)
  | expired nowMs => exact accounts.expired nowMs
  | closed id => exact accounts.closed id

/-- All calls of a run. -/
theorem run {library : Library}
    {labels : List (Call × List Event)}
    {final : AnonPlanner} (accounts : Accounts planner past)
    (run : Run (fun planner label next =>
      Keeping library planner label.1 ∧ Step library planner label next) planner labels final) :
    Accounts final (past ++ history labels) := by
  induction run generalizing past with
  | nil planner =>
      rw [history, List.flatMap_nil, List.append_nil]
      exact accounts
  | @cons planner next final label labels first rest inductionHypothesis =>
      obtain ⟨keeping, step⟩ := first
      have after := accounts.perform keeping
      rw [show Anonymous.perform library planner label.1 = (label.2, next) from step] at after
      rw [history, List.flatMap_cons, ← List.append_assoc]
      exact inductionHypothesis after

end Accounts

/-- Every connection is accounted for as long as none is forgotten for a new one, and a
failed plan leaves the planner as it was exactly if it chose no connection anew. -/
theorem accounts_of_keeping (library : Library) :
    (∀ labels planner, Run (fun planner label next =>
        Keeping library planner label.1 ∧ Step library planner label next) {} labels planner ->
      Accounts planner (history labels)) ∧
    ∀ planner requests nowMs error later, requests.length < UInt64.size ->
      Fallible.exec (AnonPlanner.plan library requests nowMs) planner = (.error error, later) ->
        (later = planner ↔
          ∀ target ∈ (targets library requests).1, (planner.reused target nowMs).isSome) := by
  constructor
  · intro labels planner run
    exact Accounts.start.run run
  · intro planner requests nowMs error later few failed
    rw [AnonPlanner.exec_plan] at failed
    rw [← (Prod.mk.inj failed).2]
    exact AnonPlanner.assignAll_unchanged_iff ((length_targets library requests).trans_lt few)

/-- Two messages for a user, more than a minute apart. -/
def forgotten : List (Call × List Event) :=
  [(.assign (.user "bob@x") 0, [.handed ⟨.user "bob@x", 0, ⟨1, true, false⟩⟩]),
    (.assign (.user "bob@x") 60000, [.handed ⟨.user "bob@x", 60000, ⟨2, true, false⟩⟩])]

/-- The first connection is forgotten.  And a plan that fails at its second request keeps a
connection for the first. -/
theorem not_accounts :
    (∃ planner, Run (Step sampleLibrary) {} forgotten planner ∧
      ¬ Accounts planner (history forgotten)) ∧
    Fallible.exec (AnonPlanner.plan sampleLibrary
        [("msg.deliver_group", groupBody), ("msg.deliver_sealed", [])] 0) {} =
      (.error (.invalidField "recipient"), ⟨[⟨1, .group [1], 0⟩], 1⟩) := by
  refine ⟨⟨⟨[⟨2, .user "bob@x", 60000⟩], 2⟩, .cons rfl (.cons rfl (.nil _)), ?_⟩, rfl⟩
  intro accounts
  rcases accounts.accounted [] ⟨.user "bob@x", 0, ⟨1, true, false⟩⟩
    [.handed ⟨.user "bob@x", 60000, ⟨2, true, false⟩⟩] rfl rfl rfl with
    ⟨conn, held, same, -⟩ | ⟨event, member, ends⟩
  · rw [List.mem_singleton.1 held] at same
    exact absurd same (by decide)
  · rw [List.mem_singleton.1 member] at ends
    exact ends

end Parvane.Anonymous
