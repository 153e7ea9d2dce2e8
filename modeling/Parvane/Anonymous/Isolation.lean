import Parvane.Anonymous.Planner

/-!
# Recipients do not share connections

The host uses a connection for one recipient, and opens it for the first request.  This
rests on the numbers of connections, which must not run out, on the clock, whose times must
not be further apart than a machine integer can tell, and on the host being told of each
connection that the planner keeps: a plan that fails after it chose a new one tells nothing.
-/

namespace Parvane.Anonymous

open Wire History

/-- The connection was given out and is over. -/
def Ended (id : UInt64) (events : List Event) : Prop :=
  ∃ before event after, events = before ++ event :: after ∧ event.Ends id ∧
    ∃ handing, .handed handing ∈ before ∧ handing.conn = id

/-- What the host was told about connections keeps recipients apart. -/
structure Isolated (events : List Event) : Prop where
  sameTarget : ∀ first second, .handed first ∈ events -> .handed second ∈ events ->
    first.conn = second.conn -> first.target = second.target
  firstOpens : ∀ before handing after, events = before ++ .handed handing :: after ->
    (handing.opens = true ↔ ∀ other, .handed other ∈ before -> other.conn ≠ handing.conn)
  publicOnce : ∀ before handing after, events = before ++ .handed handing :: after ->
    handing.target = .public -> ∀ other, .handed other ∈ before ++ after ->
      other.conn ≠ handing.conn
  young : ∀ before handing after, events = before ++ .handed handing :: after ->
    handing.opens = false -> ∃ first, .handed first ∈ before ∧ first.conn = handing.conn ∧
      first.opens = true ∧ handing.nowMs.toInt - first.nowMs.toInt < anonSeriesMs.toInt
  neverAgain : ∀ before handing after, events = before ++ .handed handing :: after ->
    ¬ Ended handing.conn before

/-! ## When the planner can be relied on -/

namespace AnonPlanner

/-- There is another number for a connection, should one be opened. -/
def Numbered (planner : AnonPlanner) (nowMs : Int64) (target : AnonTarget) : Prop :=
  planner.reused target nowMs = none -> planner.nextId.toNat + 1 < UInt64.size

/-- The age of the connection of a recipient is a machine integer. -/
def Measurable (planner : AnonPlanner) (nowMs : Int64) (target : AnonTarget) : Prop :=
  ∀ conn ∈ planner.conns, conn.target = target ->
    nowMs.toInt - conn.openedMs.toInt < 2 ^ 63

/-- Each recipient finds the planner in order. -/
def Along (fine : AnonPlanner -> AnonTarget -> Prop) (nowMs : Int64) :
    AnonPlanner -> List AnonTarget -> Prop
  | _, [] => True
  | planner, target :: targets =>
      fine planner target ∧ Along fine nowMs (planner.assign target nowMs).2 targets

/-- A plan that fails now leaves no new connection for these recipients. -/
def Shares (planner : AnonPlanner) (nowMs : Int64) (targets : List AnonTarget) : Prop :=
  ∀ target ∈ targets, target = .public ∨ (planner.reused target nowMs).isSome

end AnonPlanner

open AnonPlanner (Numbered Measurable Along Shares)

/-- The planner can answer the call reliably. -/
def Reliable (library : Library) (planner : AnonPlanner) : Call -> Prop
  | .assign target nowMs => planner.Numbered nowMs target ∧ planner.Measurable nowMs target
  | .plan requests nowMs =>
      Along (fun planner target => planner.Numbered nowMs target) nowMs planner
          (targets library requests).1 ∧
        match (targets library requests).2 with
        | none =>
            Along (fun planner target => planner.Measurable nowMs target) nowMs planner
              (targets library requests).1
        | some _ => planner.Shares nowMs (targets library requests).1
  | .expired _ => True
  | .closed _ => True

/-! ## One assignment -/

theorem younger_of_inSeries {conn : AnonConn} {nowMs : Int64}
    (small : nowMs.toInt - conn.openedMs.toInt < 2 ^ 63) (inSeries : conn.inSeries nowMs = true) :
    nowMs.toInt - conn.openedMs.toInt < anonSeriesMs.toInt := by
  rw [AnonConn.inSeries, decide_eq_true_iff, Int64.lt_iff_toInt_lt, Int64.toInt_sub] at inSeries
  have series : anonSeriesMs.toInt = 60000 := by decide
  by_cases large : -2 ^ 63 ≤ nowMs.toInt - conn.openedMs.toInt
  · rwa [Int.bmod_eq_of_le (by omega) (by omega)] at inSeries
  · omega

/-- A connection goes to a recipient after these events. -/
structure Proper (past : List Event) (handing : Handing) : Prop where
  sameTarget : ∀ other, .handed other ∈ past -> other.conn = handing.conn ->
    other.target = handing.target
  firstOpens : handing.opens = true ↔ ∀ other, .handed other ∈ past -> other.conn ≠ handing.conn
  opens_of_public : handing.target = .public -> handing.opens = true
  young : handing.opens = false -> ∃ first, .handed first ∈ past ∧ first.conn = handing.conn ∧
    first.opens = true ∧ handing.nowMs.toInt - first.nowMs.toInt < anonSeriesMs.toInt
  neverAgain : ¬ Ended handing.conn past

/-- Every connection that was given out was a proper one. -/
def AllProper (events : List Event) : Prop :=
  Each (fun past event => ∀ handing, event = .handed handing -> Proper past handing) events

/-- The planner knows what the host was told. -/
structure Follows (planner : AnonPlanner) (past : List Event) : Prop where
  numbered : ∀ handing, .handed handing ∈ past -> handing.conn.toNat ≤ planner.nextId.toNat
  given : ∀ conn ∈ planner.conns,
    .handed ⟨conn.target, conn.openedMs, ⟨conn.id, true, false⟩⟩ ∈ past
  named : ∀ conn ∈ planner.conns, conn.target ≠ .public
  lasting : ∀ conn ∈ planner.conns, ¬ Ended conn.id past
  proper : AllProper past

theorem ended_concat {id : UInt64} {past : List Event} {event : Event} :
    Ended id (past ++ [event]) ↔
      Ended id past ∨ (event.Ends id ∧ ∃ handing, .handed handing ∈ past ∧ handing.conn = id) := by
  constructor
  · rintro ⟨before, last, after, split, ends, given⟩
    rcases concat_eq_split.1 split with ⟨rfl, rfl, -⟩ | ⟨rest, -, split⟩
    · exact .inr ⟨ends, given⟩
    · exact .inl ⟨before, last, rest, split, ends, given⟩
  · rintro (⟨before, last, after, rfl, ends, given⟩ | ⟨ends, given⟩)
    · exact ⟨before, last, after ++ [event], by simp, ends, given⟩
    · exact ⟨past, event, [], rfl, ends, given⟩

theorem ended_handed {id : UInt64} {past : List Event} {handing : Handing} :
    Ended id (past ++ [.handed handing]) ↔ Ended id past := by
  simp [ended_concat, Event.Ends]

/-- A connection that is over was given out. -/
theorem Ended.given {id : UInt64} {past : List Event} (ended : Ended id past) :
    ∃ handing, .handed handing ∈ past ∧ handing.conn = id := by
  obtain ⟨before, event, after, rfl, -, handing, member, same⟩ := ended
  exact ⟨handing, List.mem_append_left _ member, same⟩

/-- Two entries about one connection are about one recipient. -/
theorem AllProper.sameTarget {events : List Event}
    (proper : AllProper events) (first second : Handing) (firstGiven : .handed first ∈ events)
    (secondGiven : .handed second ∈ events)
    (same : first.conn = second.conn) : first.target = second.target := by
  induction events using List.reverseRecOn with
  | nil => simp at firstGiven
  | append_singleton past last inductionHypothesis =>
      obtain ⟨earlier, latest⟩ := each_concat.1 proper
      rcases List.mem_append.1 firstGiven with before | isLast <;>
        rcases List.mem_append.1 secondGiven with before' | isLast'
      · exact inductionHypothesis earlier before before'
      · apply (latest second (List.mem_singleton.1 isLast').symm).sameTarget first before same
      · exact ((latest first (List.mem_singleton.1 isLast).symm).sameTarget second before'
          same.symm).symm
      · have equal := (List.mem_singleton.1 isLast).trans (List.mem_singleton.1 isLast').symm
        rw [Event.handed.inj equal]

/-- A connection is opened once. -/
theorem AllProper.sameOpening {events : List Event}
    (proper : AllProper events) (first second : Handing) (firstGiven : .handed first ∈ events)
    (secondGiven : .handed second ∈ events) (same : first.conn = second.conn)
    (firstOpens : first.opens = true)
    (secondOpens : second.opens = true) : first = second := by
  induction events using List.reverseRecOn with
  | nil => simp at firstGiven
  | append_singleton past last inductionHypothesis =>
      obtain ⟨earlier, latest⟩ := each_concat.1 proper
      rcases List.mem_append.1 firstGiven with before | isLast <;>
        rcases List.mem_append.1 secondGiven with before' | isLast'
      · exact inductionHypothesis earlier before before'
      · have isNew := (latest second (List.mem_singleton.1 isLast').symm).firstOpens.1 secondOpens
        exact absurd same (isNew first before)
      · have isNew := (latest first (List.mem_singleton.1 isLast).symm).firstOpens.1 firstOpens
        exact absurd same.symm (isNew second before')
      · have equal := (List.mem_singleton.1 isLast).trans (List.mem_singleton.1 isLast').symm
        exact Event.handed.inj equal

namespace Follows

variable {planner : AnonPlanner} {past : List Event} {target : AnonTarget} {nowMs : Int64}

section

variable (follows : Follows planner past)

include follows

theorem proper_of_reused
    (measurable : planner.Measurable nowMs target)
    {conn : AnonConn} (found : planner.reused target nowMs = some conn) :
    Proper past ⟨target, nowMs, ⟨conn.id, false, false⟩⟩ := by
  obtain ⟨kept, rfl, named, inSeries⟩ := AnonPlanner.of_reused found
  have given := follows.given conn kept
  constructor
  · intro other member same
    exact follows.proper.sameTarget other
      ⟨conn.target, conn.openedMs, ⟨conn.id, true, false⟩⟩ member given same
  · constructor
    · intro opens
      cases opens
    · intro isNew
      exact absurd rfl (isNew ⟨conn.target, conn.openedMs, ⟨conn.id, true, false⟩⟩ given)
  · intro isPublic
    exact absurd isPublic named
  · intro _
    exact ⟨_, given, rfl, rfl, younger_of_inSeries (measurable conn kept rfl) inSeries⟩
  · exact follows.lasting conn kept

section

variable (room : planner.nextId.toNat + 1 < UInt64.size)

include room

/-- A new number was not given out before. -/
theorem fresh
    (other : Handing)
    (given : .handed other ∈ past) : other.conn ≠ planner.nextId + 1 := by
  intro same
  have small := follows.numbered other given
  rw [same, UInt64.toNat_add, UInt64.toNat_one, Nat.mod_eq_of_lt room] at small
  omega

theorem proper_of_new
    (target : AnonTarget) (nowMs : Int64) (closeAfter : Bool) :
    Proper past ⟨target, nowMs, ⟨planner.nextId + 1, true, closeAfter⟩⟩ := by
  have fresh := follows.fresh room
  constructor
  · intro other member same
    exact absurd same (fresh other member)
  · exact iff_of_true rfl fresh
  · intro _
    rfl
  · intro shared
    cases shared
  · intro ended
    obtain ⟨other, given, same⟩ := ended.given
    exact fresh other given same

/-- Numbers may be left out. -/
theorem skip :
    Follows { planner with nextId := planner.nextId + 1 } past where
  numbered handing given := by
    have small := follows.numbered handing given
    simp only [UInt64.toNat_add, UInt64.toNat_one, Nat.mod_eq_of_lt room]
    omega
  given := follows.given
  named := follows.named
  lasting := follows.lasting
  proper := follows.proper

end

/-- What is told about a connection that is kept already, or not kept. -/
theorem tell
    {handing : Handing} (proper : Proper past handing)
    (small : handing.conn.toNat ≤ planner.nextId.toNat) :
    Follows planner (past ++ [.handed handing]) where
  numbered other given := by
    rcases List.mem_append.1 given with before | isLast
    · exact follows.numbered other before
    · rwa [Event.handed.inj (List.mem_singleton.1 isLast)]
  given conn kept := List.mem_append_left _ (follows.given conn kept)
  named := follows.named
  lasting conn kept ended := follows.lasting conn kept (ended_handed.1 ended)
  proper := by
    refine each_concat.2 ⟨follows.proper, ?_⟩
    intro other same
    rwa [← Event.handed.inj same]

/-- A new connection is told of and kept. -/
theorem keep
    (named : target ≠ .public)
    (given : .handed ⟨target, nowMs, ⟨planner.nextId, true, false⟩⟩ ∈ past)
    (lasting : ¬ Ended planner.nextId past) :
    Follows ⟨(planner.conns.filter fun conn => conn.target ≠ target) ++
        [⟨planner.nextId, target, nowMs⟩], planner.nextId⟩ past where
  numbered := follows.numbered
  given conn kept := by
    rcases List.mem_append.1 kept with old | isNew
    · exact follows.given conn (List.mem_filter.1 old).1
    · rwa [List.mem_singleton.1 isNew]
  named conn kept := by
    rcases List.mem_append.1 kept with old | isNew
    · exact follows.named conn (List.mem_filter.1 old).1
    · rwa [List.mem_singleton.1 isNew]
  lasting conn kept := by
    rcases List.mem_append.1 kept with old | isNew
    · exact follows.lasting conn (List.mem_filter.1 old).1
    · rwa [List.mem_singleton.1 isNew]
  proper := follows.proper

/-- One request gets its connection. -/
theorem assign
    (numbered : planner.Numbered nowMs target) (measurable : planner.Measurable nowMs target) :
    Follows (planner.assign target nowMs).2
      (past ++ [.handed ⟨target, nowMs, (planner.assign target nowMs).1⟩]) := by
  cases found : planner.reused target nowMs with
  | some conn =>
      rw [AnonPlanner.assign_of_reused found]
      apply follows.tell (follows.proper_of_reused measurable found)
      exact follows.numbered ⟨conn.target, conn.openedMs, ⟨conn.id, true, false⟩⟩
        (follows.given conn (AnonPlanner.of_reused found).1)
  | none =>
      have room := numbered found
      have told (closeAfter : Bool) := (follows.skip room).tell
        (follows.proper_of_new room target nowMs closeAfter) le_rfl
      by_cases named : target = .public
      · subst named
        rw [AnonPlanner.assign_public]
        exact told true
      · rw [AnonPlanner.assign_of_new named found]
        apply (told false).keep named (List.mem_append_right _ (List.mem_singleton.2 rfl))
        rw [ended_handed]
        exact (follows.proper_of_new room target nowMs false).neverAgain

/-- All recipients of a plan get their connections. -/
theorem assignAll {targets : List AnonTarget}
    (numbered : Along (fun planner target => planner.Numbered nowMs target) nowMs planner targets)
    (measurable :
      Along (fun planner target => planner.Measurable nowMs target) nowMs planner targets) :
    Follows (planner.assignAll nowMs targets).2
      (past ++ handings nowMs targets (planner.assignAll nowMs targets).1) := by
  induction targets generalizing planner past with
  | nil =>
      rw [AnonPlanner.assignAll, handings, List.zipWith_nil_left, List.append_nil]
      exact follows
  | cons target targets inductionHypothesis =>
      have next := follows.assign numbered.1 measurable.1
      have rest := inductionHypothesis next numbered.2 measurable.2
      rwa [List.append_assoc, List.singleton_append] at rest

/-- A plan that fails, and shares connections up to there, tells of nothing new. -/
theorem failed {targets : List AnonTarget}
    (numbered : Along (fun planner target => planner.Numbered nowMs target) nowMs planner targets)
    (shares : planner.Shares nowMs targets) : Follows (planner.assignAll nowMs targets).2 past := by
  induction targets generalizing planner with
  | nil => exact follows
  | cons target targets inductionHypothesis =>
      obtain ⟨numbered, rest⟩ := numbered
      have later := fun other member => shares other (List.mem_cons_of_mem _ member)
      rw [AnonPlanner.assignAll]
      rcases shares target List.mem_cons_self with rfl | isShared
      · rw [AnonPlanner.assign_public] at rest ⊢
        exact inductionHypothesis (follows.skip (numbered AnonPlanner.reused_public)) rest later
      · obtain ⟨conn, found⟩ := Option.isSome_iff_exists.1 isShared
        rw [AnonPlanner.assign_of_reused found] at rest ⊢
        exact inductionHypothesis follows rest later

/-- The planner drops connections. -/
theorem drop
    {conns : List AnonConn} {event : Event} (fewer : conns ⊆ planner.conns)
    (silent : ∀ handing, event ≠ .handed handing) (lasting : ∀ conn ∈ conns, ¬ event.Ends conn.id) :
    Follows { planner with conns := conns } (past ++ [event]) where
  numbered handing given := by
    apply follows.numbered
    apply (List.mem_append.1 given).resolve_right
    intro isLast
    exact silent handing (List.mem_singleton.1 isLast).symm
  given conn kept := List.mem_append_left _ (follows.given conn (fewer kept))
  named conn kept := follows.named conn (fewer kept)
  lasting conn kept ended := by
    rcases ended_concat.1 ended with earlier | ⟨ends, -⟩
    · exact follows.lasting conn (fewer kept) earlier
    · exact lasting conn kept ends
  proper := by
    refine each_concat.2 ⟨follows.proper, ?_⟩
    intro handing same
    exact absurd same (silent handing)

end

end Follows

theorem Follows.start : Follows {} [] where
  numbered handing given := by cases given
  given conn kept := by cases kept
  named conn kept := by cases kept
  lasting conn kept := by cases kept
  proper := Each.nil

/-! ## All calls -/

namespace Follows

variable {planner : AnonPlanner} {past : List Event}

section

variable (follows : Follows planner past)

include follows

theorem expired (nowMs : Int64) :
    Follows (planner.expired nowMs).2 (past ++ [.expired (planner.expired nowMs).1]) := by
  refine follows.drop (fun conn kept => (AnonPlanner.mem_conns_expired.1 kept).1) ?_ ?_
  · intro handing same
    cases same
  · intro conn kept ends
    obtain ⟨young, inSeries⟩ := AnonPlanner.mem_conns_expired.1 kept
    obtain ⟨other, old, same, elapsed⟩ := AnonPlanner.mem_expired.1 ends
    -- A number belongs to one connection, which is either young or old.
    have equal := follows.proper.sameOpening _ _ (follows.given other old)
      (follows.given conn young) same rfl rfl
    have times := congrArg Handing.nowMs equal
    rw [AnonConn.inSeries] at inSeries elapsed
    rw [show other.openedMs = conn.openedMs from times, inSeries] at elapsed
    cases elapsed

theorem closed (id : UInt64) :
    Follows (planner.closed id) (past ++ [.closed id]) := by
  refine follows.drop (fun conn kept => (AnonPlanner.mem_conns_closed.1 kept).1) ?_ ?_
  · intro handing same
    cases same
  · intro conn kept ends
    exact (AnonPlanner.mem_conns_closed.1 kept).2 ends.symm

/-- One call. -/
theorem perform {library : Library} {call : Call}
    (reliable : Reliable library planner call) :
    Follows (perform library planner call).2
      (past ++ (Anonymous.perform library planner call).1) := by
  cases call with
  | assign target nowMs => exact follows.assign reliable.1 reliable.2
  | plan requests nowMs =>
      obtain ⟨numbered, rest⟩ := reliable
      rw [Anonymous.perform, AnonPlanner.exec_plan]
      cases failure : (targets library requests).2 with
      | none =>
          rw [failure] at rest
          exact follows.assignAll numbered rest
      | some error =>
          rw [failure] at rest
          simpa using follows.failed numbered rest
  | expired nowMs => exact follows.expired nowMs
  | closed id => exact follows.closed id

/-- All calls of a run. -/
theorem run {library : Library}
    {labels : List (Call × List Event)}
    {final : AnonPlanner}
    (run : Run (fun planner label next =>
      Reliable library planner label.1 ∧ Step library planner label next) planner labels final) :
    Follows final (past ++ history labels) := by
  induction run generalizing past with
  | nil planner =>
      rw [history, List.flatMap_nil, List.append_nil]
      exact follows
  | @cons planner next final label labels first rest inductionHypothesis =>
      obtain ⟨reliable, step⟩ := first
      have after := follows.perform reliable
      rw [show Anonymous.perform library planner label.1 = (label.2, next) from step] at after
      rw [history, List.flatMap_cons, ← List.append_assoc]
      exact inductionHypothesis after

end

end Follows

/-- Proper entries keep recipients apart. -/
theorem AllProper.isolated {events : List Event} (proper : AllProper events) :
    Isolated events where
  sameTarget := proper.sameTarget
  firstOpens before handing after split := (proper before _ after split handing rfl).firstOpens
  publicOnce before handing after split isPublic other given same := by
    have here := proper before _ after split handing rfl
    have opens := here.opens_of_public isPublic
    rcases List.mem_append.1 given with earlier | later
    · exact here.firstOpens.1 opens other earlier same
    · -- A later one would open the same connection for the public again.
      obtain ⟨between, rest, rfl⟩ := List.append_of_mem later
      have there := proper (before ++ .handed handing :: between) (.handed other) rest
        (by rw [split]; simp) other rfl
      have member : .handed handing ∈ before ++ .handed handing :: between := by simp
      have target := there.sameTarget handing member same.symm
      have again := there.opens_of_public (target.symm.trans isPublic)
      exact there.firstOpens.1 again handing member same.symm
  young before handing after split := (proper before _ after split handing rfl).young
  neverAgain before handing after split := (proper before _ after split handing rfl).neverAgain

/-- A planner that is called while it can be relied on keeps recipients apart. -/
theorem isolated_of_reliable
    (library : Library)
    (labels : List (Call × List Event))
    (planner : AnonPlanner)
    (run : Run (fun planner label next =>
      Reliable library planner label.1 ∧ Step library planner label next) {} labels planner) :
    Isolated (history labels) :=
  (Follows.start.run run).proper.isolated

/-- Two messages for a group within a minute share a connection. -/
theorem isolated_of_series :
    Isolated [.handed ⟨.group [1], 0, ⟨1, true, false⟩⟩,
      .handed ⟨.group [1], 59999, ⟨1, false, false⟩⟩] := by
  apply isolated_of_reliable sampleLibrary
    [(.assign (.group [1]) 0, [.handed ⟨.group [1], 0, ⟨1, true, false⟩⟩]),
      (.assign (.group [1]) 59999, [.handed ⟨.group [1], 59999, ⟨1, false, false⟩⟩])]
    ⟨[⟨1, .group [1], 0⟩], 1⟩
  refine .cons ⟨⟨?_, ?_⟩, rfl⟩ (.cons ⟨⟨?_, ?_⟩, rfl⟩ (.nil _))
  · intro _
    decide
  · intro conn kept
    cases kept
  · intro _
    decide
  · intro conn kept _
    rw [List.mem_singleton.1 kept]
    decide

/-- A plan fails after it chose a connection, which the next request for the group shares. -/
def unopened : List (Call × List Event) :=
  [(.plan [("msg.deliver_group", groupBody), ("msg.deliver_sealed", [])] 0, []),
    (.assign (.group [1]) 1, [.handed ⟨.group [1], 1, ⟨1, false, false⟩⟩])]

/-- The times of two requests are further apart than a machine integer can tell. -/
def farApart : List (Call × List Event) :=
  [(.assign (.user "bob@x") (-1), [.handed ⟨.user "bob@x", -1, ⟨1, true, false⟩⟩]),
    (.assign (.user "bob@x") Int64.maxValue,
      [.handed ⟨.user "bob@x", Int64.maxValue, ⟨1, false, false⟩⟩])]

theorem not_isolated :
    ((∃ planner, Run (Step sampleLibrary) {} unopened planner) ∧ ¬ Isolated (history unopened)) ∧
      (∃ planner, Run (Step sampleLibrary) {} farApart planner) ∧
        ¬ Isolated (history farApart) := by
  refine ⟨⟨⟨_, .cons rfl (.cons rfl (.nil _))⟩, ?_⟩, ⟨_, .cons rfl (.cons rfl (.nil _))⟩, ?_⟩
  · intro isolated
    have opens := (isolated.firstOpens [] ⟨.group [1], 1, ⟨1, false, false⟩⟩ [] rfl).2
    exact absurd (opens fun other given => by cases given) (by decide)
  · intro isolated
    obtain ⟨first, given, -, -, young⟩ := isolated.young
      [.handed ⟨.user "bob@x", -1, ⟨1, true, false⟩⟩]
      ⟨.user "bob@x", Int64.maxValue, ⟨1, false, false⟩⟩ [] rfl rfl
    rw [Event.handed.inj (List.mem_singleton.1 given)] at young
    exact absurd young (by decide)

end Parvane.Anonymous
