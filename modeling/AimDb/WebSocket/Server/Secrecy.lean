import AimDb.WebSocket.Server.Isolation
import AimDb.WebSocket.Server.Values

/-!
# What a client may not read does not reach it

Two runs with the same steps that differ only in values of records a client's grants do
not cover look the same to the client.  The states of the two runs agree once those
values are concealed.
-/

namespace AimDb.WebSocket.Server

open Session (Payload Stamp Outbound)
open Transition

def view (client : ℕ) (log : List Record) : List Record :=
  log.filter fun record => record.client = some client

def Visible (config : Config) (permissions : Permissions) (record : ℕ) : Prop :=
  ∃ key, config.records[record]? = some key ∧ permissions.Covers key

/-- Two inputs that differ at most in values of records the grants do not cover.  What core
knows of such records may differ as long as their `u32` ids are theirs alone. -/
inductive Alike (config : Config) (permissions : Permissions) : Input → Input → Prop
  | same (input : Input) : Alike config permissions input input
  | value (message : Message) (payload : Payload) :
      ¬ Visible config permissions message.recordIndex →
      Alike config permissions (.next message) (.next { message with payload })
  | metadata (client : ℕ) {one other : ℕ → Metadata} :
      (∀ record, one record ≠ other record →
        ¬ Visible config permissions record ∧ config.records.length ≤ 4294967296) →
      Alike config permissions (.list client one) (.list client other)
  | rows (client : ℕ) {one other : List QueryRecord} :
      List.Forall₂ (fun r t => r.topic = t.topic ∧ (permissions.Covers r.topic → r = t))
        one other →
      Alike config permissions (.query client (some (.ok one))) (.query client (some (.ok other)))

open Classical in
noncomputable def conceal (config : Config) (permissions : Permissions) (record : ℕ)
    (payload : Payload) : Payload :=
  if Visible config permissions record then payload else []

variable {config : Config} {permissions : Permissions} {client : ℕ} {s t after : Server}
  {log emitted : List Record}

@[simp] theorem view_append (log more : List Record) :
    view client (log ++ more) = view client log ++ view client more := List.filter_append ..

@[simp] theorem client_mapData (f : ℕ → Payload → Payload) (record : Record) :
    (record.mapData f).client = record.client := by
  cases record <;> rfl

theorem view_mapData (f : ℕ → Payload → Payload) (log : List Record) :
    view client (log.map (Record.mapData f)) = (view client log).map (Record.mapData f) := by
  rw [view, view, List.filter_map]
  congr 2
  funext record
  simp

theorem conceal_visible {record : ℕ} (visible : Visible config permissions record) :
    conceal config permissions record = id := by
  funext payload
  exact if_pos visible

theorem Granted.mapData_conceal {record : Record} (granted : Granted config log permissions record)
    (isClient : record.client = some client) :
    record.mapData (conceal config permissions) = record := by
  cases record with
  | value _ stream index frame =>
      rw [Record.mapData, mapFrame.eq_def, conceal_visible granted.1]
      cases frame <;> rfl
  | taken message => cases isClient
  | broadcast message => cases isClient
  | _ => rfl

theorem view_conceal
    (grants : ∀ record ∈ log, record.client = some client →
      Granted config log permissions record) :
    (view client log).map (Record.mapData (conceal config permissions)) = view client log := by
  refine (List.map_congr_left fun record mem => ?_).trans (List.map_id _)
  obtain ⟨inLog, about⟩ := List.mem_filter.mp mem
  have isClient : record.client = some client := of_decide_eq_true about
  exact (grants record inLog isClient).mapData_conceal isClient

/-- What two steps do that a client cannot tell apart. -/
def Matching (config : Config) (permissions : Permissions) (client : ℕ)
    (one other : Server × List Record) : Prop :=
  one.1.mapData (conceal config permissions) = other.1.mapData (conceal config permissions) ∧
  (view client one.2).map (Record.mapData (conceal config permissions)) =
    (view client other.2).map (Record.mapData (conceal config permissions))

theorem matching_of_mapOutcome {one other : Server × List Record}
    (same : mapOutcome (conceal config permissions) one =
      mapOutcome (conceal config permissions) other) :
    Matching config permissions client one other := by
  obtain ⟨states, logs⟩ := Prod.mk.inj same
  refine ⟨states, ?_⟩
  rw [← view_mapData, ← view_mapData, logs]

theorem matching_of_step {one other : Input} {stepped : Server × List Record}
    (same : s.mapData (conceal config permissions) = t.mapData (conceal config permissions))
    (alike : one.mapData (conceal config permissions) = other.mapData (conceal config permissions))
    (noBurst : ∀ client, one ≠ .snapshot client)
    (noBurstToo : ∀ client, other ≠ .snapshot client)
    (taken : step config s one = some stepped) :
    ∃ outcome, step config t other = some outcome ∧
      Matching config permissions client stepped outcome := by
  have mapped := step_mapData (conceal config permissions) config s noBurst
  rw [same, alike, step_mapData _ config t noBurstToo, taken] at mapped
  obtain ⟨outcome, found, isSame⟩ := Option.map_eq_some_iff.mp mapped
  exact ⟨outcome, found, matching_of_mapOutcome isSame.symm⟩

theorem session_of_same {session : WsSession} {other : ℕ}
    (same : s.mapData (conceal config permissions) = t.mapData (conceal config permissions))
    (found : s.sessions other = some session) :
    ∃ twin, t.sessions other = some twin ∧
      session.mapData (conceal config permissions) = twin.mapData (conceal config permissions) := by
  have sessions := congrFun (congrArg Server.sessions same) other
  rw [mapData_sessions, mapData_sessions, found] at sessions
  obtain ⟨twin, isTwin, alike⟩ := Option.map_eq_some_iff.mp sessions.symm
  exact ⟨twin, isTwin, alike.symm⟩

theorem snapshot_spec {burst : ℕ} (stepped : s.snapshot config burst = some (after, emitted)) :
    ∃ session accepting snap left, s.sessions burst = some session ∧
      session.accepting = some accepting ∧ accepting.stage = .bursting (snap :: left) ∧
      emitted = if config.asRaw snap.data then
        [.value burst accepting.stream snap.record (.snapshot accepting.subId (accepting.seq + 1)
          left.isEmpty snap.topic snap.ts snap.data)] else [] := by
  obtain ⟨session, found, stepped⟩ := withSession rfl stepped
  cases accepts : session.accepting with
  | none => simp [accepts] at stepped
  | some accepting =>
      cases stage : accepting.stage with
      | registered => simp [accepts, stage] at stepped
      | acknowledged => simp [accepts, stage] at stepped
      | bursting left =>
          cases left with
          | nil => simp [accepts, stage] at stepped
          | cons snap left =>
              simp only [accepts, stage] at stepped
              cases stepped
              exact ⟨session, accepting, snap, left, found, accepts, stage, rfl⟩

/-- Bursts of the two runs differ in concealed values only. -/
theorem burst_of_same {f : ℕ → Payload → Payload} {session twin : WsSession}
    {accepting : Accepting} {snap : Snapshot} {left : List Snapshot}
    (same : session.mapData f = twin.mapData f) (accepts : session.accepting = some accepting)
    (stage : accepting.stage = .bursting (snap :: left)) {other : Accepting} {first : Snapshot}
    {rest : List Snapshot} (acceptsToo : twin.accepting = some other)
    (stageToo : other.stage = .bursting (first :: rest)) :
    other.subId = accepting.subId ∧ other.stream = accepting.stream ∧
      other.seq = accepting.seq ∧
      rest.isEmpty = left.isEmpty ∧ first.mapData f = snap.mapData f := by
  have alike := congrArg WsSession.accepting same
  simp only [WsSession.mapData, accepts, acceptsToo, Option.map_some, Option.some.injEq,
    Accepting.mapData, stage, stageToo, Stage.mapData, Accepting.mk.injEq, Stage.bursting.injEq,
    List.map_cons, List.cons.injEq] at alike
  obtain ⟨subIds, -, streams, ⟨firsts, rests⟩, seqs⟩ := alike
  refine ⟨subIds.symm, streams.symm, seqs.symm, ?_, firsts.symm⟩
  rw [← List.isEmpty_map, ← rests, List.isEmpty_map]

/-- What is left of a client's burst is visible to it, so it is skipped in both runs or
in none. -/
theorem matching_of_snapshot {burst : ℕ} {stepped : Server × List Record}
    (invariant : Invariant config s log)
    (same : s.mapData (conceal config permissions) = t.mapData (conceal config permissions))
    (mine : ∀ session, s.sessions client = some session → session.permissions = permissions)
    (taken : step config s (.snapshot burst) = some stepped) :
    ∃ outcome, step config t (.snapshot burst) = some outcome ∧
      Matching config permissions client stepped outcome := by
  have states := snapshot_mapData (conceal config permissions) config s burst
  have statesToo := snapshot_mapData (conceal config permissions) config t burst
  have isTaken : s.snapshot config burst = some stepped := taken
  rw [same, statesToo, isTaken] at states
  obtain ⟨outcome, found, isSame⟩ := Option.map_eq_some_iff.mp states
  refine ⟨outcome, found, isSame.symm, ?_⟩
  obtain ⟨session, accepting, snap, left, isSession, accepts, stage, shown⟩ :=
    snapshot_spec isTaken
  obtain ⟨twin, other, first, rest, isTwin, acceptsToo, stageToo, shownToo⟩ :=
    snapshot_spec found
  by_cases own : burst = client
  · subst own
    obtain ⟨_, isTwinToo, alike⟩ := session_of_same same isSession
    obtain rfl := Option.some.inj (isTwin.symm.trans isTwinToo)
    obtain ⟨subIds, streams, seqs, ends, snaps⟩ :=
      burst_of_same alike accepts stage acceptsToo stageToo
    have allowed := (invariant.left isSession accepts stage snap List.mem_cons_self).1
    have visible : Visible config permissions snap.record :=
      mine session isSession ▸ (invariant.sessions burst session isSession).1.covers allowed
    have isSnap : first = snap := by
      simp only [Snapshot.mapData, Snapshot.mk.injEq] at snaps
      obtain ⟨records, topics, values, stamps⟩ := snaps
      rw [records, conceal_visible visible] at values
      obtain ⟨record, topic, data, ts⟩ := first
      cases snap
      simp_all
    rw [shown, shownToo, subIds, streams, seqs, ends, isSnap]
  · have hidden (shown : Prop) [Decidable shown] (stream record : ℕ) (frame : Outbound) :
        view client (if shown then [.value burst stream record frame] else []) = [] := by
      split
      · simp [view, Record.client, own]
      · rfl
    rw [shown, shownToo, hidden, hidden]

theorem view_other {other : ℕ} (different : other ≠ client) {record : Record}
    (about : record.client = some other) : view client [record] = [] := by
  simp [view, about, different]

theorem rows_of_alike {session : WsSession} {bus : ClientManager} {source : Message → Prop}
    (holds : Holds config bus source session) {one other : ℕ → Metadata}
    (alike : ∀ record, one record ≠ other record →
      ¬ Visible config session.permissions record ∧ config.records.length ≤ 4294967296) :
    (listRecords config.records one).filter (fun row =>
        session.recordPerms.isAllowed row.recordId.toNat) =
      (listRecords config.records other).filter fun row =>
        session.recordPerms.isAllowed row.recordId.toNat := by
  rw [listRecords, listRecords, List.filter_map, List.filter_map]
  apply List.map_congr_left
  rintro ⟨key, index⟩ mem
  obtain ⟨inRecords, allowed⟩ := List.mem_filter.mp mem
  have found := List.mem_zipIdx_iff_getElem?.mp inRecords
  have agree : one index = other index := by
    by_contra differ
    obtain ⟨hidden, few⟩ := alike index differ
    have small : index < 4294967296 :=
      Nat.lt_of_lt_of_le (List.getElem?_eq_some_iff.mp found).1 few
    have isIndex : (UInt32.ofNat index).toNat = index := UInt32.toNat_ofNat_of_lt small
    simp only [Function.comp_apply, isIndex] at allowed
    exact hidden (holds.covers allowed)
  dsimp only
  rw [agree]

theorem idle_of_same {session : WsSession} {asked : ℕ}
    (same : s.mapData (conceal config permissions) = t.mapData (conceal config permissions))
    (found : s.sessions asked = some session) (idle : ¬ session.accepting.isSome = true) :
    ∃ twin, t.sessions asked = some twin ∧ ¬ twin.accepting.isSome = true ∧
      twin.recordPerms = session.recordPerms ∧ twin.permissions = session.permissions := by
  obtain ⟨twin, isTwin, alike⟩ := session_of_same same found
  refine ⟨twin, isTwin, ?_, (congrArg WsSession.recordPerms alike).symm,
    (congrArg WsSession.permissions alike).symm⟩
  have accepting := congrArg (fun session => session.accepting.isSome) alike
  simp only [WsSession.mapData, Option.isSome_map] at accepting
  rwa [← accepting]

theorem matching_answer {asked : ℕ} {one other : Record}
    (same : s.mapData (conceal config permissions) = t.mapData (conceal config permissions))
    (about : one.client = some asked) (aboutToo : other.client = some asked)
    (answers : asked = client → one = other) :
    Matching config permissions client (s, [one]) (t, [other]) := by
  refine ⟨same, ?_⟩
  by_cases own : asked = client
  · rw [answers own]
  · rw [view_other own about, view_other own aboutToo]

theorem matching_of_list {asked : ℕ} {one other : ℕ → Metadata}
    {stepped : Server × List Record} (invariant : Invariant config s log)
    (same : s.mapData (conceal config permissions) = t.mapData (conceal config permissions))
    (mine : ∀ session, s.sessions client = some session → session.permissions = permissions)
    (alike : ∀ record, one record ≠ other record →
      ¬ Visible config permissions record ∧ config.records.length ≤ 4294967296)
    (taken : step config s (.list asked one) = some stepped) :
    ∃ outcome, step config t (.list asked other) = some outcome ∧
      Matching config permissions client stepped outcome := by
  obtain ⟨after, emitted⟩ := stepped
  obtain ⟨session, found, run⟩ := withSession rfl taken
  split_ifs at run with idle
  cases run
  obtain ⟨twin, isTwin, idleToo, perms, _⟩ := idle_of_same same found idle
  have takenToo : step config t (.list asked other) = some (t,
      [.listed asked (((listRecords config.records other).filter fun row =>
        twin.recordPerms.isAllowed row.recordId.toNat).map (·.stamp config.schemaByType))]) := by
    simp [step, list, isTwin, idleToo]
  refine ⟨_, takenToo, matching_answer same rfl rfl fun own => ?_⟩
  subst own
  obtain rfl := mine session found
  rw [rows_of_alike (invariant.sessions asked session found).1 alike, perms]

theorem filter_of_alike {one other : List QueryRecord}
    (alike : List.Forall₂ (fun r t => r.topic = t.topic ∧
      (permissions.Covers r.topic → r = t))
      one other) :
    one.filter (fun r => permissions.canRead r.topic) =
      other.filter fun r => permissions.canRead r.topic := by
  induction alike with
  | nil => rfl
  | @cons r t one other agree _ inductionHypothesis =>
      obtain ⟨topics, rows⟩ := agree
      by_cases granted : permissions.canRead r.topic = true
      · obtain rfl := rows (Permissions.covers_of_canRead granted)
        simp only [List.filter_cons, granted, if_true, inductionHypothesis]
      · simp only [List.filter_cons, topics ▸ granted, granted, Bool.false_eq_true, if_false,
          inductionHypothesis]

theorem matching_of_query {asked : ℕ} {one other : List QueryRecord}
    {stepped : Server × List Record}
    (same : s.mapData (conceal config permissions) = t.mapData (conceal config permissions))
    (mine : ∀ session, s.sessions client = some session → session.permissions = permissions)
    (alike : List.Forall₂ (fun r t => r.topic = t.topic ∧
      (permissions.Covers r.topic → r = t))
      one other) (taken : step config s (.query asked (some (.ok one))) = some stepped) :
    ∃ outcome, step config t (.query asked (some (.ok other))) = some outcome ∧
      Matching config permissions client stepped outcome := by
  obtain ⟨after, emitted⟩ := stepped
  obtain ⟨session, found, run⟩ := withSession rfl taken
  split_ifs at run with idle denied
  · cases run
    obtain ⟨twin, isTwin, idleToo, _, perms⟩ := idle_of_same same found idle
    have takenToo : step config t (.query asked (some (.ok other))) =
        some (t, [.queried asked (.error .denied)]) := by
      simp [step, query, isTwin, idleToo, perms, denied]
    exact ⟨_, takenToo, matching_answer same rfl rfl fun _ => rfl⟩
  · cases run
    obtain ⟨twin, isTwin, idleToo, _, perms⟩ := idle_of_same same found idle
    have takenToo : step config t (.query asked (some (.ok other))) = some (t,
        [.queried asked (.ok (other.filter fun r => session.permissions.canRead r.topic))]) := by
      simp [step, query, isTwin, idleToo, perms, denied]
    refine ⟨_, takenToo, matching_answer same rfl rfl fun own => ?_⟩
    subst own
    obtain rfl := mine session found
    dsimp only
    rw [filter_of_alike alike]

theorem matching_of_alike {one other : Input} {stepped : Server × List Record}
    (invariant : Invariant config s log)
    (same : s.mapData (conceal config permissions) = t.mapData (conceal config permissions))
    (mine : ∀ session, s.sessions client = some session → session.permissions = permissions)
    (alike : Alike config permissions one other) (taken : step config s one = some stepped) :
    ∃ outcome, step config t other = some outcome ∧
      Matching config permissions client stepped outcome := by
  cases alike with
  | metadata asked agree => exact matching_of_list invariant same mine agree taken
  | rows asked agree => exact matching_of_query same mine agree taken
  | value message payload hidden =>
      refine matching_of_step same ?_ (by simp) (by simp) taken
      simp [Input.mapData, Message.mapData, conceal, hidden]
  | same _ =>
      by_cases burst : ∃ client, one = .snapshot client
      · obtain ⟨asked, rfl⟩ := burst
        exact matching_of_snapshot invariant same mine taken
      · have noBurst := not_exists.mp burst
        exact matching_of_step same rfl noBurst noBurst taken

theorem Invariant.permissions_eq (invariant : Invariant config s log)
    (once : ∀ other, .connected client other ∈ log → other = permissions)
    (session : WsSession)
    (found : s.sessions client = some session) : session.permissions = permissions :=
  once _ (invariant.sessions client session found).2

theorem replay_of_alike {inputs others : List Input} {last : Server} {more : List Record}
    (alike : List.Forall₂ (Alike config permissions) inputs others)
    (invariant : Invariant config s log)
    (same : s.mapData (conceal config permissions) = t.mapData (conceal config permissions))
    (once : ∀ other, .connected client other ∈ log ++ more → other = permissions)
    (run : replay (step config) s inputs = some (last, more)) :
    ∃ outcome, replay (step config) t others = some outcome ∧
      Matching config permissions client (last, more) outcome := by
  induction alike generalizing s t log more with
  | nil =>
      cases run
      exact ⟨(t, []), rfl, same, rfl⟩
  | @cons input other inputs others agree _ inductionHypothesis =>
      rw [replay] at run
      cases stepped : step config s input with
      | none => simp [stepped] at run
      | some outcome =>
          obtain ⟨after, emitted⟩ := outcome
          simp only [stepped] at run
          obtain ⟨⟨last', tail⟩, rested, isLast⟩ := Option.map_eq_some_iff.mp run
          cases isLast
          have mine := invariant.permissions_eq fun other mem =>
            (once other (List.mem_append_left _ mem) : other = permissions)
          obtain ⟨⟨next, shown⟩, steppedToo, states, views⟩ :=
            matching_of_alike invariant same mine agree stepped
          obtain ⟨⟨end', rest⟩, restedToo, ends, tails⟩ := inductionHypothesis
            (invariant.step (.of_step stepped)) states
            (by rwa [List.append_assoc]) rested
          refine ⟨(end', shown ++ rest), ?_, ends, ?_⟩
          · simp only [replay, steppedToo, restedToo, Option.map_some]
          · simp only [view_append, List.map_append] at views tails ⊢
            rw [views, tails]

/-- Whatever a client is sent is covered by its grants, and values of other records make no
difference to it. -/
theorem read_isolation {inputs : List Input}
    (run : replay (step config) (new config) inputs = some (s, log))
    (isConnected : .connected client permissions ∈ log) :
    (∀ record ∈ log, record.client = some client → Granted config log permissions record) ∧
    ∀ others, List.Forall₂ (Alike config permissions) inputs others →
      ∃ last shown, replay (step config) (new config) others = some (last, shown) ∧
        view client log = view client shown := by
  have invariant := invariant_of_reachable (reachable_of_replay run)
  have grants : ∀ record ∈ log, record.client = some client →
      Granted config log permissions record :=
    fun record mem about => invariant.granted record mem client permissions about isConnected
  refine ⟨grants, fun others alike => ?_⟩
  obtain ⟨⟨last, shown⟩, runToo, _, views⟩ :=
    replay_of_alike alike (invariant_new config) rfl
    (fun other mem => invariant.once client other permissions mem isConnected) run
  refine ⟨last, shown, runToo, ?_⟩
  have invariantToo := invariant_of_reachable (reachable_of_replay runToo)
  rw [view_conceal grants] at views
  -- The other run connects the client with the same permissions, so it grants the same.
  have connectedToo : .connected client permissions ∈ shown := by
    have seen : .connected client permissions ∈ view client log :=
      List.mem_filter.mpr ⟨isConnected, decide_eq_true rfl⟩
    rw [views] at seen
    obtain ⟨record, mem, isSame⟩ := List.mem_map.mp seen
    cases record <;> cases isSame
    exact (List.mem_filter.mp mem).1
  rw [views, view_conceal fun record mem about =>
    invariantToo.granted record mem client permissions about connectedToo]

def twoRecords : Config := { records := ["a", "b"], asRaw := fun _ => true }

def readsA : Permissions := { readPatterns := ["a"] }

/-- A value of each record comes to a subscription that matches both. -/
def twoValues (hidden : Payload) : List Input :=
  [.connect readsA, .subscribe 1 "s" "#", .acknowledge 1, .snapshots 1 [], .pump 1,
    .next ⟨"t.b", 1, hidden, 5⟩, .broadcast, .bus (.visit 0 1), .bus (.endIteration 0),
    .bus (.finish 0), .next ⟨"t.a", 0, [7], 5⟩, .broadcast, .bus (.visit 1 1),
    .bus (.trySend 1), .bus (.endIteration 1), .bus (.finish 1), .pull 1 0, .forward 1,
    .subscribe 1 "late" "t.*"]

theorem resolve_twoRecords :
    RecordsBits.resolvePermissions twoRecords.records readsA = ⟨2, [1]⟩ := by
  have first : readsA.canRead "a" = true := by
    rw [Permissions.canRead, List.any_eq_true]
    refine ⟨"a", List.mem_singleton.mpr rfl, ?_⟩
    rw [Session.TopicMatch.patternContains_exact.2 _ _ (by decide)]
    decide
  have second : readsA.canRead "b" = false := by
    rw [Permissions.canRead, readsA, List.any_cons, List.any_nil,
      Session.TopicMatch.patternContains_exact.2 _ _ (by decide), Bool.or_false, Bool.eq_false_iff,
      ne_eq, Session.TopicMatch.topicMatches_eq_true_iff,
      Session.TopicMatch.matchSet_literal (by decide)]
    decide
  simp only [RecordsBits.resolvePermissions, twoRecords, List.zipIdx_cons, List.zipIdx_nil,
    List.foldl_cons, List.foldl_nil, first, second]
  decide

theorem twoValues_runs :
    (replay (step twoRecords) (new twoRecords) (twoValues [1])).isSome = true := by
  have connects : (new twoRecords).connect twoRecords readsA =
      ({ (new twoRecords).setSession 1
        (some { permissions := readsA, recordPerms := ⟨2, [1]⟩ }) with
        nextClient := 2 }, [.connected 1 readsA]) := by
    rw [connect, resolve_twoRecords]
    rfl
  rw [twoValues, replay, step, connects]
  decide

theorem connected_of_replay {inputs : List Input}
    (run : replay (step config) s (.connect permissions :: inputs) = some (after, log)) :
    .connected s.nextClient permissions ∈ log := by
  rw [replay, step] at run
  obtain ⟨rest, _, isLast⟩ := Option.map_eq_some_iff.mp run
  cases isLast
  exact List.mem_append_left _ (List.mem_singleton.mpr rfl)

theorem read_isolation_twoRecords :
    ∃ log, .connected 1 readsA ∈ log ∧
      (∀ record ∈ log, record.client = some 1 → Granted twoRecords log readsA record) ∧
      ∃ last shown, replay (step twoRecords) (new twoRecords) (twoValues [2, 3]) =
        some (last, shown) ∧ view 1 log = view 1 shown := by
  obtain ⟨⟨s, log⟩, run⟩ := Option.isSome_iff_exists.mp twoValues_runs
  have isConnected : .connected 1 readsA ∈ log := connected_of_replay run
  have hidden : ¬ Visible twoRecords readsA 1 := by
    rintro ⟨key, isKey, p, isPattern, aligned⟩
    cases isKey
    rw [List.mem_singleton.mp isPattern, Session.TopicMatch.matchSet_literal (by decide)] at aligned
    exact absurd aligned (by decide)
  obtain ⟨grants, blind⟩ := read_isolation run isConnected
  refine ⟨log, isConnected, grants, blind _ ?_⟩
  refine .cons (.same _) (.cons (.same _) (.cons (.same _) (.cons (.same _) (.cons (.same _)
    (.cons (.value ⟨"t.b", 1, [1], 5⟩ [2, 3] hidden)
      (List.forall₂_same.mpr fun _ _ => .same _))))))

def crowd (length : ℕ) : Config :=
  { records := (List.range length).map Nat.repr, asRaw := fun _ => true }

theorem crowd_nodup (length : ℕ) : (crowd length).records.Nodup := by
  refine List.nodup_range.map fun i j same => ?_
  rw [Nat.repr_eq_ofList_toDigits, Nat.repr_eq_ofList_toDigits, String.ofList_inj] at same
  rw [← Nat.ofDigitChars_ten_toDigits (n := i), same, Nat.ofDigitChars_ten_toDigits]

theorem crowd_getElem? {length index : ℕ} (inside : index < length) :
    (crowd length).records[index]? = some index.repr := by
  rw [crowd, List.getElem?_map, List.getElem?_range inside, Option.map_some]

theorem listed_of_allowed {metadata : ℕ → Metadata} {row : RecordMetadata}
    (isRow : row ∈ listRecords config.records metadata)
    (allowed : (RecordsBits.resolvePermissions config.records permissions).isAllowed
      row.recordId.toNat = true) :
    ∃ s rows, replay (step config) (new config) [.connect permissions, .list 1 metadata] =
        some (s, [.connected 1 permissions, .listed 1 rows]) ∧
      row.stamp config.schemaByType ∈ rows :=
  ⟨_, _, rfl, List.mem_map_of_mem (List.mem_filter.mpr ⟨isRow, allowed⟩)⟩

/-- The row of the last record passes for that of the first. -/
theorem list_shares_ids : ¬ ∀ (config : Config) (inputs : List Input) (s : Server)
    (log : List Record) (client : ℕ) (permissions : Permissions), config.records.Nodup →
    replay (step config) (new config) inputs = some (s, log) →
    .connected client permissions ∈ log → ∀ rows, .listed client rows ∈ log →
    ∀ row ∈ rows, permissions.Covers row.recordKey := by
  intro covered
  have first : (RecordsBits.resolvePermissions (crowd 4294967297).records
      { readPatterns := ["0"] }).isAllowed 0 = true := by
    have isFirst : (crowd 4294967297).records[0]? = some "0" := by
      rw [crowd_getElem? (by decide)]
      rfl
    rw [RecordsBits.isAllowed_resolvePermissions]
    refine ⟨"0", isFirst, List.any_eq_true.mpr ⟨"0", List.mem_singleton.mpr rfl, ?_⟩⟩
    rw [Session.TopicMatch.patternContains_exact.2 _ _ (by decide)]
    decide
  have isLast : (crowd 4294967297).records[4294967296]? = some "4294967296" := by
    have isKey : Nat.repr 4294967296 = "4294967296" := by decide
    rw [crowd_getElem? (by decide), isKey]
  have listed : ⟨0, "4294967296", "Temperature", none, []⟩ ∈
      listRecords (crowd 4294967297).records fun _ => ⟨"Temperature", none, []⟩ :=
    List.mem_map.mpr ⟨("4294967296", 4294967296), List.mem_zipIdx_iff_getElem?.mpr isLast, rfl⟩
  obtain ⟨s, rows, run, mem⟩ := listed_of_allowed listed first
  obtain ⟨p, isPattern, aligned⟩ := covered _ _ s _ 1 _ (crowd_nodup _) run
    List.mem_cons_self rows (List.mem_cons_of_mem _ List.mem_cons_self) _ mem
  rw [List.mem_singleton.mp isPattern, Session.TopicMatch.matchSet_literal (by decide)] at aligned
  exact absurd aligned (by decide)

end AimDb.WebSocket.Server
