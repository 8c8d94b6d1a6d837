import AimDb.Session.Client.Demux
import AimDb.Session.Client.Subscribing
import AimDb.Session.Client.Tables
import AimDb.Session.Duplex
import AimDb.Session.Server.Keyed
import AimDb.Session.Server.Table

/-!
# Nothing is lost untold

What a subscriber is told at a delivery, with everything it was told before,
adds up to the number its source had counted to when the value was taken.
-/

namespace AimDb.Session.Duplex

open AimDb.Json AimDb.Transition

variable {codec : EnvelopeCodec} {clientConfig : Client.ClientConfig} {platform : Client.Platform}
  {serverConfig : Server.SessionConfig} {s after : State} {log : List Event}

@[simp] theorem clientLog_append (log more : List Event) :
    clientLog (log ++ more) = clientLog log ++ clientLog more := List.filterMap_append

@[simp] theorem clientLog_client (records : List Client.Record) :
    clientLog (records.map .client) = records := by
  induction records with
  | nil => rfl
  | cons record records inductionHypothesis => exact congrArg (record :: ·) inductionHypothesis

@[simp] theorem clientLog_server (records : List Server.Record) :
    clientLog (records.map .server) = [] := by
  induction records with
  | nil => rfl
  | cons record records inductionHypothesis => exact inductionHypothesis

theorem session_append (log more : List Event) :
    session (log ++ more) = more.foldl Event.extend (session log) := List.foldl_append

@[simp] theorem session_server (log : List Event) (records : List Server.Record) :
    session (log ++ records.map .server) = session log ++ records := by
  rw [session_append]
  generalize session log = sofar
  induction records generalizing sofar with
  | nil => exact (List.append_nil _).symm
  | cons record records inductionHypothesis =>
      rw [List.map_cons, List.foldl_cons, inductionHypothesis, Event.extend, List.append_assoc]
      rfl

theorem session_client (log : List Event) {records : List Client.Record}
    (dialless : records.any dials = false) :
    session (log ++ records.map .client) = session log := by
  rw [session_append]
  induction records with
  | nil => rfl
  | cons record records inductionHypothesis =>
      rw [List.any_cons, Bool.or_eq_false_iff] at dialless
      rw [List.map_cons, List.foldl_cons, Event.extend, dialless.1, if_neg Bool.false_ne_true]
      exact inductionHypothesis dialless.2

theorem heard_cases {Message : Type} [DecidableEq Message] {wire rest : List Message}
    {outcome : Except CodecError Message} (hears : heard wire outcome = some rest) :
    (∃ error, outcome = .error error ∧ rest = wire) ∨
      ∃ message, outcome = .ok message ∧ wire = message :: rest := by
  cases outcome with
  | error error => exact .inl ⟨error, rfl, (Option.some.inj hears).symm⟩
  | ok message =>
      rw [heard, Option.ite_none_right_eq_some] at hears
      obtain ⟨first, left⟩ := hears
      cases wire with
      | nil => cases first
      | cons head rest =>
          cases first
          cases left
          exact .inr ⟨_, rfl, rfl⟩

theorem readDown_cases {input : Client.Input} {down : List Outbound}
    (hears : s.readDown codec input = some down) : ∃ gone, s.down = gone ++ down := by
  unfold State.readDown at hears
  split at hears
  · rcases heard_cases hears with ⟨_, _, same⟩ | ⟨message, _, oldest⟩
    · exact ⟨[], by rw [same, List.nil_append]⟩
    · exact ⟨[message], oldest⟩
  · cases hears
    exact ⟨[], rfl⟩

theorem readUp_cases {input : Server.Input} {up : List Inbound}
    (hears : s.readUp codec input = some up) : up.Sublist s.up := by
  unfold State.readUp at hears
  split at hears
  · rcases heard_cases hears with ⟨_, _, same⟩ | ⟨message, _, oldest⟩
    · rw [same]
    · rw [oldest]
      exact List.sublist_cons_self _ _
  · cases hears
    exact List.Sublist.refl _

def asksFor (id : UInt64) : Inbound → Bool
  | .subscribe other _ => other = id
  | _ => false

theorem countP_messages (id : UInt64) (records : List Client.Record) :
    (records.filterMap message).countP (asksFor id) = Client.asked id records := by
  rw [List.countP_filterMap, Client.asked]
  refine List.countP_congr fun record _ => ?_
  cases record with
  | sent epoch message => cases message <;> exact Iff.rfl
  | _ => exact Iff.rfl

theorem keyNumbers_frames (key : String) (records : List Server.Record) :
    (records.filterMap frame).filterMap (Server.keyNumber key) =
      records.filterMap (Server.Record.keyNumber key) := by
  rw [List.filterMap_filterMap]
  refine List.filterMap_congr fun record _ => ?_
  cases record <;> rfl

/-- Each end has heard a part of what the other said, in order. -/
structure Wired (s : State) (log : List Event) : Prop where
  requests : ∀ id, Server.acceptances (subKey id) (session log) + s.up.countP (asksFor id) ≤
    Client.asked id (clientLog log)
  values : ∃ read, (read ++ s.down).Sublist ((session log).filterMap frame) ∧
    ∀ key stream, s.client.subs.lookup key = some stream →
      Client.told stream (clientLog log) = s.client.reached key ∧
        (s.client.reached key = 0 ∨
          s.client.reached key ∈ read.filterMap (Server.keyNumber key))

theorem Wired.reached_lt (wired : Wired s log) (counts : Server.Counts s.server (session log))
    {key : String} (once : Server.acceptances key (session log) ≤ 1) {stream : ℕ}
    (found : s.client.subs.lookup key = some stream) {value : Outbound} {rest : List Outbound}
    (down : s.down = value :: rest) {seq : UInt64} (numbered : value.numbered = some (key, seq)) :
    s.client.reached key < seq.toNat := by
  obtain ⟨read, inOrder, routes⟩ := wired.values
  obtain ⟨-, reached⟩ := routes key stream found
  have number : Server.keyNumber key value = some seq.toNat := by
    simp [Server.keyNumber, numbered, Option.filter]
  have rising := counts.keyed once
  rw [← keyNumbers_frames] at rising
  have fewer := (inOrder.filterMap (Server.keyNumber key)).cons_cons 0
  rw [down, List.filterMap_append, List.filterMap_cons_some number] at fewer
  have sorted := rising.sublist fewer
  rw [List.pairwise_cons, List.pairwise_append] at sorted
  obtain ⟨positive, -, -, above⟩ := sorted
  rcases reached with zero | mem
  · rw [zero]
    exact positive _ (List.mem_append_right _ List.mem_cons_self)
  · exact above _ mem _ List.mem_cons_self

theorem afterClient_eq {records : List Client.Record} (dialless : records.any dials = false)
    (down : List Outbound) (client : Client.State) : s.afterClient down client records =
      { s with client, down, up := s.up ++ records.filterMap message } := by
  rw [State.afterClient, dialless, if_neg Bool.false_ne_true]

theorem Wired.said (wired : Wired s log) {records : List Client.Record}
    (dialless : records.any dials = false) (id : UInt64) :
    Server.acceptances (subKey id) (session (log ++ records.map .client)) +
        (s.up ++ records.filterMap message).countP (asksFor id) ≤
      Client.asked id (clientLog (log ++ records.map .client)) := by
  have before := wired.requests id
  rw [session_client log dialless, clientLog_append, clientLog_client, Client.asked_append,
    List.countP_append, countP_messages]
  omega

theorem Wired.route (wired : Wired s log) {records : List Client.Record} {down : List Outbound}
    {client : Client.State} (dialless : records.any dials = false)
    {gone : List Outbound} (oldest : s.down = gone ++ down)
    (undelivered : ∀ stream seq update, .delivered stream seq update ∉ records)
    (routes : ∀ key stream, client.subs.lookup key = some stream →
      s.client.subs.lookup key = some stream ∧ client.reached key = s.client.reached key ∨
        Client.told stream (clientLog log) = 0 ∧ client.reached key = 0) :
    Wired (s.afterClient down client records) (log ++ records.map .client) := by
  obtain ⟨read, inOrder, reached⟩ := wired.values
  rw [afterClient_eq dialless]
  refine ⟨wired.said dialless, read ++ gone, ?_, fun key stream found => ?_⟩
  · rw [session_client log dialless, List.append_assoc, ← oldest]
    exact inOrder
  · rw [clientLog_append, clientLog_client, Client.told_append,
      Client.told_eq_zero (undelivered stream), Nat.add_zero]
    dsimp only
    rcases routes key stream found with ⟨old, same⟩ | ⟨untold, zero⟩
    · obtain ⟨told, was⟩ := reached key stream old
      rw [same, List.filterMap_append]
      exact ⟨told, was.imp_right (List.mem_append_left _)⟩
    · exact ⟨untold.trans zero.symm, .inl zero⟩

theorem dialed_of_step {input : Client.Input} {client : Client.State} {records : List Client.Record}
    (tables : Client.Tables s.client)
    (stepped : Client.step codec clientConfig platform s.client input = some (client, records))
    (dialed : records.any dials = true) :
    client.subs = ∅ ∧ ∃ epoch, records = [.dialed epoch] := by
  cases Client.took_of_step stepped with
  | dialed dialing _ =>
      exact ⟨(tables.vacant (by simp [dialing, Client.Engine.Connected])).2.1, _, rfl⟩
  | @failed _ cmd => cases cmd <;> simp [Client.State.fail, dials] at dialed
  | @delivered _ _ sub seq update mode =>
      rcases Client.deliver_cases s.client sub seq update mode with
        same | unrouted | ⟨_, _, _, _, _, pushed⟩
      · simp [same] at dialed
      · simp [unrouted] at dialed
      · simp [pushed, dials] at dialed
  | _ => simp [dials] at dialed

theorem Wired.deliver (wired : Wired s log) (ids : Client.Ids s.client)
    {key : String} {stream : ℕ} (found : s.client.subs.lookup key = some stream) {seq : UInt64}
    {update : SubUpdate}
    (skipped : update.skipped = Client.saturatingSub seq
      (Client.saturatingAdd ((s.client.lastSeq.lookup key).getD 0) 1))
    (above : s.client.reached key < seq.toNat) {value : Outbound} {down : List Outbound}
    (oldest : s.down = value :: down) (numbered : value.numbered = some (key, seq)) :
    Wired (s.afterClient down (s.client.push key stream seq update) [.delivered stream seq update])
      (log ++ [Client.Record.delivered stream seq update].map .client) := by
  obtain ⟨read, inOrder, reached⟩ := wired.values
  obtain ⟨total, own, others⟩ :=
    @Client.reached_push s.client key stream seq update skipped above
  have number : Server.keyNumber key value = some seq.toNat := by
    simp [Server.keyNumber, numbered, Option.filter]
  rw [afterClient_eq rfl]
  refine ⟨wired.said rfl, read ++ [value], ?_, fun other routed isRouted => ?_⟩
  · rw [session_client log rfl, List.append_assoc, List.singleton_append, ← oldest]
    exact inOrder
  · rw [clientLog_append, clientLog_client, Client.told_append, List.filterMap_append]
    dsimp only
    by_cases same : other = key
    · subst same
      obtain rfl : routed = stream := Option.some.inj (isRouted.symm.trans found)
      rw [own, (reached other routed found).1, ← total, List.filterMap_cons_some number]
      refine ⟨?_, .inr (List.mem_append_right _ (total ▸ List.mem_cons_self))⟩
      simp [Client.told, Client.Record.tells]
    · rw [others other same]
      have foreign : stream ≠ routed := by
        rintro rfl
        obtain ⟨first, hasFirst, keyFirst⟩ := ids.routed isRouted
        obtain ⟨second, hasSecond, keySecond⟩ := ids.routed found
        apply same
        rw [keyFirst, keySecond, Option.some.inj (hasFirst.symm.trans hasSecond)]
      obtain ⟨told, was⟩ := reached other routed isRouted
      refine ⟨?_, was.imp_right (List.mem_append_left _)⟩
      rw [told]
      simp [Client.told, Client.Record.tells, foreign]

theorem oldest_of_delivered {input : Client.Input} {client : Client.State}
    {records : List Client.Record} {down : List Outbound}
    (hears : s.readDown codec input = some down)
    (stepped : Client.step codec clientConfig platform s.client input = some (client, records))
    {stream : ℕ} {seq : UInt64} {update : SubUpdate}
    (mem : .delivered stream seq update ∈ records) :
    ∃ value key, s.down = value :: down ∧ Client.Carries key seq update value ∧
      s.client.subs.lookup key = some stream ∧
      update.skipped = Client.saturatingSub seq
        (Client.saturatingAdd ((s.client.lastSeq.lookup key).getD 0) 1) ∧
      client = s.client.push key stream seq update ∧
      records = [.delivered stream seq update] := by
  obtain ⟨bytes, value, key, rfl, decoded, carries, found, skipped, pushed, only⟩ :=
    Client.carries_of_delivered stepped mem
  rw [State.readDown, decoded] at hears
  rcases heard_cases hears with ⟨_, failed, _⟩ | ⟨message, same, oldest⟩
  · cases failed
  · cases same
    exact ⟨value, key, oldest, carries, found, skipped, pushed, only⟩

theorem accepted_once (wired : Wired s log)
    (subscribing : Client.Subscribing s.client (clientLog log))
    (id : UInt64) : Server.acceptances (subKey id) (session log) ≤ 1 := by
  have heard := wired.requests id
  by_cases never : Client.asked id (clientLog log) = 0
  · omega
  · have once := (subscribing.once never).1
    omega

theorem Wired.client (wired : Wired s log) {allowed : Client.State → Client.Input → Prop}
    (reached : Client.Runs codec clientConfig platform allowed s.client (clientLog log))
    (counts : Server.Counts s.server (session log)) {input : Client.Input} {client : Client.State}
    {records : List Client.Record} {down : List Outbound}
    (hears : s.readDown codec input = some down)
    (stepped : Client.step codec clientConfig platform s.client input = some (client, records)) :
    Wired (s.afterClient down client records) (log ++ records.map .client) := by
  obtain ⟨ids, -⟩ := Client.custody_of_runs reached
  have subscribing := Client.subscribing_of_runs reached
  by_cases dialed : records.any dials = true
  · obtain ⟨vacant, epoch, rfl⟩ :=
      dialed_of_step (Client.tables_of_runs reached) stepped dialed
    have fresh : session (log ++ [Client.Record.dialed epoch].map .client) = [] := by
      rw [session_append]
      rfl
    rw [State.afterClient, if_pos dialed]
    constructor
    · intro id
      rw [fresh]
      exact Nat.zero_le _
    · rw [fresh]
      refine ⟨[], List.Sublist.refl _, fun key stream found => ?_⟩
      change client.subs.lookup key = some stream at found
      rw [vacant] at found
      cases found
  rw [Bool.not_eq_true] at dialed
  obtain ⟨gone, oldest⟩ := readDown_cases hears
  cases (Client.took_of_step stepped).asks with
  | aside unasked undelivered engine continues =>
      refine wired.route dialed oldest undelivered fun key stream found => .inl ?_
      rcases continues key with ⟨same, cursor⟩ | ⟨ended, -⟩
      · rw [same] at found
        rw [Client.State.reached, cursor, Client.State.reached]
        exact ⟨found, rfl⟩
      · rw [ended] at found
        cases found
  | @routed id topic stream holding same none =>
      subst same none
      have commanded : .subscribe id topic stream ∈ s.client.commands := by
        simp [Client.State.commands, holding, Client.Engine.hand]
      obtain ⟨-, -, unrouted, undelivered⟩ := subscribing.commanded commanded
      refine wired.route rfl oldest (by simp) fun key other found => ?_
      change (s.client.subs.insert (subKey id) stream).lookup key = some other at found
      by_cases own : key = subKey id
      · subst own
        rw [AList.lookup_insert, Option.some.injEq] at found
        rw [← found, Client.told_eq_zero undelivered, Client.State.reached,
          subscribing.cursors unrouted]
        exact .inr ⟨rfl, rfl⟩
      · rw [AList.lookup_insert_ne own] at found
        exact .inl ⟨found, rfl⟩
  | asked sending same told =>
      subst same told
      exact wired.route rfl oldest (by simp) fun key stream found => .inl ⟨found, rfl⟩
  | @delivered key stream seq update found skipped same told =>
      obtain ⟨value, other, oldest, carries, routed, skips, pushed, only⟩ :=
        oldest_of_delivered hears stepped (told ▸ List.mem_singleton_self _)
      obtain ⟨id, has, named⟩ := ids.routed routed
      have once := accepted_once wired subscribing id
      rw [← named] at once
      have above := wired.reached_lt counts once routed oldest carries.numbered
      rw [pushed, only]
      exact wired.deliver ids routed skips above oldest carries.numbered

theorem Wired.server (wired : Wired s log) {input : Server.Input} {server : Server.State}
    {records : List Server.Record} {up : List Inbound} (hears : s.readUp codec input = some up)
    (stepped : Server.step codec serverConfig s.server input = some (server, records)) :
    Wired (s.afterServer up server records) (log ++ records.map .server) where
  requests id := by
    have before := wired.requests id
    rw [session_server, Server.acceptances_append, clientLog_append, clientLog_server,
      List.append_nil, State.afterServer]
    dsimp only
    have fewer : up.countP (asksFor id) ≤ s.up.countP (asksFor id) :=
      (readUp_cases hears).countP_le
    obtain ⟨-, took⟩ := Server.took_of_step stepped
    rcases took.accepts with none | ⟨bytes, answer, sends, other, topic, rfl, decoded, one⟩
    · rw [none]
      omega
    · rw [State.readUp, decoded] at hears
      rcases heard_cases hears with ⟨_, failed, _⟩ | ⟨message, same, oldest⟩
      · cases failed
      · cases same
        rw [oldest, List.countP_cons] at before
        rw [one]
        by_cases own : other = id
        · subst own
          rw [if_pos (by simp [asksFor])] at before
          rw [if_pos rfl]
          omega
        · rw [if_neg (subKey_injective.ne own)]
          omega
  values := by
    obtain ⟨read, inOrder, reached⟩ := wired.values
    rw [session_server, clientLog_append, clientLog_server, List.append_nil, List.filterMap_append]
    refine ⟨read, ?_, reached⟩
    rw [State.afterServer, ← List.append_assoc]
    exact inOrder.append (List.Sublist.refl _)

theorem Wired.lose (wired : Wired s log) {up : List Inbound} {down : List Outbound}
    (upFewer : up.Sublist s.up) (downFewer : down.Sublist s.down) :
    Wired { s with up, down } log where
  requests id := by
    have before := wired.requests id
    have fewer : up.countP (asksFor id) ≤ s.up.countP (asksFor id) := upFewer.countP_le
    dsimp only
    omega
  values := by
    obtain ⟨read, inOrder, reached⟩ := wired.values
    exact ⟨read, (downFewer.append_left read).trans inOrder, reached⟩

/-- No counter of a session runs past the end of a `u64`. -/
def InRange (s : State) : Input → Prop
  | .server input => Server.InRange s.server input
  | _ => True

variable (codec clientConfig platform serverConfig) in
abbrev Runs : State → List Event → Prop :=
  Reaches (step codec clientConfig platform serverConfig) InRange {}

/-- Each end makes a run of its own, and the wires join the two. -/
structure Joined (codec : EnvelopeCodec) (clientConfig : Client.ClientConfig)
    (platform : Client.Platform) (serverConfig : Server.SessionConfig) (s : State)
    (log : List Event) : Prop where
  client : Client.Runs codec clientConfig platform (fun _ _ => True) s.client (clientLog log)
  server : Server.Runs codec serverConfig Server.InRange s.server (session log)
  wired : Wired s log

theorem client_step {input : Client.Input} {emitted : List Event}
    (stepped : step codec clientConfig platform serverConfig s (.client input) =
      some (after, emitted)) :
    ∃ down client records, s.readDown codec input = some down ∧
      Client.step codec clientConfig platform s.client input = some (client, records) ∧
      after = s.afterClient down client records ∧ emitted = records.map .client := by
  simp only [step, Option.bind_eq_bind, Option.bind_eq_some_iff, Option.some.injEq,
    Prod.mk.injEq] at stepped
  obtain ⟨down, hears, ⟨client, records⟩, stepped, rfl, rfl⟩ := stepped
  exact ⟨down, client, records, hears, stepped, rfl, rfl⟩

theorem server_step {input : Server.Input} {emitted : List Event}
    (stepped : step codec clientConfig platform serverConfig s (.server input) =
      some (after, emitted)) :
    ∃ up server records, s.readUp codec input = some up ∧
      Server.step codec serverConfig s.server input = some (server, records) ∧
      after = s.afterServer up server records ∧ emitted = records.map .server := by
  simp only [step, Option.bind_eq_bind, Option.bind_eq_some_iff, Option.some.injEq,
    Prod.mk.injEq] at stepped
  obtain ⟨up, hears, ⟨server, records⟩, stepped, rfl, rfl⟩ := stepped
  exact ⟨up, server, records, hears, stepped, rfl, rfl⟩

theorem afterClient_client (down : List Outbound) (client : Client.State)
    (records : List Client.Record) : (s.afterClient down client records).client = client := by
  unfold State.afterClient
  split <;> rfl

theorem server_of_client {allowed : Server.State → Server.Input → Prop}
    (reached : Server.Runs codec serverConfig allowed s.server (session log))
    (tables : Client.Tables s.client) {input : Client.Input} {client : Client.State}
    {records : List Client.Record} (down : List Outbound)
    (stepped : Client.step codec clientConfig platform s.client input = some (client, records)) :
    Server.Runs codec serverConfig allowed (s.afterClient down client records).server
      (session (log ++ records.map .client)) := by
  by_cases dialed : records.any dials = true
  · obtain ⟨-, epoch, rfl⟩ := dialed_of_step tables stepped dialed
    rw [State.afterClient, if_pos dialed, session_append]
    exact .start
  · rw [Bool.not_eq_true] at dialed
    rw [afterClient_eq dialed, session_client log dialed]
    exact reached

theorem joined_of_runs (reached : Runs codec clientConfig platform serverConfig s log) :
    Joined codec clientConfig platform serverConfig s log := by
  refine reached.invariant (Joined codec clientConfig platform serverConfig) ?_ ?_
  · refine ⟨.start, .start, fun _ => Nat.zero_le _, [], List.Sublist.refl _, ?_⟩
    intro key stream found
    cases found
  · intro state log input after emitted _ inRange stepped joined
    have counts := Server.counts_of_runs joined.server
    cases input with
    | client input =>
        obtain ⟨down, client, records, hears, moved, rfl, rfl⟩ := client_step stepped
        refine ⟨?_, ?_, joined.wired.client joined.client counts hears moved⟩
        · rw [afterClient_client, clientLog_append, clientLog_client]
          exact joined.client.next trivial moved
        · exact server_of_client joined.server (Client.tables_of_runs joined.client) down moved
    | server input =>
        obtain ⟨up, server, records, hears, moved, rfl, rfl⟩ := server_step stepped
        refine ⟨?_, ?_, joined.wired.server hears moved⟩
        · rw [clientLog_append, clientLog_server, List.append_nil]
          exact joined.client
        · rw [session_server]
          exact joined.server.next inRange moved
    | loseUp index =>
        cases stepped
        rw [List.append_nil]
        exact ⟨joined.client, joined.server,
          joined.wired.lose (List.eraseIdx_sublist _ _) (List.Sublist.refl _)⟩
    | loseDown index =>
        cases stepped
        rw [List.append_nil]
        exact ⟨joined.client, joined.server,
          joined.wired.lose (List.Sublist.refl _) (List.eraseIdx_sublist _ _)⟩

/-- What a subscriber is told at a delivery: with what it was told before, it has
heard of as much as its source counted when the session took this value. -/
structure Accounted (s : State) (log : List Event) (stream : ℕ) (seq : UInt64)
    (update : SubUpdate) : Prop where
  total : Client.told stream (clientLog log) + (update.skipped.toNat + 1) = seq.toNat
  source : ∃ id generation value, (s.client.streams stream).id = some id ∧
    Client.Carries (subKey id) seq update value ∧
    Server.Genuine (session log) generation value ∧
    ∀ other snapshots, .accepted (subKey id) other snapshots ∈ session log →
    other = generation

theorem Joined.accounted {input : Input} {emitted : List Event}
    (joined : Joined codec clientConfig platform serverConfig s log)
    (stepped : step codec clientConfig platform serverConfig s input = some (after, emitted))
    {stream : ℕ} {seq : UInt64} {update : SubUpdate}
    (delivered : .client (.delivered stream seq update) ∈ emitted) :
    Accounted s log stream seq update := by
  have counts := Server.counts_of_runs joined.server
  obtain ⟨ids, -⟩ := Client.custody_of_runs joined.client
  cases input with
  | client input =>
      obtain ⟨down, client, records, hears, moved, rfl, rfl⟩ := client_step stepped
      obtain ⟨record, mem, same⟩ := List.mem_map.mp delivered
      cases same
      obtain ⟨value, key, oldest, carries, found, skipped, -, -⟩ :=
        oldest_of_delivered hears moved mem
      obtain ⟨id, has, named⟩ := ids.routed found
      subst named
      have once := accepted_once joined.wired (Client.subscribing_of_runs joined.client) id
      have above := joined.wired.reached_lt counts once found oldest carries.numbered
      obtain ⟨read, inOrder, routes⟩ := joined.wired.values
      obtain ⟨total, -⟩ := @Client.reached_push _ _ stream _ _ skipped above
      constructor
      · rw [(routes _ _ found).1]
        exact total
      · have onWire : value ∈ read ++ s.down := by simp [oldest]
        obtain ⟨record, said, framed⟩ := List.mem_filterMap.mp (inOrder.subset onWire)
        cases record with
        | sent origin other =>
            cases framed
            obtain ⟨generation, rfl, genuine⟩ :=
              counts.sent _ _ said (by rw [carries.numbered]; simp)
            obtain ⟨_, was⟩ := genuine.accepted carries.numbered
            exact ⟨id, generation, value, has, carries, genuine,
              fun other snapshots isOther => Server.generation_unique once isOther was⟩
        | _ => cases framed
  | server input =>
      obtain ⟨_, _, records, -, -, -, rfl⟩ := server_step stepped
      obtain ⟨_, _, same⟩ := List.mem_map.mp delivered
      cases same
  | loseUp index =>
      cases stepped
      cases delivered
  | loseDown index =>
      cases stepped
      cases delivered

theorem delivery_accounted {input : Input} {emitted : List Event}
    (reached : Runs codec clientConfig platform serverConfig s log)
    (stepped : step codec clientConfig platform serverConfig s input = some (after, emitted))
    {stream : ℕ} {seq : UInt64} {update : SubUpdate}
    (delivered : .client (.delivered stream seq update) ∈ emitted) :
    Accounted s log stream seq update :=
  (joined_of_runs reached).accounted stepped delivered

instance (s : Server.State) : DecidablePred (Server.InRange s)
  | .frame _ answer _ => inferInstanceAs (Decidable (answer.snapshots.length < 2 ^ 64))
  | .update index update => inferInstanceAs (Decidable (∀ pump ∈ s.subs[index]?,
      pump.seq.toNat + (update.skipped.toNat + 1) < 2 ^ 64))
  | .closed | .event _ | .drained _ _ | .finish _ => isTrue trivial

instance (s : State) : DecidablePred (InRange s)
  | .server input => inferInstanceAs (Decidable (Server.InRange s.server input))
  | .client _ | .loseUp _ | .loseDown _ => isTrue trivial

/-- A subscription whose one snapshot is lost on the wire, and an update told late. -/
def losing : List Input :=
  [.client (.dial (.ok ())), .client (.subscribe "a"), .client (.enqueue 0), .client .take,
    .client .act, .client (.sent true),
    .server (.frame (utf8 "\x7b\"t\":\"sub\",\"id\":1,\"topic\":\"a\"\x7d")
      { subscribe := .ok (), snapshots := [("a", utf8 "1", 5)] } []),
    .server (.update 0 ⟨none, utf8 "7", 9, 2, false⟩), .server (.event []), .loseDown 0]

/-- The lost snapshot and the two lost updates are told with the update that arrives. -/
theorem delivery_accounted_losing :
    ∃ s log, Accounted s log 0 4 ⟨none, utf8 "7", 9, 3, false⟩ := by
  have permits : Permits (step Server.aimx {} Client.platform32 {}) InRange {} losing := by
    decide
  have replayed : (replay (step Server.aimx {} Client.platform32 {}) {} losing).any (fun run =>
      (step Server.aimx {} Client.platform32 {} run.1 (.client (.inbound (some
        (utf8 "\x7b\"t\":\"event\",\"sub\":\"1\",\"seq\":4,\"ts\":9,\"data\":7\x7d"))))).any
        fun outcome => outcome.2 =
          [.client (.delivered 0 4 ⟨none, utf8 "7", 9, 3, false⟩)]) = true := by
    decide
  obtain ⟨⟨s, log⟩, run, stepped⟩ := (Option.any_eq_true _ _).mp replayed
  obtain ⟨⟨after, emitted⟩, stepped, told⟩ := (Option.any_eq_true _ _).mp stepped
  have reached := Reaches.start.replay permits run
  have only : emitted = [.client (.delivered 0 4 ⟨none, utf8 "7", 9, 3, false⟩)] :=
    of_decide_eq_true told
  exact ⟨s, log, delivery_accounted reached stepped (only ▸ List.mem_singleton_self _)⟩

theorem emitted_eq {input : Input} {emitted : List Event}
    (stepped : step codec clientConfig platform serverConfig s input = some (after, emitted))
    {stream : ℕ} {seq : UInt64} {update : SubUpdate}
    (delivered : .client (.delivered stream seq update) ∈ emitted) :
    emitted = [.client (.delivered stream seq update)] := by
  cases input with
  | client input =>
      obtain ⟨down, client, records, hears, moved, -, rfl⟩ := client_step stepped
      obtain ⟨record, mem, same⟩ := List.mem_map.mp delivered
      cases same
      obtain ⟨_, _, -, -, -, -, -, only⟩ := oldest_of_delivered hears moved mem
      rw [only, List.map_singleton]
  | server input =>
      obtain ⟨_, _, records, -, -, -, rfl⟩ := server_step stepped
      obtain ⟨_, _, same⟩ := List.mem_map.mp delivered
      cases same
  | loseUp index =>
      cases stepped
      cases delivered
  | loseDown index =>
      cases stepped
      cases delivered

/-- At every delivery of a run, the values its subscriber was handed and the losses it was
told of are as many as the number of the value says, which is what its source had counted. -/
structure FullyTold (codec : EnvelopeCodec) (clientConfig : Client.ClientConfig)
    (platform : Client.Platform) (serverConfig : Server.SessionConfig) (log : List Event) :
    Prop where
  sum : ∀ before rest stream seq update,
    log = before ++ .client (.delivered stream seq update) :: rest →
      Client.told stream (clientLog
        (before ++ [.client (.delivered stream seq update)])) = seq.toNat
  source : ∀ before rest stream seq update,
    log = before ++ .client (.delivered stream seq update) :: rest →
      ∃ s, Runs codec clientConfig platform serverConfig s before ∧
      Accounted s before stream seq update

theorem told_delivered {stream : ℕ} {seq : UInt64} {update : SubUpdate}
    (accounted : Accounted s log stream seq update) :
    Client.told stream (clientLog (log ++ [.client (.delivered stream seq update)])) =
        seq.toNat := by
  have own : Client.told stream (clientLog [.client (.delivered stream seq update)]) =
      update.skipped.toNat + 1 := by
    simp [clientLog, Event.ofClient, Client.told, Client.Record.tells]
  rw [clientLog_append, Client.told_append, own]
  exact accounted.total

theorem accounted_of_split (reached : Runs codec clientConfig platform serverConfig s log) :
    ∀ before rest stream seq update,
      log = before ++ .client (.delivered stream seq update) :: rest →
      ∃ s, Runs codec clientConfig platform serverConfig s before ∧
        Accounted s before stream seq update := by
  induction reached with
  | start =>
      intro before rest stream seq update split
      simp at split
  | @next state sofar input after emitted run inRange stepped inductionHypothesis =>
      intro before rest stream seq update split
      have here : ∀ more left, emitted =
        more ++ .client (.delivered stream seq update) :: left →
          more = [] ∧ Accounted state sofar stream seq update := by
        intro more left whole
        have delivered : .client (.delivered stream seq update) ∈ emitted := by
          rw [whole]
          exact List.mem_append_right _ List.mem_cons_self
        have only := congrArg List.length (whole.symm.trans (emitted_eq stepped delivered))
        rw [List.length_append, List.length_cons, List.length_singleton] at only
        refine ⟨List.eq_nil_of_length_eq_zero ?_,
          (joined_of_runs run).accounted stepped delivered⟩
        omega
      rcases List.append_eq_append_iff.mp split with
        ⟨more, early, late⟩ | ⟨more, early, late⟩
      · obtain ⟨rfl, accounted⟩ := here more rest late
        rw [early, List.append_nil]
        exact ⟨state, run, accounted⟩
      · cases more with
        | nil =>
            obtain ⟨-, accounted⟩ := here [] rest late.symm
            rw [List.append_nil] at early
            exact ⟨state, early ▸ run, early ▸ accounted⟩
        | cons first more =>
            rw [List.cons_append, List.cons.injEq] at late
            obtain ⟨rfl, rfl⟩ := late
            exact inductionHypothesis before more stream seq update early

/-- Nothing is counted twice, and nothing is lost untold. -/
theorem fullyTold_of_runs (reached : Runs codec clientConfig platform serverConfig s log) :
    FullyTold codec clientConfig platform serverConfig log where
  sum before rest stream seq update split := by
    obtain ⟨_, -, accounted⟩ := accounted_of_split reached before rest stream seq update split
    exact told_delivered accounted
  source := accounted_of_split reached

/-- The run of `losing`, and the update that arrives at last. -/
def tellsLate : List Input :=
  losing ++ [.client (.inbound (some
    (utf8 "\x7b\"t\":\"event\",\"sub\":\"1\",\"seq\":4,\"ts\":9,\"data\":7\x7d")))]

theorem fullyTold_of_runs_late :
    ∃ log, FullyTold Server.aimx {} Client.platform32 {} log ∧
      .client (.delivered 0 4 ⟨none, utf8 "7", 9, 3, false⟩) ∈ log := by
  have permits : Permits (step Server.aimx {} Client.platform32 {}) InRange {} tellsLate := by
    decide
  have replayed : (replay (step Server.aimx {} Client.platform32 {}) {} tellsLate).any (fun run =>
      decide (.client (.delivered 0 4 ⟨none, utf8 "7", 9, 3, false⟩) ∈ run.2)) = true := by
    decide
  obtain ⟨⟨s, log⟩, run, told⟩ := (Option.any_eq_true _ _).mp replayed
  exact ⟨log, fullyTold_of_runs (Reaches.start.replay permits run), of_decide_eq_true told⟩

end AimDb.Session.Duplex
