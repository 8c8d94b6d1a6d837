import AimDb.WebSocket.Server
import AimDb.WebSocket.ClientManager.Values
import Mathlib.Data.List.Basic

/-!
# The server does not look at values

Apart from the snapshots that are skipped because they are not JSON, changing every
value changes no decision of the server.
-/

namespace AimDb.WebSocket

open Session (Payload Stamp Outbound)
open Session.TopicMatch

variable (f : ℕ → Payload → Payload)

def Snapshot.mapData (snap : Snapshot) : Snapshot :=
  { snap with data := f snap.record snap.data }

def SubEvent.mapData (event : SubEvent) : SubEvent :=
  { event with data := f event.record event.data }

def Stage.mapData : Stage → Stage
  | .bursting left => .bursting (left.map (Snapshot.mapData f))
  | stage => stage

def Accepting.mapData (accepting : Accepting) : Accepting :=
  { accepting with stage := accepting.stage.mapData f }

def WsSession.mapData (session : WsSession) : WsSession :=
  { session with
    accepting := session.accepting.map (Accepting.mapData f)
    funnel := session.funnel.map (SubEvent.mapData f) }

def Loop.mapData : Loop → Loop
  | .taken message => .taken (message.mapData f)
  | loop => loop

def mapFrame (record : ℕ) : Outbound → Outbound
  | .event sub seq topic ts data => .event sub seq topic ts (f record data)
  | .snapshot sub seq last topic ts data => .snapshot sub seq last topic ts (f record data)
  | frame => frame

theorem SnapshotCache.insert_mapData (cache : SnapshotCache) (snap : Snapshot) :
    SnapshotCache.insert (cache.map (Snapshot.mapData f)) (snap.mapData f) =
      (cache.insert snap).map (Snapshot.mapData f) := by
  rw [insert, insert, List.map_append, List.filter_map]
  rfl

theorem SnapshotCache.iter_mapData (cache : SnapshotCache) (keys : List (ℕ × String)) :
    SnapshotCache.iter (cache.map (Snapshot.mapData f)) keys =
      (cache.iter keys).map (Snapshot.mapData f) := by
  rw [iter, iter, List.map_filterMap]
  congr 1
  funext key
  rw [List.find?_map]
  rfl

namespace Server

def mapData (s : Server) : Server :=
  { s with
    bus := s.bus.mapData f
    cache := s.cache.map (Snapshot.mapData f)
    loop := s.loop.mapData f
    sessions := Option.map (WsSession.mapData f) ∘ s.sessions }

def Input.mapData : Input → Input
  | .next message => .next (message.mapData f)
  | input => input

def Record.mapData : Record → Record
  | .taken message => .taken (message.mapData f)
  | .broadcast message => .broadcast (message.mapData f)
  | .value client stream record frame => .value client stream record (mapFrame f record frame)
  | record => record

def mapOutcome (outcome : Server × List Record) : Server × List Record :=
  (outcome.1.mapData f, outcome.2.map (Record.mapData f))

variable (config : Config) (s : Server) (client : ℕ)

@[simp] theorem mapData_bus : (s.mapData f).bus = s.bus.mapData f := rfl
@[simp] theorem mapData_cache : (s.mapData f).cache = s.cache.map (Snapshot.mapData f) := rfl
@[simp] theorem mapData_loop : (s.mapData f).loop = s.loop.mapData f := rfl
@[simp] theorem mapData_nextClient : (s.mapData f).nextClient = s.nextClient := rfl

@[simp] theorem mapData_sessions :
    (s.mapData f).sessions client = (s.sessions client).map (WsSession.mapData f) := rfl

@[simp] theorem mapData_setSession (session : Option WsSession) :
    (s.setSession client session).mapData f =
      (s.mapData f).setSession client (session.map (WsSession.mapData f)) := by
  simp [setSession, mapData, Function.comp_update]

theorem streams_mapData (session : WsSession) :
    WsSession.streams (session.mapData f) = WsSession.streams session := by
  obtain ⟨permissions, recordPerms, accepting, pumps, funnel⟩ := session
  cases accepting <;> rfl

theorem dropStream_mapData (stream : ℕ) :
    (s.mapData f).dropStream stream = (s.dropStream stream).mapData f := by
  unfold dropStream
  rw [mapData_bus, ClientManager.drop_mapData]
  cases s.bus.drop stream with
  | none => rfl
  | some outcome => rfl

theorem dropStreams_mapData (streams : List ℕ) :
    streams.foldl dropStream (s.mapData f) = (streams.foldl dropStream s).mapData f := by
  induction streams generalizing s with
  | nil => rfl
  | cons stream streams inductionHypothesis =>
      rw [List.foldl_cons, dropStream_mapData, inductionHypothesis]
      rfl

theorem snapshotsOf_mapData (session : WsSession) (topic : String) (keys : List (ℕ × String)) :
    (s.mapData f).snapshotsOf config (session.mapData f) topic keys =
      (s.snapshotsOf config session topic keys).map (Snapshot.mapData f) := by
  unfold snapshotsOf
  split_ifs
  · rw [mapData_cache, SnapshotCache.iter_mapData, List.filter_map, List.filter_map]
    rfl
  · rfl

theorem withSession_mapData {run mapped : WsSession → Option (Server × List Record)}
    {stepped steppedMapped : Option (Server × List Record)}
    (unfolds : stepped = match s.sessions client with
      | some session => run session
      | none => none)
    (unfoldsMapped : steppedMapped = match (s.mapData f).sessions client with
      | some session => mapped session
      | none => none)
    (same : ∀ session, mapped (session.mapData f) = (run session).map (mapOutcome f)) :
    steppedMapped = stepped.map (mapOutcome f) := by
  rw [unfolds, unfoldsMapped, mapData_sessions]
  cases s.sessions client with
  | none => rfl
  | some session => exact same session

theorem connect_mapData (permissions : Permissions) :
    (s.mapData f).connect config permissions = mapOutcome f (s.connect config permissions) := by
  simp [connect, mapOutcome, Record.mapData, mapData, setSession, Function.comp_update,
    WsSession.mapData]

theorem disconnect_mapData :
    (s.mapData f).disconnect client = (s.disconnect client).map (mapOutcome f) := by
  refine withSession_mapData f s client rfl rfl fun session => ?_
  rw [streams_mapData, Option.map_some, mapOutcome, ← dropStreams_mapData, mapData_setSession]
  rfl

theorem next_mapData (message : Message) :
    (s.mapData f).next config (message.mapData f) = (s.next config message).map (mapOutcome f) := by
  unfold next
  rw [mapData_loop]
  cases s.loop with
  | taken _ => rfl
  | broadcasting _ => rfl
  | waiting =>
      dsimp only [Loop.mapData, Option.map_some, mapOutcome]
      congr 2
      split_ifs
      · rw [mapData_cache]
        exact congrArg (fun cache => { s.mapData f with cache, loop := .taken (message.mapData f) })
          (SnapshotCache.insert_mapData f s.cache
            ⟨message.recordIndex, message.topic, message.payload, message.ts⟩)
      · rfl

theorem broadcast_mapData : (s.mapData f).broadcast = s.broadcast.map (mapOutcome f) := by
  unfold broadcast
  rw [mapData_loop]
  cases s.loop with
  | waiting => rfl
  | broadcasting _ => rfl
  | taken message =>
      dsimp only [Loop.mapData, Option.map_some, mapOutcome]
      rw [mapData_bus, ClientManager.begin_mapData]
      rfl

theorem onBus_mapData (input : ClientManager.Input) :
    (s.mapData f).onBus input = (s.onBus input).map (mapOutcome f) := by
  unfold onBus
  by_cases inner : Inner input = true
  · rw [if_pos inner, if_pos inner, mapData_bus]
    have same : (s.bus.mapData f).step input =
        (s.bus.step input).map (ClientManager.mapOutcome f) := by
      rw [← ClientManager.step_mapData]
      cases input <;> first | rfl | cases inner
    rw [same]
    cases s.bus.step input with
    | none => rfl
    | some outcome => cases input <;> rfl
  · rw [if_neg inner, if_neg inner]
    rfl

theorem subscribe_mapData (subId topic : String) :
    (s.mapData f).subscribe config client subId topic =
      (s.subscribe config client subId topic).map (mapOutcome f) := by
  refine withSession_mapData f s client rfl rfl fun session => ?_
  by_cases busy : session.accepting.isSome = true
  · have mapped : (session.mapData f).accepting.isSome = true := by
      simpa [WsSession.mapData] using busy
    rw [if_pos mapped, if_pos busy]
    rfl
  · have mapped : ¬ (session.mapData f).accepting.isSome = true := by
      simpa [WsSession.mapData] using busy
    rw [if_neg mapped, if_neg busy]
    by_cases refused : subId ∈ session.pumps.map Pump.subId ∨
        config.maxSubsPerConnection ≤ session.pumps.length ∨
        session.permissions.readPatterns = []
    · rw [if_pos refused, if_pos (show subId ∈ (session.mapData f).pumps.map Pump.subId ∨
        config.maxSubsPerConnection ≤ (session.mapData f).pumps.length ∨
        (session.mapData f).permissions.readPatterns = [] from refused)]
      rfl
    · rw [if_neg refused, if_neg (show ¬ (subId ∈ (session.mapData f).pumps.map Pump.subId ∨
        config.maxSubsPerConnection ≤ (session.mapData f).pumps.length ∨
        (session.mapData f).permissions.readPatterns = []) from refused)]
      rw [mapData_bus, ClientManager.subscribe_mapData]
      simp [ClientManager.mapOutcome, mapOutcome, Record.mapData, mapData, setSession,
        Function.comp_update, WsSession.mapData, Accepting.mapData, Stage.mapData]

theorem acknowledge_mapData :
    (s.mapData f).acknowledge client = (s.acknowledge client).map (mapOutcome f) := by
  refine withSession_mapData f s client rfl rfl fun session => ?_
  obtain ⟨permissions, recordPerms, accepting, pumps, funnel⟩ := session
  cases accepting with
  | none => rfl
  | some accepting =>
      obtain ⟨subId, topic, stream, stage, seq⟩ := accepting
      cases stage with
      | registered =>
          simp [WsSession.mapData, Accepting.mapData, Stage.mapData, mapOutcome, Record.mapData]
      | acknowledged => rfl
      | bursting left => rfl

theorem snapshots_mapData (keys : List (ℕ × String)) :
    (s.mapData f).snapshots config client keys =
      (s.snapshots config client keys).map (mapOutcome f) := by
  refine withSession_mapData f s client rfl rfl fun session => ?_
  have cached : (s.mapData f).cache.map Snapshot.key = s.cache.map Snapshot.key := by
    rw [mapData_cache, List.map_map]
    rfl
  cases accepts : session.accepting with
  | none => simp [WsSession.mapData, accepts]
  | some accepting =>
      have mapped : (session.mapData f).accepting = some (accepting.mapData f) := by
        rw [WsSession.mapData, accepts, Option.map_some]
      have asked : (accepting.mapData f).stage = .acknowledged ↔
          accepting.stage = .acknowledged := by
        cases stage : accepting.stage <;> simp [Accepting.mapData, stage, Stage.mapData]
      rw [mapped]
      dsimp only
      by_cases reads : accepting.stage = .acknowledged ∧ keys.Perm (s.cache.map Snapshot.key)
      · rw [if_pos (by rwa [asked, cached]), if_pos reads, snapshotsOf_mapData]
        simp [mapOutcome, Record.mapData, WsSession.mapData, Accepting.mapData, Stage.mapData]
      · rw [if_neg (by rwa [asked, cached]), if_neg reads]
        rfl

theorem pump_mapData : (s.mapData f).pump client = (s.pump client).map (mapOutcome f) := by
  refine withSession_mapData f s client rfl rfl fun session => ?_
  obtain ⟨permissions, recordPerms, accepting, pumps, funnel⟩ := session
  cases accepting with
  | none => rfl
  | some accepting =>
      obtain ⟨subId, topic, stream, stage, seq⟩ := accepting
      cases stage with
      | registered => rfl
      | acknowledged => rfl
      | bursting left =>
          cases left with
          | nil =>
              simp [WsSession.mapData, Accepting.mapData, Stage.mapData, mapOutcome,
                Record.mapData]
          | cons snap left => rfl

theorem unsubscribe_mapData (subId : String) :
    (s.mapData f).unsubscribe client subId = (s.unsubscribe client subId).map (mapOutcome f) := by
  refine withSession_mapData f s client rfl rfl fun session => ?_
  obtain ⟨permissions, recordPerms, accepting, pumps, funnel⟩ := session
  cases accepting with
  | some accepting => rfl
  | none =>
      dsimp only [WsSession.mapData, Option.map_none]
      cases pumps.find? (·.subId = subId) with
      | none => rfl
      | some pump =>
          simp only [Option.isSome_none, Bool.false_eq_true, if_false, Option.map_some, mapOutcome,
            ← dropStream_mapData, mapData_setSession]
          rfl

theorem pull_mapData (index : ℕ) :
    (s.mapData f).pull client index = (s.pull client index).map (mapOutcome f) := by
  refine withSession_mapData f s client rfl rfl fun session => ?_
  obtain ⟨permissions, recordPerms, accepting, pumps, funnel⟩ := session
  cases accepting with
  | some accepting => rfl
  | none =>
      dsimp only [WsSession.mapData, Option.map_none]
      cases pumps[index]? with
      | none => rfl
      | some pump =>
          dsimp only
          rw [mapData_bus, ClientManager.poll_mapData]
          cases polled : s.bus.poll pump.stream with
          | none => rfl
          | some outcome =>
              obtain ⟨bus, _ | ⟨record, _ | ⟨other, records⟩⟩⟩ := outcome
              · rfl
              · cases record with
                | subscribed _ _ _ => rfl
                | reached _ _ _ => rfl
                | yielded sub item =>
                    simp only [Option.map_some, ClientManager.mapOutcome, List.map_cons,
                      List.map_nil, ClientManager.Record.mapData, Queued.mapData, List.length_map,
                      mapOutcome, mapData, Function.comp_update, setSession, WsSession.mapData,
                      Option.map_none]
                    split_ifs
                    · rw [List.map_append]
                      rfl
                    · rfl
              · cases record <;> rfl

theorem forward_mapData : (s.mapData f).forward client = (s.forward client).map (mapOutcome f) := by
  refine withSession_mapData f s client rfl rfl fun session => ?_
  obtain ⟨permissions, recordPerms, accepting, pumps, funnel⟩ := session
  cases accepting with
  | some accepting => rfl
  | none =>
      cases funnel with
      | nil => rfl
      | cons event funnel =>
          simp [WsSession.mapData, mapOutcome, Record.mapData, SubEvent.mapData, SubEvent.frame,
            mapFrame]

theorem list_mapData (metadata : ℕ → Metadata) :
    (s.mapData f).list config client metadata =
      (s.list config client metadata).map (mapOutcome f) := by
  refine withSession_mapData f s client rfl rfl fun session => ?_
  obtain ⟨permissions, recordPerms, accepting, pumps, funnel⟩ := session
  cases accepting <;> rfl

theorem query_mapData (answer : Option (Except Unit (List QueryRecord))) :
    (s.mapData f).query client answer = (s.query client answer).map (mapOutcome f) := by
  refine withSession_mapData f s client rfl rfl fun session => ?_
  obtain ⟨permissions, recordPerms, accepting, pumps, funnel⟩ := session
  cases accepting <;> rfl

/-- Where the next snapshot is not JSON it is skipped, but the burst goes on alike. -/
theorem snapshot_mapData :
    ((s.mapData f).snapshot config client).map Prod.fst =
      (s.snapshot config client).map fun outcome => outcome.1.mapData f := by
  unfold snapshot
  rw [mapData_sessions]
  cases s.sessions client with
  | none => rfl
  | some session =>
      obtain ⟨permissions, recordPerms, accepting, pumps, funnel⟩ := session
      cases accepting with
      | none => rfl
      | some accepting =>
          obtain ⟨subId, topic, stream, stage, seq⟩ := accepting
          cases stage with
          | registered => rfl
          | acknowledged => rfl
          | bursting left =>
              cases left with
              | nil => rfl
              | cons snap left => simp [WsSession.mapData, Accepting.mapData, Stage.mapData]

theorem step_mapData {input : Input} (other : ∀ client, input ≠ .snapshot client) :
    step config (s.mapData f) (input.mapData f) = (step config s input).map (mapOutcome f) := by
  cases input with
  | connect permissions => exact congrArg some (connect_mapData f config s permissions)
  | disconnect client => exact disconnect_mapData f s client
  | next message => exact next_mapData f config s message
  | broadcast => exact broadcast_mapData f s
  | bus input => exact onBus_mapData f s input
  | subscribe client subId topic => exact subscribe_mapData f config s client subId topic
  | acknowledge client => exact acknowledge_mapData f s client
  | snapshots client keys => exact snapshots_mapData f config s client keys
  | snapshot client => exact absurd rfl (other client)
  | pump client => exact pump_mapData f s client
  | unsubscribe client subId => exact unsubscribe_mapData f s client subId
  | pull client index => exact pull_mapData f s client index
  | forward client => exact forward_mapData f s client
  | list client metadata => exact list_mapData f config s client metadata
  | query client answer => exact query_mapData f s client answer

end Server

end AimDb.WebSocket
