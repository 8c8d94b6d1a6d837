import AimDb.WebSocket.Server
import AimDb.WebSocket.ClientManager.Steps

/-!
# The steps of the server
-/

namespace AimDb.WebSocket.Server

open Session (Payload Stamp Outbound RpcError)
open ClientManager (update)

/-- The loop after a step of the bus: a broadcast that ends lets it go on. -/
def loopAfter (s : Server) : ClientManager.Input → Loop
  | .finish _ => .waiting
  | _ => s.loop

def eventOf (pump : Pump) (item : Queued) : SubEvent :=
  ⟨pump.stream, item.record, pump.subId, pump.seq + (UInt64.ofNat item.update.skipped + 1),
    item.update.topic, item.update.ts, item.update.data⟩

inductive Step (config : Config) (s : Server) : Input → Server → List Record → Prop
  | connected (permissions : Permissions) :
      Step config s (.connect permissions) (s.connect config permissions).1
        (s.connect config permissions).2
  | disconnected {client : ℕ} {session : WsSession} :
      s.sessions client = some session →
      Step config s (.disconnect client)
        ((WsSession.streams session).foldl dropStream (s.setSession client none)) []
  | taken {message : Message} :
      s.loop = .waiting →
      Step config s (.next message) { s with
        cache := if config.lateJoin then
          s.cache.insert ⟨message.recordIndex, message.topic, message.payload, message.ts⟩
          else s.cache
        loop := .taken message } [.taken message]
  | began {message : Message} :
      s.loop = .taken message →
      Step config s .broadcast
        { s with bus := (s.bus.begin message).1, loop := .broadcasting s.bus.begun }
        [.broadcast message]
  | moved {input : ClientManager.Input} {bus : ClientManager}
      {emitted : List ClientManager.Record} :
      Inner input = true → s.bus.step input = some (bus, emitted) →
      Step config s (.bus input) { s with bus, loop := s.loopAfter input } []
  | refused {client : ℕ} {session : WsSession} (subId topic : String) :
      s.sessions client = some session →
      Step config s (.subscribe client subId topic) s [.refused client subId]
  | accepted {client : ℕ} {session : WsSession} (subId topic : String) :
      s.sessions client = some session → session.accepting = none →
      session.permissions.readPatterns ≠ [] →
      Step config s (.subscribe client subId topic) { s.setSession client (some { session with
          accepting := some { subId, topic, stream := s.bus.nextSub } }) with
        bus := (s.bus.subscribe topic session.recordPerms).1 }
        [.accepted client s.bus.nextSub topic]
  | acknowledged {client : ℕ} {session : WsSession} {accepting : Accepting} :
      s.sessions client = some session → session.accepting = some accepting →
      accepting.stage = .registered →
      Step config s (.acknowledge client) (s.setSession client (some { session with
        accepting := some { accepting with stage := .acknowledged } }))
        [.acknowledged client accepting.subId]
  | read {client : ℕ} {session : WsSession} {accepting : Accepting}
      {keys : List (ℕ × String)} :
      s.sessions client = some session → session.accepting = some accepting →
      accepting.stage = .acknowledged → keys.Perm (s.cache.map Snapshot.key) →
      Step config s (.snapshots client keys) (s.setSession client (some { session with
        accepting := some { accepting with
          stage := .bursting (s.snapshotsOf config session accepting.topic keys) } }))
        [.snapshotsRead client accepting.stream]
  | burst {client : ℕ} {session : WsSession} {accepting : Accepting} {snap : Snapshot}
      {left : List Snapshot} :
      s.sessions client = some session → session.accepting = some accepting →
      accepting.stage = .bursting (snap :: left) →
      Step config s (.snapshot client) (s.setSession client (some { session with
        accepting := some { accepting with stage := .bursting left, seq := accepting.seq + 1 } }))
        (if config.asRaw snap.data then
          [.value client accepting.stream snap.record (.snapshot accepting.subId
            (accepting.seq + 1) left.isEmpty snap.topic snap.ts snap.data)] else [])
  | pumped {client : ℕ} {session : WsSession} {accepting : Accepting} :
      s.sessions client = some session → session.accepting = some accepting →
      accepting.stage = .bursting [] →
      Step config s (.pump client) (s.setSession client (some { session with
        accepting := none
        pumps := session.pumps ++
          [⟨accepting.subId, accepting.topic, accepting.stream, accepting.seq⟩] }))
        [.pumping client accepting.stream]
  | unsubscribed {client : ℕ} {session : WsSession} {pump : Pump} (subId : String) :
      s.sessions client = some session → session.accepting = none → pump ∈ session.pumps →
      Step config s (.unsubscribe client subId) ((s.setSession client
        (some { session with pumps := session.pumps.erase pump })).dropStream pump.stream) []
  | ignored (client : ℕ) (subId : String) : Step config s (.unsubscribe client subId) s []
  | pulled {client index : ℕ} {session : WsSession} {pump : Pump} {bus : ClientManager}
      {stream : ℕ} {item : Queued} :
      s.sessions client = some session → session.accepting = none →
      session.pumps[index]? = some pump →
      s.bus.poll pump.stream = some (bus, [.yielded stream item]) →
      Step config s (.pull client index) { s.setSession client (some { session with
          accepting := none
          pumps := session.pumps.set index
            { pump with seq := pump.seq + (UInt64.ofNat item.update.skipped + 1) }
          funnel := if session.funnel.length < eventBuffer then
            session.funnel ++ [eventOf pump item] else session.funnel }) with bus } []
  | forwarded {client : ℕ} {session : WsSession} {event : SubEvent} {funnel : List SubEvent} :
      s.sessions client = some session → session.accepting = none →
      session.funnel = event :: funnel →
      Step config s (.forward client)
        (s.setSession client (some { session with accepting := none, funnel }))
        [.value client event.stream event.record (SubEvent.frame event)]
  | listed {client : ℕ} {session : WsSession} (metadata : ℕ → Metadata) :
      s.sessions client = some session →
      Step config s (.list client metadata) s [.listed client
        (((listRecords config.records metadata).filter fun row =>
        session.recordPerms.isAllowed row.recordId.toNat).map (·.stamp config.schemaByType))]
  | failed {client : ℕ} {session : WsSession} (answer : Option (Except Unit (List QueryRecord)))
      (error : RpcError) :
      s.sessions client = some session →
      Step config s (.query client answer) s [.queried client (.error error)]
  | queried {client : ℕ} {session : WsSession} (records : List QueryRecord) :
      s.sessions client = some session → session.permissions.readPatterns ≠ [] →
      Step config s (.query client (some (.ok records))) s [.queried client
        (.ok (records.filter fun r => session.permissions.canRead r.topic))]

variable {config : Config} {s after : Server} {input : Input} {emitted : List Record}

theorem withSession {client : ℕ} {run : WsSession → Option (Server × List Record)}
    {stepped : Option (Server × List Record)}
    (unfolds : stepped = match s.sessions client with
      | some session => run session
      | none => none) (taken : stepped = some (after, emitted)) :
    ∃ session, s.sessions client = some session ∧ run session = some (after, emitted) := by
  rw [unfolds] at taken
  cases found : s.sessions client with
  | none => simp [found] at taken
  | some session => exact ⟨session, rfl, by simpa [found] using taken⟩

theorem Step.of_subscribe {client : ℕ} {subId topic : String}
    (stepped : s.subscribe config client subId topic = some (after, emitted)) :
    Step config s (.subscribe client subId topic) after emitted := by
  obtain ⟨session, found, stepped⟩ := withSession rfl stepped
  split_ifs at stepped with busy refused
  · cases stepped
    exact .refused subId topic found
  · cases stepped
    simp only [not_or] at refused
    exact .accepted subId topic found (by simpa using busy) refused.2.2

theorem Step.of_acknowledge {client : ℕ}
    (stepped : s.acknowledge client = some (after, emitted)) :
    Step config s (.acknowledge client) after emitted := by
  obtain ⟨session, found, stepped⟩ := withSession rfl stepped
  cases accepts : session.accepting with
  | none => simp [accepts] at stepped
  | some accepting =>
      simp only [accepts] at stepped
      split_ifs at stepped with stage
      cases stepped
      exact .acknowledged found accepts stage

theorem Step.of_snapshots {client : ℕ} {keys : List (ℕ × String)}
    (stepped : s.snapshots config client keys = some (after, emitted)) :
    Step config s (.snapshots client keys) after emitted := by
  obtain ⟨session, found, stepped⟩ := withSession rfl stepped
  cases accepts : session.accepting with
  | none => simp [accepts] at stepped
  | some accepting =>
      simp only [accepts] at stepped
      split_ifs at stepped with stage
      cases stepped
      exact .read found accepts stage.1 stage.2

theorem Step.of_snapshot {client : ℕ}
    (stepped : s.snapshot config client = some (after, emitted)) :
    Step config s (.snapshot client) after emitted := by
  obtain ⟨session, found, stepped⟩ := withSession rfl stepped
  cases accepts : session.accepting with
  | none => simp [accepts] at stepped
  | some accepting =>
      cases stage : accepting.stage with
      | registered => simp [accepts, stage] at stepped
      | acknowledged => simp [accepts, stage] at stepped
      | bursting left =>
          cases left with
          | nil => simp [accepts, stage] at stepped
          | cons snap left =>
              simp only [accepts, stage] at stepped
              cases stepped
              exact .burst found accepts stage

theorem Step.of_pump {client : ℕ} (stepped : s.pump client = some (after, emitted)) :
    Step config s (.pump client) after emitted := by
  obtain ⟨session, found, stepped⟩ := withSession rfl stepped
  cases accepts : session.accepting with
  | none => simp [accepts] at stepped
  | some accepting =>
      simp only [accepts] at stepped
      split_ifs at stepped with stage
      cases stepped
      exact .pumped found accepts stage

theorem Step.of_unsubscribe {client : ℕ} {subId : String}
    (stepped : s.unsubscribe client subId = some (after, emitted)) :
    Step config s (.unsubscribe client subId) after emitted := by
  obtain ⟨session, found, stepped⟩ := withSession rfl stepped
  split_ifs at stepped with busy
  cases isPump : session.pumps.find? (·.subId = subId) with
  | none =>
      simp only [isPump] at stepped
      cases stepped
      exact .ignored client subId
  | some pump =>
      simp only [isPump] at stepped
      cases stepped
      exact .unsubscribed subId found (by simpa using busy) (List.mem_of_find?_eq_some isPump)

theorem Step.of_pull {client index : ℕ} (stepped : s.pull client index = some (after, emitted)) :
    Step config s (.pull client index) after emitted := by
  obtain ⟨session, found, stepped⟩ := withSession rfl stepped
  cases idle : session.accepting with
  | some accepting => simp [idle] at stepped
  | none =>
      cases isPump : session.pumps[index]? with
      | none => simp [idle, isPump] at stepped
      | some pump =>
          simp only [idle, isPump] at stepped
          split at stepped
          · rename_i polled
            cases stepped
            exact .pulled found idle isPump polled
          · cases stepped

theorem Step.of_forward {client : ℕ} (stepped : s.forward client = some (after, emitted)) :
    Step config s (.forward client) after emitted := by
  obtain ⟨session, found, stepped⟩ := withSession rfl stepped
  cases idle : session.accepting with
  | some accepting => simp [idle] at stepped
  | none =>
      cases queued : session.funnel with
      | nil => simp [idle, queued] at stepped
      | cons event funnel =>
          simp only [idle, queued] at stepped
          cases stepped
          exact .forwarded found idle queued

theorem Step.of_query {client : ℕ} {answer : Option (Except Unit (List QueryRecord))}
    (stepped : s.query client answer = some (after, emitted)) :
    Step config s (.query client answer) after emitted := by
  obtain ⟨session, found, stepped⟩ := withSession rfl stepped
  split_ifs at stepped with busy denied
  · cases stepped
    exact .failed _ _ found
  · cases answer with
    | none =>
        cases stepped
        exact .failed _ _ found
    | some result =>
        cases result with
        | error _ =>
            cases stepped
            exact .failed _ _ found
        | ok records =>
            cases stepped
            exact .queried records found denied

theorem Step.of_step (stepped : step config s input = some (after, emitted)) :
    Step config s input after emitted := by
  cases input with
  | connect permissions =>
      cases stepped
      exact .connected permissions
  | disconnect client =>
      obtain ⟨session, found, stepped⟩ := withSession rfl stepped
      cases stepped
      exact .disconnected found
  | next message =>
      simp only [step, next] at stepped
      cases waits : s.loop with
      | waiting =>
          simp only [waits] at stepped
          cases stepped
          exact .taken waits
      | _ => simp [waits] at stepped
  | broadcast =>
      simp only [step, broadcast] at stepped
      cases holds : s.loop with
      | taken message =>
          simp only [holds] at stepped
          cases stepped
          exact .began holds
      | _ => simp [holds] at stepped
  | bus input =>
      simp only [step, onBus] at stepped
      split_ifs at stepped with inner
      cases moved : s.bus.step input with
      | none => simp [moved] at stepped
      | some outcome =>
          simp only [moved] at stepped
          cases stepped
          exact .moved inner moved
  | subscribe client subId topic => exact of_subscribe stepped
  | acknowledge client => exact of_acknowledge stepped
  | snapshots client keys => exact of_snapshots stepped
  | snapshot client => exact of_snapshot stepped
  | pump client => exact of_pump stepped
  | unsubscribe client subId => exact of_unsubscribe stepped
  | pull client index => exact of_pull stepped
  | forward client => exact of_forward stepped
  | list client metadata =>
      obtain ⟨session, found, stepped⟩ := withSession rfl stepped
      split_ifs at stepped with busy
      cases stepped
      exact .listed metadata found
  | query client answer => exact of_query stepped

end AimDb.WebSocket.Server
