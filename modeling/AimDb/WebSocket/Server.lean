import AimDb.WebSocket.ClientManager
import AimDb.Json.Text

/-!
# The WebSocket server

One broadcast loop feeds the bus and the cache of late-join snapshots; every client has
a session that subscribes at the bus, reads the cache and answers calls.  The steps of
a broadcast, of a session that accepts a subscription and of the pumps interleave.
A client that is gone, for whatever reason, is one that disconnects.
-/

namespace AimDb.WebSocket

open Session (Payload Stamp Outbound RpcError)
open Session.TopicMatch

/-- The records, in registration order, and what the connector was built with. -/
structure Config where
  records : List String
  channelCapacity : ℕ := 256
  lateJoin : Bool := true
  maxSubsPerConnection : ℕ := 1024
  schemaByType : List (String × String) := []
  /-- Whether the envelope takes a payload as raw JSON. -/
  asRaw : Payload → Bool

/-- A cached value: record index, topic, bytes and stamp. -/
structure Snapshot where
  record : ℕ
  topic : String
  data : Payload
  ts : Stamp
  deriving DecidableEq, Repr

abbrev SnapshotCache := List Snapshot

def Snapshot.key (snap : Snapshot) : ℕ × String := (snap.record, snap.topic)

def SnapshotCache.insert (cache : SnapshotCache) (snap : Snapshot) : SnapshotCache :=
  cache.filter (fun other => other.key ≠ snap.key) ++ [snap]

def SnapshotCache.iter (cache : SnapshotCache) (keys : List (ℕ × String)) : List Snapshot :=
  keys.filterMap fun key => cache.find? fun snap => snap.key = key

structure RecordMetadata where
  recordId : UInt32
  recordKey : String
  typeId : String
  schemaType : Option String
  rest : Payload
  deriving DecidableEq, Repr

/-- What core knows of a record when it is asked. -/
structure Metadata where
  typeId : String
  schemaType : Option String
  rest : Payload
  deriving DecidableEq, Repr

/-- Core's rows, one for each record; a record id is a `u32`. -/
def listRecords (records : List String) (metadata : ℕ → Metadata) : List RecordMetadata :=
  records.zipIdx.map fun (key, i) =>
    ⟨UInt32.ofNat i, key, (metadata i).typeId, (metadata i).schemaType, (metadata i).rest⟩

/-- A row with the schema name core cannot resolve. -/
def RecordMetadata.stamp (row : RecordMetadata) (schemaByType : List (String × String)) :
    RecordMetadata :=
  { row with schemaType := row.schemaType.or (schemaByType.lookup row.typeId) }

structure QueryRecord where
  topic : String
  payload : Json.Value
  ts : UInt64

/-- How far the acceptance of a subscription has come. -/
inductive Stage where
  | registered
  | acknowledged
  | bursting (left : List Snapshot)
  deriving DecidableEq, Repr

/-- A `Subscribe` being accepted. -/
structure Accepting where
  subId : String
  topic : String
  stream : ℕ
  stage : Stage := .registered
  seq : UInt64 := 0
  deriving DecidableEq, Repr

structure Pump where
  subId : String
  topic : String
  stream : ℕ
  seq : UInt64
  deriving DecidableEq, Repr

/-- An event in the funnel, with the stream it came from and the record it is of.  The
code keeps no such tags and no step reads them. -/
structure SubEvent where
  stream : ℕ
  record : ℕ
  subId : String
  seq : UInt64
  topic : String
  ts : Stamp
  data : Payload
  deriving DecidableEq, Repr

def eventBuffer : ℕ := 256

structure WsSession where
  permissions : Permissions
  recordPerms : RecordsBits
  accepting : Option Accepting := none
  pumps : List Pump := []
  funnel : List SubEvent := []
  deriving DecidableEq, Repr

inductive Loop where
  | waiting
  | taken (message : Message)
  | broadcasting (broadcast : ℕ)
  deriving DecidableEq, Repr

structure Server where
  bus : ClientManager
  cache : SnapshotCache := []
  loop : Loop := .waiting
  sessions : ℕ → Option WsSession := fun _ => none
  nextClient : ℕ := 1

namespace Server

def new (config : Config) : Server := { bus := .new (max config.channelCapacity 1) }

inductive Input where
  | connect (permissions : Permissions)
  | disconnect (client : ℕ)
  | next (message : Message)
  | broadcast
  | bus (input : ClientManager.Input)
  | subscribe (client : ℕ) (subId topic : String)
  | acknowledge (client : ℕ)
  | snapshots (client : ℕ) (keys : List (ℕ × String))
  | snapshot (client : ℕ)
  | pump (client : ℕ)
  | unsubscribe (client : ℕ) (subId : String)
  | pull (client : ℕ) (pump : ℕ)
  | forward (client : ℕ)
  | list (client : ℕ) (metadata : ℕ → Metadata)
  /-- `none` is a database without a query handler. -/
  | query (client : ℕ) (answer : Option (Except Unit (List QueryRecord)))

/-- What a step did.  A value sent carries the stream and the record it is of. -/
inductive Record where
  | connected (client : ℕ) (permissions : Permissions)
  | taken (message : Message)
  | broadcast (message : Message)
  | accepted (client : ℕ) (stream : ℕ) (topic : String)
  | snapshotsRead (client : ℕ) (stream : ℕ)
  | pumping (client : ℕ) (stream : ℕ)
  | value (client : ℕ) (stream : ℕ) (record : ℕ) (frame : Outbound)
  | acknowledged (client : ℕ) (subId : String)
  | refused (client : ℕ) (subId : String)
  | listed (client : ℕ) (rows : List RecordMetadata)
  | queried (client : ℕ) (rows : Except RpcError (List QueryRecord))

variable (config : Config) (s : Server)

def setSession (client : ℕ) (session : Option WsSession) : Server :=
  { s with sessions := Function.update s.sessions client session }

/-- Drop a stream; its receiver and its guard follow in steps of their own. -/
def dropStream (stream : ℕ) : Server :=
  match s.bus.drop stream with
  | some (bus, _) => { s with bus }
  | none => s

def WsSession.streams (session : WsSession) : List ℕ :=
  session.accepting.toList.map Accepting.stream ++ session.pumps.map Pump.stream

/-- The upgrade resolves the permissions into the mask of the session. -/
def connect (permissions : Permissions) : Server × List Record :=
  let recordPerms := RecordsBits.resolvePermissions config.records permissions
  ({ s.setSession s.nextClient (some { permissions, recordPerms }) with
      nextClient := s.nextClient + 1 },
    [.connected s.nextClient permissions])

def disconnect (client : ℕ) : Option (Server × List Record) :=
  match s.sessions client with
  | some session =>
      some ((WsSession.streams session).foldl dropStream (s.setSession client none), [])
  | none => none

/-- The next outbound message; with late join its value is cached first. -/
def next (message : Message) : Option (Server × List Record) :=
  match s.loop with
  | .waiting =>
      let cache := if config.lateJoin then
        s.cache.insert ⟨message.recordIndex, message.topic, message.payload, message.ts⟩
        else s.cache
      some ({ s with cache, loop := .taken message }, [.taken message])
  | .taken _ | .broadcasting _ => none

def broadcast : Option (Server × List Record) :=
  match s.loop with
  | .taken message =>
      some ({ s with bus := (s.bus.begin message).1, loop := .broadcasting s.bus.begun },
        [.broadcast message])
  | .waiting | .broadcasting _ => none

/-- The steps of the bus that no session and no loop takes: those inside a broadcast,
and those of streams that are being dropped. -/
def Inner : ClientManager.Input → Bool
  | .visit _ _ | .trySend _ | .restore _ | .endIteration _ | .prune _ | .finish _
  | .dropReceiver _ | .dropGuard _ => true
  | .subscribe _ _ | .broadcast _ | .poll _ | .drop _ => false

def onBus (input : ClientManager.Input) : Option (Server × List Record) :=
  if Inner input then
    match s.bus.step input with
    | some (bus, _) =>
        let loop := match input with
          | .finish _ => .waiting
          | _ => s.loop
        some ({ s with bus, loop }, [])
    | none => none
  else none

/-- A `Subscribe` is refused if its id is in use, if the client has too many
subscriptions or if it may read nothing; otherwise it is registered on the bus. -/
def subscribe (client : ℕ) (subId topic : String) : Option (Server × List Record) :=
  match s.sessions client with
  | some session =>
      if session.accepting.isSome then none
      else if subId ∈ session.pumps.map Pump.subId ∨
          config.maxSubsPerConnection ≤ session.pumps.length ∨
          session.permissions.readPatterns = [] then
        some (s, [.refused client subId])
      else
        let stream := s.bus.nextSub
        let accepting := some { subId, topic, stream }
        some ({ s.setSession client (some { session with accepting }) with
            bus := (s.bus.subscribe topic session.recordPerms).1 },
          [.accepted client stream topic])
  | none => none

def acknowledge (client : ℕ) : Option (Server × List Record) :=
  match s.sessions client with
  | some session =>
      match session.accepting with
      | some accepting =>
          if accepting.stage = .registered then
            some (s.setSession client
                (some { session with accepting := some { accepting with stage := .acknowledged } }),
              [.acknowledged client accepting.subId])
          else none
      | none => none
  | none => none

/-- The cached values a session hands to the engine: those the pattern matches, of the
records the client may read. -/
def snapshotsOf (session : WsSession) (topic : String) (keys : List (ℕ × String)) :
    List Snapshot :=
  if config.lateJoin then
    ((s.cache.iter keys).filter fun snap => topicMatches topic snap.topic).filter fun snap =>
      session.recordPerms.isAllowed snap.record
  else []

def snapshots (client : ℕ) (keys : List (ℕ × String)) : Option (Server × List Record) :=
  match s.sessions client with
  | some session =>
      match session.accepting with
      | some accepting =>
          if accepting.stage = .acknowledged ∧ keys.Perm (s.cache.map Snapshot.key) then
            let stage := .bursting (s.snapshotsOf config session accepting.topic keys)
            some (s.setSession client
                (some { session with accepting := some { accepting with stage } }),
              [.snapshotsRead client accepting.stream])
          else none
      | none => none
  | none => none

/-- The next snapshot of the burst takes a number; one that is not JSON is skipped. -/
def snapshot (client : ℕ) : Option (Server × List Record) :=
  match s.sessions client with
  | some session =>
      match session.accepting with
      | some accepting =>
          match accepting.stage with
          | .bursting (snap :: left) =>
              let seq := accepting.seq + 1
              let frame := Outbound.snapshot accepting.subId seq left.isEmpty snap.topic snap.ts
                snap.data
              some (s.setSession client (some { session with
                  accepting := some { accepting with stage := .bursting left, seq } }),
                if config.asRaw snap.data then
                  [.value client accepting.stream snap.record frame] else [])
          | .bursting [] | .registered | .acknowledged => none
      | none => none
  | none => none

def pump (client : ℕ) : Option (Server × List Record) :=
  match s.sessions client with
  | some session =>
      match session.accepting with
      | some accepting =>
          if accepting.stage = .bursting [] then
            let pump := ⟨accepting.subId, accepting.topic, accepting.stream, accepting.seq⟩
            some (s.setSession client
                (some { session with accepting := none, pumps := session.pumps ++ [pump] }),
              [.pumping client accepting.stream])
          else none
      | none => none
  | none => none

/-- The cancelled pump ends and drops its stream. -/
def unsubscribe (client : ℕ) (subId : String) : Option (Server × List Record) :=
  match s.sessions client with
  | some session =>
      if session.accepting.isSome then none
      else
        match session.pumps.find? (·.subId = subId) with
        | some pump =>
            some ((s.setSession client
              (some { session with pumps := session.pumps.erase pump })).dropStream pump.stream, [])
        | none => some (s, [])
  | none => none

/-- A pump takes an update from its stream and numbers it; a full funnel drops it. -/
def pull (client : ℕ) (index : ℕ) : Option (Server × List Record) :=
  match s.sessions client with
  | some session =>
      match session.accepting, session.pumps[index]? with
      | none, some pump =>
          match s.bus.poll pump.stream with
          | some (bus, [.yielded _ item]) =>
              let seq := pump.seq + (UInt64.ofNat item.update.skipped + 1)
              let event : SubEvent := ⟨pump.stream, item.record, pump.subId, seq,
                item.update.topic, item.update.ts, item.update.data⟩
              let funnel := if session.funnel.length < eventBuffer then
                session.funnel ++ [event] else session.funnel
              let pumps := session.pumps.set index { pump with seq }
              some ({ s.setSession client (some { session with pumps, funnel }) with bus }, [])
          | _ => none
      | _, _ => none
  | none => none

def SubEvent.frame (event : SubEvent) : Outbound :=
  .event event.subId event.seq (some event.topic) event.ts event.data

/-- The loop of the session sends the next event of the funnel. -/
def forward (client : ℕ) : Option (Server × List Record) :=
  match s.sessions client with
  | some session =>
      match session.accepting, session.funnel with
      | none, event :: funnel =>
          some (s.setSession client (some { session with funnel }),
            [.value client event.stream event.record (SubEvent.frame event)])
      | _, _ => none
  | none => none

/-- `record.list`, narrowed to the rows whose record id the mask allows. -/
def list (client : ℕ) (metadata : ℕ → Metadata) : Option (Server × List Record) :=
  match s.sessions client with
  | some session =>
      if session.accepting.isSome then none
      else
        let rows := (listRecords config.records metadata).filter fun row =>
          session.recordPerms.isAllowed row.recordId.toNat
        some (s, [.listed client (rows.map (·.stamp config.schemaByType))])
  | none => none

/-- `record.query`, narrowed to the rows whose topic the client may read. -/
def query (client : ℕ) (answer : Option (Except Unit (List QueryRecord))) :
    Option (Server × List Record) :=
  match s.sessions client with
  | some session =>
      if session.accepting.isSome then none
      else
        let rows :=
          if session.permissions.readPatterns = [] then .error .denied
          else
            match answer with
            | none => .error .notFound
            | some (.error ()) => .error .internal
            | some (.ok records) =>
                .ok (records.filter fun r => session.permissions.canRead r.topic)
        some (s, [.queried client rows])
  | none => none

def step (s : Server) : Input → Option (Server × List Record)
  | .connect permissions => some (s.connect config permissions)
  | .disconnect client => s.disconnect client
  | .next message => s.next config message
  | .broadcast => s.broadcast
  | .bus input => s.onBus input
  | .subscribe client subId topic => s.subscribe config client subId topic
  | .acknowledge client => s.acknowledge client
  | .snapshots client keys => s.snapshots config client keys
  | .snapshot client => s.snapshot config client
  | .pump client => s.pump client
  | .unsubscribe client subId => s.unsubscribe client subId
  | .pull client index => s.pull client index
  | .forward client => s.forward client
  | .list client metadata => s.list config client metadata
  | .query client answer => s.query client answer

end Server

end AimDb.WebSocket
