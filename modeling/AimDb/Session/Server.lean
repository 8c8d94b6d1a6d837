import AimDb.Session.Messages
import AimDb.Transition.Runs
import Mathlib.Data.List.AList

/-!
# The server side of one connection

`run_session` as a machine: every iteration of its loop, and every step of a
subscription pump between two iterations, is one input.  The input carries what
the environment decides there: the frame received, the answers of the
dispatched session, and whether each `conn.send` of the iteration succeeds.
-/

namespace AimDb.Session.Server

open AimDb.Json AimDb.Transition

structure SessionLimits where
  maxSubsPerConnection : ℕ := 32

structure SessionConfig where
  limits : SessionLimits := {}
  acksSubscribe : Bool := false

/-- Bound of the per-connection event funnel. -/
def eventBuffer : ℕ := 256

/-- One subscription update on its way back to the connection's send half. -/
structure SubEvent where
  sub : String
  seq : UInt64
  topic : Option String
  ts : Stamp
  data : Payload
  deriving DecidableEq, Repr

def SubEvent.frame (ev : SubEvent) : Outbound := .event ev.sub ev.seq ev.topic ev.ts ev.data

/-- A funnel element, with the generation of the pump that queued it.  The code
keeps no such tag and no step reads it. -/
structure Queued where
  origin : ℕ
  event : SubEvent
  deriving DecidableEq, Repr

/-- An entry of `cancels`: the generation and the sender of the cancel channel. -/
structure CancelHandle where
  generation : ℕ
  sender : ℕ
  deriving DecidableEq, Repr

abbrev Cancels := AList fun _ : String => CancelHandle

/-- A `pump_subscription` future in `subs`.  Once its stream or its cancel ends
it, `ended` is the `exhausted` flag of its `PumpEnd`. -/
structure Pump where
  subId : String
  generation : ℕ
  cancel : ℕ
  seq : UInt64
  ended : Option Bool := none
  deriving DecidableEq, Repr

/-- The cancel receiver resolves once its sender is gone; the sender lives
nowhere but in `cancels`. -/
def Pump.cancelled (cancels : Cancels) (pump : Pump) : Bool :=
  cancels.entries.all fun entry => entry.2.sender ≠ pump.cancel

/-- The event a pump makes of an update: the counter moves past the loss. -/
def Pump.numbered (pump : Pump) (update : SubUpdate) : SubEvent :=
  ⟨pump.subId, pump.seq + (update.skipped + 1), update.topic, update.ts, update.data⟩

/-- Whether an entry of `cancels` is a pump's own. -/
def Pump.owns (cancels : Cancels) (pump : Pump) : Bool :=
  (cancels.lookup pump.subId).any fun handle => handle.generation = pump.generation

/-- The locals of `run_session` between two iterations. -/
structure State where
  funnel : List Queued := []
  subs : List Pump := []
  cancels : Cancels := ∅
  /-- A `u64` in the code, bumped once for each accepted subscription. -/
  nextGeneration : ℕ := 0
  channels : ℕ := 0
  greeted : Bool := false
  closed : Bool := false

/-- A late-join snapshot: topic, value and stamp. -/
abbrev Snapshot := String × Payload × Stamp

structure SessionAnswer where
  startsSession : Bool := false
  call : Except RpcError Payload := .error .notFound
  subscribe : Except RpcError Unit := .error .notFound
  snapshots : List Snapshot := []

/-- One step of the loop or of a pump.  `sends` are the results of the sends of
that iteration in order; those it does not list succeed. -/
inductive Input where
  | closed
  | frame (bytes : Bytes) (answer : SessionAnswer) (sends : List Bool)
  | event (sends : List Bool)
  | drained (pump : ℕ) (sends : List Bool)
  | update (pump : ℕ) (update : SubUpdate)
  | finish (pump : ℕ)

/-- What a step did.  `sent` carries the generation of the subscription a frame
belongs to; a plain answer to a request belongs to none. -/
inductive Record where
  | accepted (sub : String) (generation : ℕ) (snapshots : ℕ)
  | pulled (generation : ℕ) (update : SubUpdate)
  | queued (generation : ℕ) (event : SubEvent)
  | sent (origin : Option ℕ) (frame : Outbound)
  | failed (frame : Outbound)
  | drained (sub : String) (generation : ℕ) (exhausted : Bool)
  | ended (sub : String) (generation : ℕ)
  | reset
  deriving DecidableEq

/-- The outcome of some sends: what they did, whether the connection still
stands, and the results left for the rest of the iteration. -/
structure Sending where
  records : List Record
  alive : Bool
  sends : List Bool

/-- Leave the loop unless the connection still stands. -/
def State.stay (s : State) (alive : Bool) : State := { s with closed := !alive }

variable (codec : EnvelopeCodec) (config : SessionConfig)

def encodes (frame : Outbound) : Bool := (codec.encode frame []).isOk

def transmit (origin : Option ℕ) (frame : Outbound) (sends : List Bool) : Sending :=
  if encodes codec frame then
    match sends with
    | false :: rest => ⟨[.failed frame], false, rest⟩
    | sends => ⟨[.sent origin frame], true, sends.tail⟩
  else ⟨[], true, sends⟩

def transmitAll : List (Option ℕ × Outbound) → List Bool → Sending
  | [], sends => ⟨[], true, sends⟩
  | (origin, frame) :: rest, sends =>
      let first := transmit codec origin frame sends
      if first.alive then
        let others := transmitAll rest first.sends
        { others with records := first.records ++ others.records }
      else first

/-- `send_reply_err`: best effort, the result of the send is ignored. -/
def sendReplyErr (origin : Option ℕ) (id : UInt64) (err : RpcError) (sends : List Bool) :
    List Record :=
  (transmit codec origin (.reply id (.error err)) sends).records

/-- The frames of the late-join burst, numbered after `seq`. -/
def burst (sub : String) (seq : UInt64) : List Snapshot → List Outbound
  | [] => []
  | (topic, data, ts) :: rest =>
      .snapshot sub (seq + 1) rest.isEmpty topic ts data :: burst sub (seq + 1) rest

def burstEnd (snapshots : List Snapshot) : UInt64 :=
  snapshots.foldl (fun seq _ => seq + 1) 0

/-- The funnel's events as frames to send. -/
def flushed (funnel : List Queued) : List (Option ℕ × Outbound) :=
  funnel.map fun queued => (some queued.origin, queued.event.frame)

namespace State

/-- A second handshake drops the pumps and the queued events of the old session. -/
def onRequest (s : State) (id : UInt64) (answer : SessionAnswer) (sends : List Bool) :
    State × List Record :=
  let again := answer.startsSession && s.greeted
  let fresh := if again then { s with subs := [], cancels := ∅, funnel := [] } else s
  let reply := transmit codec none (.reply id answer.call) sends
  ({ fresh with greeted := s.greeted || answer.startsSession }.stay reply.alive,
    (if again then [.reset] else []) ++ reply.records)

/-- What a new subscription starts with: the optional ack, then the burst. -/
def opening (s : State) (sub : String) (snapshots : List Snapshot) :
    List (Option ℕ × Outbound) :=
  let ack := if config.acksSubscribe then [Outbound.subscribed sub] else []
  (ack ++ burst sub 0 snapshots).map fun frame => (some s.nextGeneration, frame)

def register (s : State) (sub : String) (snapshots : List Snapshot) : State :=
  { s with
    nextGeneration := s.nextGeneration + 1
    channels := s.channels + 1
    cancels := s.cancels.insert sub ⟨s.nextGeneration, s.channels⟩
    subs := s.subs ++ [⟨sub, s.nextGeneration, s.channels, burstEnd snapshots, none⟩] }

/-- The stream opened: acknowledge, send the burst, register the pump. -/
def accept (s : State) (sub : String) (snapshots : List Snapshot) (sends : List Bool) :
    State × List Record :=
  let sending := transmitAll codec (s.opening config sub snapshots) sends
  (if sending.alive then s.register sub snapshots else s.stay false,
    .accepted sub s.nextGeneration snapshots.length :: sending.records)

/-- The checks a Subscribe passes before its stream is opened. -/
def admits (s : State) (sub : String) : Bool :=
  (s.cancels.lookup sub).isNone && s.cancels.entries.length < config.limits.maxSubsPerConnection

def onSubscribe (s : State) (id : UInt64) (answer : SessionAnswer) (sends : List Bool) :
    State × List Record :=
  if s.admits config (subKey id) then
    match answer.subscribe with
    | .ok () => s.accept codec config (subKey id) answer.snapshots sends
    | .error e => (s, sendReplyErr codec none id e sends)
  else (s, sendReplyErr codec none id .denied sends)

/-- Dropping the sender resolves the pump's cancel future. -/
def onUnsubscribe (s : State) (sub : String) : State × List Record :=
  match s.cancels.lookup sub with
  | some handle => ({ s with cancels := s.cancels.erase sub }, [.ended sub handle.generation])
  | none => (s, [])

def onPing (s : State) (sends : List Bool) : State × List Record :=
  let pong := transmit codec none .pong sends
  (s.stay pong.alive, pong.records)

/-- `Step::Frame`; a malformed frame is skipped. -/
def onFrame (s : State) (bytes : Bytes) (answer : SessionAnswer) (sends : List Bool) :
    State × List Record :=
  match codec.decode bytes with
  | .error _ => (s, [])
  | .ok (.request id _ _) => s.onRequest codec id answer sends
  | .ok (.subscribe id _) => s.onSubscribe codec config id answer sends
  | .ok (.unsubscribe sub) => s.onUnsubscribe sub
  | .ok (.write _ _) => (s, [])
  | .ok .ping => s.onPing codec sends

/-- `Step::Event`: forward the oldest queued update. -/
def onEvent (s : State) (queued : Queued) (rest : List Queued) (sends : List Bool) :
    State × List Record :=
  let sending := transmit codec (some queued.origin) queued.event.frame sends
  ({ s with funnel := rest }.stay sending.alive, sending.records)

/-- The subscription the client still holds ran out: flush the funnel, then say
so with an error reply to the subscribe id. -/
def onExhausted (s : State) (pump : Pump) (sends : List Bool) : State × List Record :=
  let flush := transmitAll codec (flushed s.funnel) sends
  let reply := match parseU64 pump.subId with
    | some id => sendReplyErr codec (some pump.generation) id .internal flush.sends
    | none => []
  ({ s with funnel := [] }.stay flush.alive,
    flush.records ++ if flush.alive then reply else [])

/-- `Step::SubDrained`: reap a finished pump, prune its own entry. -/
def onDrained (s : State) (index : ℕ) (pump : Pump) (exhausted : Bool) (sends : List Bool) :
    State × List Record :=
  let reaped := { s with subs := s.subs.eraseIdx index }
  let seen := .drained pump.subId pump.generation exhausted
  if pump.owns s.cancels then
    let pruned := { reaped with cancels := s.cancels.erase pump.subId }
    let gone := .ended pump.subId pump.generation
    if exhausted then
      let (after, records) := pruned.onExhausted codec pump sends
      (after, seen :: gone :: records)
    else (pruned, [seen, gone])
  else (reaped, [seen])

/-- A pump takes one update off its stream; on a full funnel it drops it. -/
def onUpdate (s : State) (index : ℕ) (pump : Pump) (update : SubUpdate) :
    State × List Record :=
  let event := pump.numbered update
  let subs := s.subs.set index { pump with seq := event.seq }
  if s.funnel.length < eventBuffer then
    ({ s with subs, funnel := s.funnel ++ [⟨pump.generation, event⟩] },
      [.pulled pump.generation update, .queued pump.generation event])
  else ({ s with subs }, [.pulled pump.generation update])

/-- A pump leaves its loop: cancelled, or with its stream exhausted. -/
def onFinish (s : State) (index : ℕ) (pump : Pump) : State × List Record :=
  ({ s with subs := s.subs.set index { pump with ended := some !pump.cancelled s.cancels } }, [])

end State

/-- One step of a session; `none` when the input cannot occur in the state. -/
def step (s : State) (input : Input) : Option (State × List Record) :=
  if s.closed then none
  else match input with
    | .closed => some (s.stay false, [])
    | .frame bytes answer sends => some (s.onFrame codec config bytes answer sends)
    | .event sends =>
        match s.funnel with
        | [] => none
        | queued :: rest => some (s.onEvent codec queued rest sends)
    | .drained index sends => do
        let pump ← s.subs[index]?
        let exhausted ← pump.ended
        some (s.onDrained codec index pump exhausted sends)
    | .update index update => do
        let pump ← s.subs[index]?
        if pump.ended.isNone && !pump.cancelled s.cancels then
          some (s.onUpdate index pump update)
        else none
    | .finish index => do
        let pump ← s.subs[index]?
        if pump.ended.isNone then some (s.onFinish index pump) else none

abbrev Runs (allowed : State → Input → Prop) : State → List Record → Prop :=
  Reaches (step codec config) allowed {}

end AimDb.Session.Server
