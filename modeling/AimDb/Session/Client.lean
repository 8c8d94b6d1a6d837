import AimDb.Session.Messages
import AimDb.Transition.Runs
import Mathlib.Data.List.AList
import Mathlib.Logic.Function.Basic

/-!
# The client engine and its handles

`run_client` as one machine.  A step is an atomic action of a `ClientHandle`
operation, of a caller or subscriber, or of the engine, so every interleaving
of them is a run.  Actions on a channel are atomic as the channel itself is.
-/

namespace AimDb.Session.Client

open AimDb.Json AimDb.Transition

inductive TransportError where
  | closed
  | io
  | framing
  | busy
  deriving DecidableEq, Repr

/-- Client engine knobs; the delays only decide when a step is taken. -/
structure ClientConfig where
  reconnect : Bool := true
  maxReconnectAttempts : ℕ := 0
  keepaliveInterval : Option ℕ := none
  maxOfflineQueue : ℕ := 256
  sendsHello : Bool := false

/-- The width of the target's `usize`. -/
structure Platform where
  usizeMax : ℕ
  fits : usizeMax < UInt64.size

def subscribeChannelCap : ℕ := 256

def maxCommandQueueCap : ℕ := 8192

def ClientConfig.commandCap (config : ClientConfig) : ℕ :=
  max 1 (min config.maxOfflineQueue maxCommandQueueCap)

abbrev CallReply := Except RpcError Payload

/-- Commands for the engine.  `reply` and `events` name the call and the stream
whose sender the command carries. -/
inductive ClientCmd where
  | call (id : UInt64) (method : String) (params : Payload) (reply : ℕ)
  | cancelCall (id : UInt64)
  | subscribe (id : UInt64) (topic : String) (events : ℕ)
  | write (topic : String) (payload : Payload)
  deriving DecidableEq, Repr

inductive Phase where
  | enqueuing
  | waiting
  | cancelling
  /-- The queue took no cancellation; the sweep is still to be asked for. -/
  | refused
  | gone
  | resolved (result : CallReply)
  deriving DecidableEq

/-- The reply channel of a call, seen from its sender. -/
inductive Reply where
  | held
  | sent (result : CallReply)
  | dropped
  deriving DecidableEq

structure Call where
  id : Option UInt64 := none
  phase : Phase := .gone
  reply : Reply := .dropped

/-- The receiver of the reply channel is alive. -/
def Call.listening (call : Call) : Bool := call.phase = .enqueuing || call.phase = .waiting

/-- A subscription's sink. -/
structure Stream where
  id : Option UInt64 := none
  items : List (Except RpcError SubUpdate) := []
  receiver : Bool := false

inductive Engine where
  | dialing
  | greeting
  /-- Waiting for the handshake's Pong. -/
  | greeted
  | parked
  | took (cmd : ClientCmd)
  | sending (message : Inbound)
  | sweeping (todo : List UInt64)
  /-- Its tables are gone, the command channel is still open. -/
  | leaving
  | draining
  | stopped
  deriving DecidableEq

/-- Correlation id to the call whose reply sender it holds. -/
abbrev PendingCalls := AList fun _ : UInt64 => ℕ

structure State where
  nextId : ℕ := 1
  calls : ℕ → Call := fun _ => {}
  started : ℕ := 0
  streams : ℕ → Stream := fun _ => {}
  opened : ℕ := 0
  /-- Commands of handle operations about to `force_send` them. -/
  enqueuing : List ClientCmd := []
  queue : List ClientCmd := []
  queueClosed : Bool := false
  /-- Commands evicted by handle operations that have not yet looked at them. -/
  evicted : List ClientCmd := []
  prune : Bool := false
  engine : Engine := .dialing
  attempt : ℕ := 0
  /-- Connections dialed so far; no step reads it. -/
  epoch : ℕ := 0
  pending : PendingCalls := ∅
  subs : AList (fun _ : String => ℕ) := ∅
  lastSeq : AList (fun _ : String => UInt64) := ∅

inductive Input where
  | call (method : String) (params : Payload)
  | subscribe (topic : String)
  | write (topic : String) (payload : Payload)
  /-- A handle operation's `force_send`. -/
  | enqueue (index : ℕ)
  /-- A handle operation looks at the command it evicted. -/
  | settle (index : ℕ)
  | resolve (call : ℕ)
  | drop (call : ℕ)
  | cancel (call : ℕ)
  | requestPrune (call : ℕ)
  | next (stream : ℕ)
  | unlisten (stream : ℕ)
  | dial (outcome : Except TransportError Unit)
  /-- The `conn.send` in progress returns. -/
  | sent (ok : Bool)
  /-- `conn.recv` returns a frame, or that the connection is over. -/
  | inbound (frame : Option Bytes)
  /-- The keepalive timer fires, after a whole idle window or not. -/
  | keepalive (idle : Bool)
  | prune
  | take
  | act
  | sweep
  /-- The engine future returns, every handle being gone, or is dropped. -/
  | stop
  | closeQueue
  | drain

inductive Record where
  | dialed (epoch : ℕ)
  | sent (epoch : ℕ) (message : Inbound)
  | replied (epoch : ℕ) (id : UInt64) (result : CallReply)
  | resolved (call : ℕ) (result : CallReply)
  | delivered (stream : ℕ) (seq : UInt64) (update : SubUpdate)
  | handed (stream : ℕ) (item : Except RpcError SubUpdate)
  deriving DecidableEq

/-- How an inbound update competes for room in its subscription's sink. -/
inductive Delivery where
  | event
  | burstBody
  | burstEnd
  deriving DecidableEq

/-- Slots an update leaves free: one for a terminal error, and one for the
burst's end where more of the burst is to come. -/
def Delivery.reserved : Delivery → ℕ
  | .burstBody => 2
  | .event | .burstEnd => 1

/-- `u64::saturating_add`. -/
def saturatingAdd (a b : UInt64) : UInt64 :=
  if a.toNat + b.toNat < UInt64.size then a + b else .ofNat (UInt64.size - 1)

/-- `u64::saturating_sub`. -/
def saturatingSub (a b : UInt64) : UInt64 := if b ≤ a then a - b else 0

variable (codec : EnvelopeCodec) (config : ClientConfig) (platform : Platform)

def encodes (message : Inbound) : Bool := (codec.encodeInbound message []).isOk

namespace State

def setPhase (s : State) (call : ℕ) (phase : Phase) : State :=
  { s with calls := Function.update s.calls call { s.calls call with phase } }

def setReply (s : State) (call : ℕ) (reply : Reply) : State :=
  { s with calls := Function.update s.calls call { s.calls call with reply } }

def discard (s : State) : ClientCmd → State
  | .call _ _ _ reply => s.setReply reply .dropped
  | .cancelCall _ | .subscribe _ _ _ | .write _ _ => s

/-- Take an entry out of `pending` and drop its sender. -/
def removePending (s : State) (id : UInt64) (reply : Reply) : State :=
  match s.pending.lookup id with
  | some call => { s.setReply call reply with pending := s.pending.erase id }
  | none => s

/-- `pending.insert`, dropping the sender it displaces. -/
def insertPending (s : State) (id : UInt64) (call : ℕ) : State :=
  let s := s.removePending id .dropped
  { s with pending := s.pending.insert id call }

def dropTables (s : State) : State :=
  { s with
    calls := fun call =>
      if call ∈ s.pending.entries.map Sigma.snd then { s.calls call with reply := .dropped }
      else s.calls call
    pending := ∅
    subs := ∅
    lastSeq := ∅ }

/-- `ClientHandle::next_id`: refused at the ceiling, never wrapped. -/
def allocate (s : State) : Option UInt64 :=
  if s.nextId < platform.usizeMax then some (.ofNat s.nextId) else none

def onCall (s : State) (method : String) (params : Payload) : State × List Record :=
  match s.allocate platform with
  | some id =>
      ({ s with
          nextId := s.nextId + 1
          calls := Function.update s.calls s.started ⟨some id, .enqueuing, .held⟩
          started := s.started + 1
          enqueuing := s.enqueuing ++ [.call id method params s.started] }, [])
  | none =>
      ({ s with
          calls := Function.update s.calls s.started
            ⟨none, .resolved (.error .internal), .dropped⟩
          started := s.started + 1 }, [.resolved s.started (.error .internal)])

/-- Out of ids, the channel is dropped and the operation fails at once. -/
def onSubscribe (s : State) (topic : String) : State :=
  match s.allocate platform with
  | some id =>
      { s with
        nextId := s.nextId + 1
        streams := Function.update s.streams s.opened ⟨some id, [], true⟩
        opened := s.opened + 1
        enqueuing := s.enqueuing ++ [.subscribe id topic s.opened] }
  | none => s

def onWrite (s : State) (topic : String) (payload : Payload) : State :=
  { s with enqueuing := s.enqueuing ++ [.write topic payload] }

/-- The operation behind a command fails with `Internal`. -/
def fail (s : State) : ClientCmd → State × List Record
  | .call _ _ _ call =>
      ((s.setReply call .dropped).setPhase call (.resolved (.error .internal)),
        [.resolved call (.error .internal)])
  | .subscribe _ _ stream =>
      ({ s with
          streams := Function.update s.streams stream
            { s.streams stream with receiver := false } }, [])
  | .cancelCall _ | .write _ _ => (s, [])

/-- The operation behind a command that is queued goes on. -/
def proceed (s : State) : ClientCmd → State
  | .call _ _ _ call => s.setPhase call .waiting
  | .cancelCall _ | .subscribe _ _ _ | .write _ _ => s

/-- `force_send`: a full queue gives up its oldest command. -/
def onEnqueue (s : State) (index : ℕ) (cmd : ClientCmd) : State × List Record :=
  let s := { s with enqueuing := s.enqueuing.eraseIdx index }
  if s.queueClosed then s.fail cmd
  else if s.queue.length < config.commandCap then
    ({ s with queue := s.queue ++ [cmd] }.proceed cmd, [])
  else
    ({ s with
        queue := s.queue.tail ++ [cmd]
        evicted := s.evicted ++ s.queue.head?.toList }.proceed cmd, [])

/-- An evicted cancellation degrades to a prune signal; any other command is dropped. -/
def onSettle (s : State) (index : ℕ) (cmd : ClientCmd) : State :=
  let s := { s with evicted := s.evicted.eraseIdx index }
  match cmd with
  | .cancelCall _ => { s with prune := true }
  | cmd => s.discard cmd

/-- What the reply channel yields once its sender is used up. -/
def received : Reply → Option CallReply
  | .held => none
  | .sent result => some result
  | .dropped => some (.error .internal)

def onResolve (s : State) (call : ℕ) : Option (State × List Record) :=
  if (s.calls call).phase = .waiting then
    (received (s.calls call).reply).map fun result =>
      (s.setPhase call (.resolved result), [.resolved call result])
  else none

/-- `CancelOnDrop`: `try_send` never evicts. -/
def onCancel (s : State) (call : ℕ) (id : UInt64) : State :=
  if !s.queueClosed && s.queue.length < config.commandCap then
    { s with queue := s.queue ++ [ClientCmd.cancelCall id] }.setPhase call .gone
  else s.setPhase call .refused

def onRequestPrune (s : State) (call : ℕ) : State :=
  { s with prune := true }.setPhase call .gone

/-- The engine future is over: its tables and the command in its hand are dropped. -/
def leave (s : State) : State :=
  let dropped := match s.engine with
    | .took cmd => s.discard cmd
    | _ => s
  { dropped.dropTables with engine := .leaving }

/-- `reconnect_after`: redial, or end the engine. -/
def reconnectAfter (s : State) : State :=
  if config.reconnect then
    let s := { s with attempt := s.attempt + 1 }
    if config.maxReconnectAttempts ≠ 0 ∧ s.attempt ≥ config.maxReconnectAttempts then s.leave
    else { s with engine := .dialing }
  else s.leave

/-- `Ended::Disconnected`. -/
def disconnect (s : State) : State := s.dropTables.reconnectAfter config

def onDial (s : State) (outcome : Except TransportError Unit) : State × List Record :=
  match outcome with
  | .ok () =>
      ({ s with
          attempt := 0
          epoch := s.epoch + 1
          engine := if config.sendsHello then .greeting else .parked }, [.dialed (s.epoch + 1)])
  | .error .closed => (s.leave, [])
  | .error _ => (s.reconnectAfter config, [])

/-- A message in hand: sent once it is encoded. -/
def send (s : State) (message : Inbound) : State := { s with engine := .sending message }

/-- A send that failed, or a message that did not encode, ends the connection. -/
def sendFailed (s : State) (message : Inbound) : State :=
  match message with
  | .request id _ _ => (s.removePending id (.sent (.error .internal))).disconnect config
  | _ => s.disconnect config

def onSent (s : State) (message : Inbound) (ok : Bool) : State × List Record :=
  if ok && encodes codec message then
    ({ s with engine := .parked }, [.sent s.epoch message])
  else (s.sendFailed config message, [])

/-- `end_sub`: the error takes the slot `deliver` never fills. -/
def endSub (s : State) (sub : String) (err : RpcError) : State :=
  match s.subs.lookup sub with
  | none => s
  | some stream =>
      let sink := s.streams stream
      let room := sink.receiver && sink.items.length < subscribeChannelCap
      { s with
        streams := if room then
            Function.update s.streams stream { sink with items := sink.items ++ [.error err] }
          else s.streams
        subs := s.subs.erase sub
        lastSeq := s.lastSeq.erase sub }

/-- `deliver`: a loss since the last delivery is folded into `skipped`. -/
def deliver (s : State) (sub : String) (seq : UInt64) (update : SubUpdate) (mode : Delivery) :
    State × List Record :=
  let prev := (s.lastSeq.lookup sub).getD 0
  let skipped := saturatingSub seq (saturatingAdd prev 1)
  match s.subs.lookup sub with
  | none => (s, [])
  | some stream =>
      let sink := s.streams stream
      if sink.items.length + mode.reserved ≥ subscribeChannelCap then (s, [])
      else if sink.receiver then
        let update := { update with skipped, snapshotEnd := mode = .burstEnd }
        ({ s with
            streams := Function.update s.streams stream
              { sink with items := sink.items ++ [.ok update] }
            lastSeq := s.lastSeq.insert sub (max seq prev) }, [.delivered stream seq update])
      else ({ s with subs := s.subs.erase sub, lastSeq := s.lastSeq.erase sub }, [])

/-- A `Reply` resolves a pending call; an error for any other id ends the
subscription with that id. -/
def onReply (s : State) (id : UInt64) (result : CallReply) : State :=
  match s.pending.lookup id with
  | some _ => s.removePending id (.sent result)
  | none =>
      match result with
      | .error err => s.endSub (subKey id) err
      | .ok _ => s

/-- `ClientStep::Inbound` with a frame; a malformed frame is skipped. -/
def onInbound (s : State) (bytes : Bytes) : State × List Record :=
  match codec.decodeOutbound bytes with
  | .ok (.reply id result) => (s.onReply id result, [.replied s.epoch id result])
  | .ok (.event sub seq topic ts data) =>
      s.deliver sub seq
        (match topic with
          | some topic => .tagged topic data ts
          | none => .new data ts) .event
  | .ok (.snapshot sub seq last topic ts data) =>
      s.deliver sub seq (.tagged topic data ts) (if last then .burstEnd else .burstBody)
  | .ok .pong | .ok (.subscribed _) => (s, [])
  | .error (.missingStamp sub) => (s.endSub sub .protocol, [])
  | .error .malformed => (s, [])

/-- The handshake's Ping is sent, or did not encode, or failed. -/
def onGreetingSent (s : State) (ok : Bool) : State × List Record :=
  if ok && encodes codec .ping then
    ({ s with engine := .greeted }, [.sent s.epoch .ping])
  else (s.disconnect config, [])

/-- The handshake is over with the first frame. -/
def onGreeting (s : State) (bytes : Bytes) : State :=
  match codec.decodeOutbound bytes with
  | .ok .pong => { s with engine := .parked }
  | _ => s.disconnect config

/-- `ClientStep::Cmd`: a call nobody waits for is not sent. -/
def onCmd (s : State) (cmd : ClientCmd) : State :=
  match cmd with
  | .call id method params reply =>
      if (s.calls reply).listening then
        (s.insertPending id reply).send (.request id method params)
      else { s.discard cmd with engine := .parked }
  | .cancelCall id => { s.removePending id .dropped with engine := .parked }
  | .subscribe id topic events =>
      { s with subs := s.subs.insert (subKey id) events }.send (.subscribe id topic)
  | .write topic payload => s.send (.write topic payload)

/-- `sweep_abandoned`, one entry at a time. -/
def onSweep (s : State) : List UInt64 → State
  | [] => { s with engine := .parked }
  | id :: todo =>
      let s := { s with engine := .sweeping todo }
      match s.pending.lookup id with
      | some call => if (s.calls call).listening then s else s.removePending id .dropped
      | none => s

def onDrain (s : State) : State :=
  match s.queue with
  | [] => { s with engine := .stopped }
  | cmd :: rest => { s with queue := rest }.discard cmd

end State

/-- One step; `none` when the input cannot occur in the state. -/
def step (s : State) (input : Input) : Option (State × List Record) :=
  match input with
  | .call method params => some (s.onCall platform method params)
  | .subscribe topic => some (s.onSubscribe platform topic, [])
  | .write topic payload => some (s.onWrite topic payload, [])
  | .enqueue index => do
      let cmd ← s.enqueuing[index]?
      some (s.onEnqueue config index cmd)
  | .settle index => do
      let cmd ← s.evicted[index]?
      some (s.onSettle index cmd, [])
  | .resolve call => s.onResolve call
  | .drop call =>
      if (s.calls call).phase = .waiting then some (s.setPhase call .cancelling, []) else none
  | .cancel call =>
      if (s.calls call).phase = .cancelling then do
        let id ← (s.calls call).id
        some (s.onCancel config call id, [])
      else none
  | .requestPrune call =>
      if (s.calls call).phase = .refused then some (s.onRequestPrune call, []) else none
  | .next stream =>
      match (s.streams stream).items with
      | item :: rest =>
          if (s.streams stream).receiver then
            some ({ s with
              streams := Function.update s.streams stream
                { s.streams stream with items := rest } }, [.handed stream item])
          else none
      | [] => none
  | .unlisten stream =>
      some ({ s with
        streams := Function.update s.streams stream
          { s.streams stream with receiver := false } }, [])
  | .dial outcome =>
      if s.engine = .dialing then some (s.onDial config outcome) else none
  | .sent ok =>
      match s.engine with
      | .sending message => some (s.onSent codec config message ok)
      | .greeting => some (s.onGreetingSent codec config ok)
      | _ => none
  | .inbound none =>
      if s.engine = .parked ∨ s.engine = .greeted then some (s.disconnect config, []) else none
  | .inbound (some bytes) =>
      if s.engine = .parked then some (s.onInbound codec bytes)
      else if s.engine = .greeted then some (s.onGreeting codec config bytes, [])
      else none
  | .keepalive idle =>
      if s.engine = .parked ∧ config.keepaliveInterval.isSome then
        some (if idle ∧ encodes codec .ping then s.send .ping else s, [])
      else none
  | .prune =>
      if s.engine = .parked ∧ s.prune then
        some ({ s with prune := false, engine := .sweeping s.pending.keys }, [])
      else none
  | .take =>
      if s.engine = .parked then
        match s.queue with
        | [] => none
        | cmd :: rest => some ({ s with queue := rest, engine := .took cmd }, [])
      else none
  | .act =>
      match s.engine with
      | .took cmd => some (s.onCmd cmd, [])
      | _ => none
  | .sweep =>
      match s.engine with
      | .sweeping todo => some (s.onSweep todo, [])
      | _ => none
  | .stop =>
      if s.engine = .leaving ∨ s.engine = .draining ∨ s.engine = .stopped then none
      else some (s.leave, [])
  | .closeQueue =>
      if s.engine = .leaving then some ({ s with queueClosed := true, engine := .draining }, [])
      else none
  | .drain => if s.engine = .draining then some (s.onDrain, []) else none

abbrev Runs (allowed : State → Input → Prop) : State → List Record → Prop :=
  Reaches (step codec config platform) allowed {}

end AimDb.Session.Client
