import AimDb.Containers.IndexMap

/-!
# The KNX/IP tunnel engine

The sans-io state machine of a tunneling connection. Transports feed it datagrams,
commands and errors, poll it with the current time and drain the actions it queues.
Frames are built and parsed by the `knx-pico` crate, which is a parameter.
-/

namespace AimDb.Knx

open Containers

/-- Monotonic milliseconds from an arbitrary epoch; `+` wraps as in release builds. -/
abbrev Millis := UInt64

def saturatingAdd (a b : Millis) : Millis :=
  if a.toNat + b.toNat < UInt64.size then a + b else UInt64.ofNat (UInt64.size - 1)

def saturatingSub (a b : Millis) : Millis := if b ≤ a then a - b else 0

abbrev Frame := List UInt8

abbrev GroupAddress := UInt16

def maxApdu : ℕ := 254

def maxCemi : ℕ := 12 + maxApdu

/-- Outbound GroupValueWrite command. -/
structure GroupWrite where
  groupAddr : GroupAddress
  data : List UInt8
  fits : data.length ≤ maxApdu

inductive Action
  | send (frame : Frame) (awaitAck : Option UInt8)
  | telegram (addr : GroupAddress) (payload : List UInt8)
  | resetSocket
  | ackTimeout (seq : UInt8)
  deriving DecidableEq, Repr

structure Hpai where
  ip : List UInt8
  port : UInt16

inductive LocalEndpoint
  | nat
  | explicit (ip : List UInt8) (port : UInt16)

def LocalEndpoint.hpai : LocalEndpoint → Hpai
  | .nat => ⟨[0, 0, 0, 0], 0⟩
  | .explicit ip port => ⟨ip, port⟩

structure TunnelConfig where
  localEndpoint : LocalEndpoint := .nat
  connectTimeout : Millis := 5000
  ackTimeout : Millis := 3000
  ackSweep : Millis := 500
  ackRetransmits : UInt8 := 1
  heartbeat : Millis := 55000
  heartbeatResponseTimeout : Millis := 10000
  reconnectBackoff : Millis := 5000

inductive ServiceType
  | connectResponse
  | tunnellingRequest
  | tunnellingAck
  | connectionstateResponse
  | other
  deriving DecidableEq, Repr

/-- A parsed L_Data frame. -/
structure LData where
  isGroupWrite : Bool
  destinationGroup : Option GroupAddress
  data : List UInt8
  sixBitValue : UInt8

/-- What the engine uses of `knx-pico`. -/
structure KnxPico where
  /-- `KnxnetIpFrame::parse`: the service type and the body. -/
  parseFrame : List UInt8 → Option (ServiceType × List UInt8)
  /-- `(channel_id, status)`. -/
  parseConnectResponse : List UInt8 → Option (UInt8 × UInt8)
  parseTunnelingAck : List UInt8 → Option UInt8
  parseTunnelingRequest : List UInt8 → Option (UInt8 × List UInt8)
  parseConnectionStateResponse : List UInt8 → Option Bool
  /-- A cEMI frame that is an L_Data frame. -/
  parseLData : List UInt8 → Option LData
  buildConnectRequest : Hpai → Hpai → Frame
  buildTunnelingAck : (channelId seq status : UInt8) → Frame
  buildTunnelingRequest : (channelId seq : UInt8) → List UInt8 → Frame
  buildConnectionStateRequest : UInt8 → Hpai → Frame

variable (pico : KnxPico)

/-- `parse_connect_response`. -/
def KnxPico.connectResponse (data : List UInt8) : Option (UInt8 × UInt8) :=
  match pico.parseFrame data with
  | some (.connectResponse, body) => pico.parseConnectResponse body
  | _ => none

/-- The sequence number of a TUNNELING_ACK; some gateways omit the status byte. -/
def KnxPico.ackSeq (body : List UInt8) : Option UInt8 :=
  match pico.parseTunnelingAck body with
  | some seq => some seq
  | none => if 4 ≤ body.length then body[2]? else none

def KnxPico.parseTelegram (cemi : List UInt8) : Option (GroupAddress × List UInt8) :=
  match pico.parseLData cemi with
  | none => none
  | some ldata =>
      if ldata.isGroupWrite then
        ldata.destinationGroup.map fun dest =>
          (dest, if ldata.data = [] then [ldata.sixBitValue] else ldata.data)
      else none

/-- `let _ = frame.extend_from_slice(bytes)` on a vector of bounded capacity. -/
def pushBytes (capacity : ℕ) (frame bytes : List UInt8) : List UInt8 :=
  if frame.length + bytes.length ≤ capacity then frame ++ bytes else frame

def buildGroupWriteCemi (groupAddr : GroupAddress) (data : List UInt8) : List UInt8 :=
  let push := pushBytes maxCemi
  let frame := push (push (push (push [] [0x11]) [0x00]) [0xBC]) [0xE0]
  let frame := push (push frame [0x00, 0x00]) [(groupAddr >>> 8).toUInt8, groupAddr.toUInt8]
  match data with
  | [value] =>
      if value < 64 then push (push (push frame [0x01]) [0x00]) [0x80 ||| (value &&& 0x3F)]
      else push (push (push (push frame [0x02]) [0x00]) [0x80]) data
  | _ => push (push (push (push frame [UInt8.ofNat (2 + data.length - 1)]) [0x00]) [0x80]) data

def pendingAckCapacity : ℕ := 16

/-- A tracked TUNNELING_REQUEST. -/
structure PendingAck where
  sentAt : Millis
  retriesLeft : UInt8
  frame : Frame
  deriving DecidableEq, Repr

abbrev PendingAcks := IndexMap UInt8 PendingAck pendingAckCapacity

structure ChannelState where
  channelId : UInt8
  outboundSeq : UInt8
  pendingAcks : PendingAcks
  nextHeartbeat : Millis
  heartbeatPendingSince : Option Millis
  nextAckSweep : Millis

def ChannelState.new (channelId : UInt8) (now : Millis) (cfg : TunnelConfig) : ChannelState where
  channelId := channelId
  outboundSeq := 0
  pendingAcks := .empty
  nextHeartbeat := now + cfg.heartbeat
  heartbeatPendingSince := none
  nextAckSweep := now + cfg.ackSweep

inductive Phase
  | backoff (until' : Millis)
  | connecting (sentAt : Millis)
  | connected (state : ChannelState)

structure TunnelEngine where
  cfg : TunnelConfig
  phase : Phase
  actions : List Action

namespace TunnelEngine

def new (cfg : TunnelConfig) (now : Millis) : TunnelEngine := ⟨cfg, .backoff now, []⟩

def queue (engine : TunnelEngine) (actions : List Action) : TunnelEngine :=
  { engine with actions := engine.actions ++ actions }

def enter (engine : TunnelEngine) (phase : Phase) : TunnelEngine := { engine with phase := phase }

def isConnected (engine : TunnelEngine) : Bool :=
  match engine.phase with
  | .connected _ => true
  | _ => false

/-- An already running backoff keeps its deadline. -/
def handleSocketError (engine : TunnelEngine) (now : Millis) : TunnelEngine :=
  let engine := engine.queue [.resetSocket]
  match engine.phase with
  | .backoff _ => engine
  | _ => engine.enter (.backoff (now + engine.cfg.reconnectBackoff))

end TunnelEngine

/-- A datagram on an established connection: the state after it, what it queues, and
whether it drops the connection. -/
def ChannelState.receive (state : ChannelState) (data : List UInt8) :
    ChannelState × List Action × Bool :=
  match pico.parseFrame data with
  | some (.tunnellingAck, body) =>
      match pico.ackSeq body with
      | some seq => ({ state with pendingAcks := state.pendingAcks.remove seq }, [], false)
      | none => (state, [], false)
  | some (.tunnellingRequest, body) =>
      match pico.parseTunnelingRequest body with
      | some (seq, cemi) =>
          let ack := Action.send (pico.buildTunnelingAck state.channelId seq 0) none
          match pico.parseTelegram cemi with
          | some (addr, payload) => (state, [ack, .telegram addr payload], false)
          | none => (state, [ack], false)
      | none => (state, [], false)
  | some (.connectionstateResponse, body) =>
      match pico.parseConnectionStateResponse body with
      | some true => ({ state with heartbeatPendingSince := none }, [], false)
      | some false => (state, [], true)
      | none => (state, [], false)
  | _ => (state, [], false)

def TunnelEngine.handleDatagram (engine : TunnelEngine) (data : List UInt8) (now : Millis) :
    TunnelEngine :=
  match engine.phase with
  | .backoff _ => engine
  | .connecting _ =>
      match pico.connectResponse data with
      | some (channelId, status) =>
          if status = 0 then engine.enter (.connected (.new channelId now engine.cfg))
          else
            (engine.queue [.resetSocket]).enter (.backoff (now + engine.cfg.reconnectBackoff))
      | none => engine
  | .connected state =>
      let (state, queued, dropConnection) := state.receive pico data
      let engine := (engine.enter (.connected state)).queue queued
      if dropConnection then engine.handleSocketError now else engine

/-- Track a request; a full map evicts its first entry, which is reported. -/
def PendingAcks.track (pendingAcks : PendingAcks) (seq : UInt8) (pending : PendingAck) :
    PendingAcks × List Action :=
  match pendingAcks.insert seq pending with
  | some pendingAcks => (pendingAcks, [])
  | none =>
      match pendingAcks.entries.head? with
      | some (oldest, _) =>
          let pendingAcks := pendingAcks.remove oldest
          ((pendingAcks.insert seq pending).getD pendingAcks, [.ackTimeout oldest])
      | none => ((pendingAcks.insert seq pending).getD pendingAcks, [])

def TunnelEngine.handleCommand (engine : TunnelEngine) (cmd : GroupWrite) (now : Millis) :
    Bool × TunnelEngine :=
  match engine.phase with
  | .connected state =>
      let seq := state.outboundSeq
      let cemi := buildGroupWriteCemi cmd.groupAddr cmd.data
      let frame := pico.buildTunnelingRequest state.channelId seq cemi
      let pending : PendingAck :=
        { sentAt := now, retriesLeft := engine.cfg.ackRetransmits,
          frame := if 0 < engine.cfg.ackRetransmits then frame else [] }
      let (pendingAcks, evicted) := state.pendingAcks.track seq pending
      let state := { state with outboundSeq := state.outboundSeq + 1, pendingAcks := pendingAcks }
      (true, (engine.enter (.connected state)).queue (evicted ++ [.send frame (some seq)]))
  | _ => (false, engine)

def TunnelEngine.sendFailed (engine : TunnelEngine) (seq : UInt8) : TunnelEngine :=
  match engine.phase with
  | .connected state =>
      engine.enter (.connected { state with pendingAcks := state.pendingAcks.remove seq })
  | _ => engine

structure Sweep where
  pendingAcks : PendingAcks
  queued : List Action := []
  dropConnection : Bool := false

/-- An expired entry is sent again while it has retries left, else reported. -/
def Sweep.expire (cfg : TunnelConfig) (now : Millis) (sweep : Sweep) (seq : UInt8) : Sweep :=
  match sweep.pendingAcks.get? seq with
  | none => sweep
  | some pending =>
      if 0 < pending.retriesLeft then
        { sweep with
          pendingAcks := sweep.pendingAcks.modify seq fun pending =>
            { pending with retriesLeft := pending.retriesLeft - 1, sentAt := now }
          queued := sweep.queued ++ [.send pending.frame (some seq)] }
      else
        { pendingAcks := sweep.pendingAcks.remove seq
          queued := sweep.queued ++ [.ackTimeout seq]
          dropConnection := sweep.dropConnection || 0 < cfg.ackRetransmits }

def ChannelState.expired (cfg : TunnelConfig) (now : Millis) (state : ChannelState) : List UInt8 :=
  (state.pendingAcks.entries.filter fun entry =>
    cfg.ackTimeout < saturatingSub now entry.2.sentAt).map Prod.fst

def ChannelState.sweep (cfg : TunnelConfig) (now : Millis) (state : ChannelState) : Sweep :=
  (state.expired cfg now).foldl (Sweep.expire cfg now) { pendingAcks := state.pendingAcks }

/-- The keepalive of `poll`. -/
def ChannelState.keepAlive (cfg : TunnelConfig) (now : Millis) (state : ChannelState) :
    ChannelState × List Action :=
  if state.nextHeartbeat ≤ now then
    ({ state with
        heartbeatPendingSince :=
          if state.heartbeatPendingSince.isNone then some now else state.heartbeatPendingSince
        nextHeartbeat := now + cfg.heartbeat },
      [.send (pico.buildConnectionStateRequest state.channelId ⟨[0, 0, 0, 0], 0⟩) none])
  else (state, [])

/-- The ACK sweep of `poll`. -/
def ChannelState.sweepAcks (cfg : TunnelConfig) (now : Millis) (state : ChannelState) :
    ChannelState × List Action × Bool :=
  if state.nextAckSweep ≤ now then
    let sweep := state.sweep cfg now
    ({ state with pendingAcks := sweep.pendingAcks, nextAckSweep := now + cfg.ackSweep },
      sweep.queued, sweep.dropConnection)
  else (state, [], false)

/-- Whether the last keepalive has gone unanswered for too long. -/
def ChannelState.overdue (cfg : TunnelConfig) (now : Millis) (state : ChannelState) : Bool :=
  match state.heartbeatPendingSince with
  | some sentAt => saturatingAdd sentAt cfg.heartbeatResponseTimeout ≤ now
  | none => false

def TunnelEngine.poll (engine : TunnelEngine) (now : Millis) : TunnelEngine :=
  match engine.phase with
  | .backoff until' =>
      if until' ≤ now then
        let hpai := engine.cfg.localEndpoint.hpai
        (engine.queue [.send (pico.buildConnectRequest hpai hpai) none]).enter (.connecting now)
      else engine
  | .connecting sentAt =>
      if saturatingAdd sentAt engine.cfg.connectTimeout ≤ now then
        (engine.queue [.resetSocket]).enter (.backoff (now + engine.cfg.reconnectBackoff))
      else engine
  | .connected state =>
      if state.overdue engine.cfg now then engine.handleSocketError now
      else
        let (state, kept) := state.keepAlive pico engine.cfg now
        let (state, swept, dropConnection) := state.sweepAcks engine.cfg now
        let engine := (engine.enter (.connected state)).queue (kept ++ swept)
        if dropConnection then engine.handleSocketError now else engine

/-- Earliest deadline the transport must wake the engine for. -/
def TunnelEngine.nextDeadline (engine : TunnelEngine) : Millis :=
  match engine.phase with
  | .backoff until' => until'
  | .connecting sentAt => saturatingAdd sentAt engine.cfg.connectTimeout
  | .connected state =>
      let next := min state.nextHeartbeat state.nextAckSweep
      match state.heartbeatPendingSince with
      | some sentAt => min next (saturatingAdd sentAt engine.cfg.heartbeatResponseTimeout)
      | none => next

def TunnelEngine.nextAction (engine : TunnelEngine) : Option Action × TunnelEngine :=
  (engine.actions.head?, { engine with actions := engine.actions.tail })

theorem isConnected_of_phase {engine : TunnelEngine} {state : ChannelState}
    (phase : engine.phase = .connected state) : engine.isConnected = true := by
  rw [TunnelEngine.isConnected, phase]

theorem isConnected_iff {engine : TunnelEngine} :
    engine.isConnected = true ↔ ∃ state, engine.phase = .connected state := by
  rw [TunnelEngine.isConnected]
  cases engine.phase <;> simp

inductive Call
  | handleDatagram (data : List UInt8) (now : Millis)
  | handleCommand (cmd : GroupWrite) (now : Millis)
  | sendFailed (seq : UInt8)
  | handleSocketError (now : Millis)
  | poll (now : Millis)
  | nextAction
  | setLocalEndpoint (ep : LocalEndpoint)

def TunnelEngine.call (engine : TunnelEngine) : Call → TunnelEngine
  | .handleDatagram data now => engine.handleDatagram pico data now
  | .handleCommand cmd now => (engine.handleCommand pico cmd now).2
  | .sendFailed seq => engine.sendFailed seq
  | .handleSocketError now => engine.handleSocketError now
  | .poll now => engine.poll pico now
  | .nextAction => engine.nextAction.2
  | .setLocalEndpoint ep => { engine with cfg.localEndpoint := ep }

def serviceCode : ServiceType → List UInt8
  | .connectResponse => [0x02, 0x06]
  | .connectionstateResponse => [0x02, 0x08]
  | .tunnellingRequest => [0x04, 0x20]
  | .tunnellingAck => [0x04, 0x21]
  | .other => [0x02, 0x0A]

def frameOf (code body : List UInt8) : Frame :=
  let total := 6 + body.length
  0x06 :: 0x10 :: code ++ UInt8.ofNat (total / 256) :: UInt8.ofNat total :: body

def serviceOf (high low : UInt8) : ServiceType :=
  if (high, low) = (0x02, 0x06) then .connectResponse
  else if (high, low) = (0x02, 0x08) then .connectionstateResponse
  else if (high, low) = (0x04, 0x20) then .tunnellingRequest
  else if (high, low) = (0x04, 0x21) then .tunnellingAck
  else .other

def hpaiBytes (hpai : Hpai) : List UInt8 :=
  0x08 :: 0x01 :: hpai.ip ++ [(hpai.port >>> 8).toUInt8, hpai.port.toUInt8]

def reference : KnxPico where
  parseFrame data :=
    match data with
    | 0x06 :: 0x10 :: high :: low :: totalHigh :: totalLow :: body =>
        if totalHigh.toNat * 256 + totalLow.toNat = data.length then some (serviceOf high low, body)
        else none
    | _ => none
  parseConnectResponse body :=
    match body with
    | channelId :: status :: _ => some (channelId, status)
    | _ => none
  parseTunnelingAck body :=
    match body with
    | 0x04 :: _ :: seq :: _ :: _ :: _ => some seq
    | _ => none
  parseTunnelingRequest body :=
    match body with
    | 0x04 :: _ :: seq :: _ :: cemi => some (seq, cemi)
    | _ => none
  parseConnectionStateResponse body :=
    match body with
    | _ :: status :: _ => some (status = 0)
    | _ => none
  parseLData _ := none
  buildConnectRequest control data :=
    frameOf [0x02, 0x05] (hpaiBytes control ++ hpaiBytes data ++ [0x04, 0x04, 0x02, 0x00])
  buildTunnelingAck channelId seq status :=
    frameOf (serviceCode .tunnellingAck) [0x04, channelId, seq, 0x00, status]
  buildTunnelingRequest channelId seq cemi :=
    frameOf (serviceCode .tunnellingRequest) ([0x04, channelId, seq, 0x00] ++ cemi)
  buildConnectionStateRequest channelId hpai :=
    frameOf [0x02, 0x07] ([channelId, 0x00] ++ hpaiBytes hpai)

end AimDb.Knx
