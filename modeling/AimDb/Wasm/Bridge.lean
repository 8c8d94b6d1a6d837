import AimDb.Session.Client
import AimDb.Transition.Runs
import Mathlib.Logic.Function.Basic

/-!
# The browser bridge

Everything runs on one thread.  Emitting a status runs the listeners of the page at
once, and a listener may call `disconnect`, so each call that emits may be suspended
on a stack.
-/

namespace AimDb.Wasm

open Session.Client (TransportError)

inductive ConnectionStatus
  | connecting
  | connected
  | disconnected
  | reconnecting
  deriving DecidableEq, Repr

structure BridgeShared where
  status : ConnectionStatus
  stopped : Bool
  everConnected : Bool
  autoReconnect : Bool
  ws : Option ℕ
  deriving DecidableEq, Repr

def BridgeShared.dropStatus (shared : BridgeShared) : ConnectionStatus :=
  if shared.stopped || !shared.autoReconnect then .disconnected else .reconnecting

/-- Release a socket if it is the published one, and tell whether it was. -/
def BridgeShared.unpublishSocket (shared : BridgeShared) (ws : ℕ) : BridgeShared × Bool :=
  if shared.ws = some ws then ({ shared with ws := none }, true) else (shared, false)

inductive Phase
  /-- The socket is published, its callbacks are not installed yet. -/
  | starting
  /-- `openRx` is awaited. -/
  | awaiting
  /-- `acceptDial` reports the connection. -/
  | adopting
  | connected
  /-- The dial failed, or its connection was dropped. -/
  | ended
  deriving DecidableEq, Repr

structure Dial where
  phase : Phase
  installed : Bool
  /-- Whether `opened` still holds the sender. -/
  opened : Bool
  /-- What was sent to `openRx`. -/
  handshake : Option Bool
  closing : Bool
  deriving DecidableEq, Repr

def Dial.unused : Dial := ⟨.ended, false, false, none, false⟩

def Dial.shutdownSocket (dial : Dial) : Dial := { dial with installed := false, closing := true }

/-- What is left to do of a call that emits a status. -/
inductive Frame
  | rejecting
  | publishing (ws : ℕ)
  | adopting (ws : ℕ)
  | closing
  | dropping
  | disconnecting
  deriving DecidableEq, Repr

inductive Event
  | status (status : ConnectionStatus)
  | adopted (ws : ℕ)
  | ended (ws : Option ℕ) (outcome : Except TransportError Unit)
  /-- `disconnect` returned. -/
  | disconnected

structure Bridge where
  shared : BridgeShared
  count : ℕ
  dials : ℕ → Dial
  stack : List Frame

namespace Bridge

variable (s : Bridge)

def setDial (ws : ℕ) (dial : Dial) : Bridge := { s with dials := Function.update s.dials ws dial }

/-- The rest of a call, once the status is set and the listeners have returned. -/
def finish : Frame → Bridge × List Event
  | .rejecting => (s, [.ended none (.error .closed)])
  | .publishing ws =>
      (s.setDial ws { s.dials ws with
        phase := .awaiting, installed := true, opened := true }, [])
  | .adopting ws =>
      (s.setDial ws { s.dials ws with phase := .connected }, [.ended (some ws) (.ok ())])
  | .closing => (s, [])
  | .dropping => (s, [])
  | .disconnecting => (s, [.disconnected])

def setStatus (status : ConnectionStatus) (frame : Frame) : Bridge × List Event :=
  if s.shared.status = status then s.finish frame
  else
    ({ s with shared := { s.shared with status }, stack := frame :: s.stack }, [.status status])

def publish : Bridge :=
  { s with
    shared := { s.shared with ws := some s.count }
    count := s.count + 1
    dials := Function.update s.dials s.count { Dial.unused with phase := .starting } }

/-- `connect` up to the await; `accepted` is whether the constructor takes the URL. -/
def connect (accepted : Bool) : Bridge × List Event :=
  if s.shared.stopped then (s, [.ended none (.error .closed)])
  else if accepted then
    if s.shared.everConnected then s.publish.setStatus .reconnecting (.publishing s.count)
    else s.publish.finish (.publishing s.count)
  else s.setStatus .disconnected .rejecting

def abandon (ws : ℕ) : Bridge :=
  let dial := { (s.dials ws).shutdownSocket with phase := .ended }
  { s.setDial ws dial with shared := (s.shared.unpublishSocket ws).1 }

/-- A completed handshake is adopted: `acceptDial` up to its emission. -/
def adopt (ws : ℕ) : Bridge :=
  { s.setDial ws { s.dials ws with phase := .adopting } with
    shared := { s.shared with everConnected := true } }

/-- `connect` from the await on. -/
def settle (ws : ℕ) (opened : Bool) : Bridge × List Event :=
  if !opened then
    (s.abandon ws, [.ended (some ws) (.error (if s.shared.stopped then .closed else .io))])
  else if s.shared.stopped then (s.abandon ws, [.ended (some ws) (.error .closed)])
  else
    let outcome := (s.adopt ws).setStatus .connected (.adopting ws)
    (outcome.1, .adopted ws :: outcome.2)

def onOpen (ws : ℕ) : Bridge :=
  let dial := s.dials ws
  if dial.installed && dial.opened then
    s.setDial ws { dial with opened := false, handshake := some true }
  else s

def onClose (ws : ℕ) : Bridge × List Event :=
  let dial := s.dials ws
  if dial.installed then
    let handshake := if dial.opened then some false else dial.handshake
    (s.setDial ws { dial with opened := false, handshake }).setStatus
      s.shared.dropStatus .closing
  else (s, [])

def dropConnection (ws : ℕ) : Bridge × List Event :=
  if (s.shared.unpublishSocket ws).2 then
    (s.abandon ws).setStatus (s.abandon ws).shared.dropStatus .dropping
  else (s.abandon ws, [])

/-- The published socket is taken and closed. -/
def stop : Bridge :=
  { s with
    shared := { s.shared with stopped := true, ws := none }
    dials := s.shared.ws.elim s.dials fun ws =>
      Function.update s.dials ws { s.dials ws with closing := true } }

def disconnect : Bridge × List Event := s.stop.setStatus .disconnected .disconnecting

end Bridge

inductive Action
  | dial (accepted : Bool)
  | opens (ws : ℕ)
  | closes (ws : ℕ)
  /-- The dial is polled after its handshake was settled. -/
  | poll (ws : ℕ)
  | drop (ws : ℕ)
  /-- A call of `disconnect`, by a listener or from outside. -/
  | disconnect
  | returns
  deriving DecidableEq, Repr

namespace Bridge

/-- Listeners run to completion: while a call is suspended they may disconnect, and
nothing else runs. -/
def step (s : Bridge) : Action → Option (Bridge × List Event)
  | .dial accepted => if s.stack = [] then some (s.connect accepted) else none
  | .opens ws => if s.stack = [] ∧ ws < s.count then some (s.onOpen ws, []) else none
  | .closes ws => if s.stack = [] ∧ ws < s.count then some (s.onClose ws) else none
  | .poll ws =>
      if s.stack = [] ∧ (s.dials ws).phase = .awaiting then
        (s.dials ws).handshake.map (s.settle ws)
      else none
  | .drop ws =>
      if s.stack = [] ∧ (s.dials ws).phase = .connected then some (s.dropConnection ws) else none
  | .disconnect => some s.disconnect
  | .returns =>
      match s.stack with
      | [] => none
      | frame :: rest => some ({ s with stack := rest }.finish frame)

def start (autoReconnect : Bool) : Bridge :=
  ⟨⟨.connecting, false, false, autoReconnect, none⟩, 0, fun _ => Dial.unused, []⟩

/-- The client engine dials again once the last dial has failed or its connection is dropped. -/
def OneAtATime (s : Bridge) : Action → Prop
  | .dial _ => ∀ ws < s.count, (s.dials ws).phase = .ended
  | _ => True

end Bridge

end AimDb.Wasm
