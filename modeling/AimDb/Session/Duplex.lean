import AimDb.Session.Client
import AimDb.Session.Server

/-!
# A client and the sessions it talks to

The client engine and the session of its present connection as one machine.  A
wire keeps the order of what it carries; it may lose frames whole, as a serial
line does, and bring bytes that are no message.  A dial opens a session of its
own, with empty wires.
-/

namespace AimDb.Session.Duplex

open AimDb.Json AimDb.Transition

/-- Both ends of a connection, and what is on its way between them. -/
structure State where
  client : Client.State := {}
  server : Server.State := {}
  up : List Inbound := []
  down : List Outbound := []

inductive Input where
  | client (input : Client.Input)
  | server (input : Server.Input)
  | loseUp (index : ℕ)
  | loseDown (index : ℕ)

inductive Event where
  | client (record : Client.Record)
  | server (record : Server.Record)
  deriving DecidableEq

def message : Client.Record → Option Inbound
  | .sent _ message => some message
  | _ => none

def frame : Server.Record → Option Outbound
  | .sent _ frame => some frame
  | _ => none

def dials : Client.Record → Bool
  | .dialed _ => true
  | _ => false

/-- What is left on a wire once a peer has read bytes that decode so: the oldest
message, or none. -/
def heard {Message : Type} [DecidableEq Message] (wire : List Message) :
    Except CodecError Message → Option (List Message)
  | .error _ => some wire
  | .ok message => if wire.head? = some message then some wire.tail else none

variable (codec : EnvelopeCodec) (clientConfig : Client.ClientConfig) (platform : Client.Platform)
  (serverConfig : Server.SessionConfig)

namespace State

def readDown (s : State) : Client.Input → Option (List Outbound)
  | .inbound (some bytes) => heard s.down (codec.decodeOutbound bytes)
  | _ => some s.down

/-- The wire once the session has consumed an input. -/
def readUp (s : State) : Server.Input → Option (List Inbound)
  | .frame bytes _ _ => heard s.up (codec.decode bytes)
  | _ => some s.up

def afterClient (s : State) (down : List Outbound) (client : Client.State)
    (records : List Client.Record) : State :=
  if records.any dials then { client }
  else { s with client, down, up := s.up ++ records.filterMap message }

def afterServer (s : State) (up : List Inbound) (server : Server.State)
    (records : List Server.Record) : State :=
  { s with server, up, down := s.down ++ records.filterMap frame }

end State

def step (s : State) : Input → Option (State × List Event)
  | .client input => do
      let down ← s.readDown codec input
      let (client, records) ← Client.step codec clientConfig platform s.client input
      some (s.afterClient down client records, records.map .client)
  | .server input => do
      let up ← s.readUp codec input
      let (server, records) ← Server.step codec serverConfig s.server input
      some (s.afterServer up server records, records.map .server)
  | .loseUp index => some ({ s with up := s.up.eraseIdx index }, [])
  | .loseDown index => some ({ s with down := s.down.eraseIdx index }, [])

def Event.ofClient : Event → Option Client.Record
  | .client record => some record
  | .server _ => none

def clientLog (log : List Event) : List Client.Record := log.filterMap Event.ofClient

def Event.extend (records : List Server.Record) : Event → List Server.Record
  | .client record => if dials record then [] else records
  | .server record => records ++ [record]

def session (log : List Event) : List Server.Record := log.foldl Event.extend []

end AimDb.Session.Duplex
