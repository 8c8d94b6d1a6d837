import AimDb.Mqtt.Subscriptions
import AimDb.Transition.Runs

/-!
# The native backend

The client library owns the socket and reconnects by itself.  The connector queues
its subscriptions with it once, before the first connection, and then polls its
event loop for good.
-/

namespace AimDb.Mqtt.Native

open Topic

inductive QoS
  | atMostOnce
  | atLeastOnce
  | exactlyOnce
  deriving DecidableEq, Repr

def rumqttQos : ℕ → QoS
  | 0 => .atMostOnce
  | 2 => .exactlyOnce
  | _ => .atLeastOnce

/-- What the library is asked to send. -/
inductive Request
  | subscribe (filter : Str) (qos : QoS)
  | publish (topic : Str) (qos : QoS) (retain : Bool) (payload : List UInt8)
  deriving DecidableEq, Repr

/-- What one poll of the event loop returns. -/
inductive Polled
  | connAck
  | outgoing (request : Request)
  | publish (topic : Str) (payload : List UInt8)
  | other
  | error (text : String)
  deriving DecidableEq, Repr

/-- What the library goes through: a request is queued, the connection ends, the event
loop is polled. -/
inductive Occurrence
  | requested (request : Request)
  | ended
  | polled (outcome : Polled)
  deriving DecidableEq, Repr

/-- The client library together with its broker, and what is visible of both: whether a
connection is up, what is queued and not sent, and which QoS the broker has granted. -/
structure Rumqttc where
  State : Type
  new : ℕ → State
  react : State → Occurrence → Option State
  connected : State → Bool
  unsent : State → List Request
  granted : State → Str → Option QoS

def Request.subscribes : Request → Option (Str × QoS)
  | .subscribe filter qos => some (filter, qos)
  | .publish .. => none

namespace Rumqttc

variable (lib : Rumqttc)

def subscribes (client : lib.State) : List (Str × QoS) :=
  (lib.unsent client).filterMap Request.subscribes

/-- A subscription to a filter replaces the one before it. -/
def grant (granted : Str → Option QoS) (wire : Str × QoS) : Str → Option QoS :=
  fun filter => if filter = wire.1 then some wire.2 else granted filter

def forgotten : Str → Option QoS := fun _ => none

/-- What the library documents, with a clean session: the broker forgets the
subscriptions of a connection that ends.  Publishes may be queued again, but no
subscription is; an error or a new session may drop what was queued before it. -/
structure Documented : Prop where
  new_connected : ∀ capacity, lib.connected (lib.new capacity) = false
  new_unsent : ∀ capacity, lib.unsent (lib.new capacity) = []
  new_granted : ∀ capacity, lib.granted (lib.new capacity) = forgotten
  requested : ∀ {client request after}, lib.react client (.requested request) = some after →
    lib.connected after = lib.connected client ∧
      lib.unsent after = lib.unsent client ++ [request] ∧ lib.granted after = lib.granted client
  ended : ∀ {client after}, lib.react client .ended = some after →
    lib.connected after = false ∧ lib.subscribes after = lib.subscribes client ∧
      lib.granted after = forgotten
  connAck : ∀ {client after}, lib.react client (.polled .connAck) = some after →
    lib.connected client = false ∧ lib.connected after = true ∧
      lib.subscribes after <:+ lib.subscribes client ∧ lib.granted after = lib.granted client
  outgoing : ∀ {client request after},
    lib.react client (.polled (.outgoing request)) = some after →
      lib.unsent client = request :: lib.unsent after ∧
        lib.connected after = lib.connected client ∧
        lib.granted after =
          if lib.connected client then request.subscribes.elim (lib.granted client)
            (grant (lib.granted client)) else lib.granted client
  publish : ∀ {client topic payload after},
    lib.react client (.polled (.publish topic payload)) = some after →
      lib.connected after = lib.connected client ∧
      lib.subscribes after = lib.subscribes client ∧
        lib.granted after = lib.granted client
  other : ∀ {client after}, lib.react client (.polled .other) = some after →
    lib.connected after = lib.connected client ∧ lib.subscribes after = lib.subscribes client ∧
      lib.granted after = lib.granted client
  error : ∀ {client text after}, lib.react client (.polled (.error text)) = some after →
    lib.connected after = false ∧ lib.subscribes after <:+ lib.subscribes client ∧
      lib.granted after = forgotten

end Rumqttc

structure PublishOpts where
  qos : ℕ
  retain : Bool
  deriving DecidableEq, Repr

structure Config where
  brokerKey : String
  subscriptions : List Subscription
  opts : List PublishOpts

def Config.channelCapacity (config : Config) : ℕ := config.subscriptions.length + 10

inductive Task
  /-- `buildInternal`, with the subscriptions it has not requested yet. -/
  | building (rest : List Subscription)
  | failed (message : String)
  /-- `runEventLoop` and `runPublishLoop`; the event loop sleeps after an error. -/
  | running (sleeping : Bool)
  deriving DecidableEq, Repr

structure State (lib : Rumqttc) where
  client : lib.State
  task : Task

inductive Input
  | subscribe
  | subscribeFailed (e : String)
  | built
  | poll (outcome : Polled)
  | wake
  /-- The next outbound message, from the route `id`. -/
  | publish (id : ℕ) (topic : Str) (payload : List UInt8)
  | publishFailed (id : ℕ) (e : String)
  | ended
  deriving DecidableEq, Repr

inductive Event
  | dispatched (topic : Str) (payload : List UInt8)
  | nativeEventLoopFailed (broker : String) (error : String)
  | nativePublishFailed (route : ℕ) (error : String)
  deriving DecidableEq, Repr

def wire (s : Subscription) : Str × QoS := (s.filter, rumqttQos s.qos)

def Config.publishRequest (config : Config) (id : ℕ) (topic : Str) (payload : List UInt8) :
    Request :=
  let opt := (config.opts[id]?).getD ⟨1, false⟩
  .publish topic (rumqttQos opt.qos) opt.retain payload

/-- What the event loop does about an outcome, and whether it sleeps then. -/
def runEventLoop (config : Config) : Polled → Bool × List Event
  | .publish topic payload => (false, [.dispatched topic payload])
  | .error e => (true, [.nativeEventLoopFailed config.brokerKey e])
  | _ => (false, [])

variable (lib : Rumqttc) (config : Config)

def start : State lib := ⟨lib.new config.channelCapacity, .building config.subscriptions⟩

def step (s : State lib) (input : Input) : Option (State lib × List Event) :=
  match s.task, input with
  | .building (first :: rest), .subscribe =>
      (lib.react s.client (.requested (.subscribe first.filter (rumqttQos first.qos)))).map
        fun client => (⟨client, .building rest⟩, [])
  | .building (first :: _), .subscribeFailed e =>
      some (⟨s.client, .failed
        s!"Failed to subscribe to topic '{String.ofList first.filter}': {e}"⟩, [])
  | .building [], .built => some (⟨s.client, .running false⟩, [])
  | .running false, .poll outcome =>
      (lib.react s.client (.polled outcome)).map fun client =>
        (⟨client, .running (runEventLoop config outcome).1⟩, (runEventLoop config outcome).2)
  | .running true, .wake => some (⟨s.client, .running false⟩, [])
  | .running sleeping, .publish id topic payload =>
      (lib.react s.client (.requested (config.publishRequest id topic payload))).map fun client =>
        (⟨client, .running sleeping⟩, [])
  | .running sleeping, .publishFailed id e =>
      some (⟨s.client, .running sleeping⟩, [.nativePublishFailed id e])
  | task, .ended => (lib.react s.client .ended).map fun client => (⟨client, task⟩, [])
  | _, _ => none

abbrev Run : State lib → List Event → Prop :=
  Transition.Reachable (step lib config) (start lib config)

end AimDb.Mqtt.Native
