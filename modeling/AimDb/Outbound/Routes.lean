import AimDb.Outbound.Ready
import AimDb.Outbound.Route
import Mathlib.Logic.Function.Basic

/-!
# Every outbound route of one scheme

The transport task pulls the values of all routes through one scratch.  A value is staged by
one call and taken by another, and other calls, wake-ups and a dropped `next` future may come
between the two.
-/

namespace AimDb.Outbound.Routes

open Json (Bytes utf8 fromUtf8?)

structure RouteInfo where
  defaultTopic : String
  topicCapacity : ℕ
  payloadCapacity : ℕ
  deriving DecidableEq, Repr

structure Link (V Ctx : Type) where
  info : RouteInfo
  route : TypedRoute V Ctx

/-- Values taken from one route's buffer, by outcome. -/
@[ext] structure RouteStats where
  sent : ℕ := 0
  rejected : ℕ := 0
  lagged : ℕ := 0
  topicOverflow : ℕ := 0
  serializeFailed : ℕ := 0
  deriving DecidableEq, Repr

structure Staged where
  id : ℕ
  topicLen : Option ℕ
  payload : StagedPayload
  metadata : WriteMetadata
  deriving DecidableEq, Repr

structure OutboundMessage where
  route : ℕ
  topic : String
  payload : Bytes
  metadata : WriteMetadata
  deriving DecidableEq, Repr

inductive Verdict
  | sent (message : OutboundMessage)
  | topicOverflow
  | serializeFailed (failure : SerializeFailure)
  deriving DecidableEq, Repr

/-- How a call ends: `poll_stage` leaves the message, `poll_next` and a poll of a `next` future
take it. -/
inductive Call
  | stage
  | next
  | await
  deriving DecidableEq, Repr

inductive Happened (V Ctx : Type)
  | read (id : ℕ) (ctx : Ctx) (sample : Sample V) (verdict : Verdict)
  | lagged (id : ℕ) (count : UInt64)
  | took (message : OutboundMessage)
  | returned (call : Call) (outcome : Outcome)
  deriving DecidableEq

inductive Action (V Ctx : Type)
  | call (call : Call)
  | advance
  | answer (ctx : Ctx) (reading : Reading V)
  | take
  /-- A `next` future is dropped. -/
  | drop
  | reject (id : ℕ)
  | set (id : ℕ)
  | wake

structure OutboundRoutes where
  transport : Transport
  stats : ℕ → RouteStats
  /-- The topic region, then the payload region. -/
  scratch : Bytes
  staged : Option Staged
  running : Option Call
  /-- A `next` future holds the routes. -/
  held : Bool

variable {V Ctx : Type}

def topicRegion (links : List (Link V Ctx)) : ℕ := (links.map (·.info.topicCapacity)).foldr max 0

def payloadRegion (links : List (Link V Ctx)) : ℕ :=
  (links.map (·.info.payloadCapacity)).foldr max 0

def new (links : List (Link V Ctx)) : OutboundRoutes where
  transport := start links.length
  stats _ := {}
  scratch := List.replicate (topicRegion links + payloadRegion links) 0
  staged := none
  running := none
  held := false

/-- A slice put back in front of what is behind it. -/
def restore (region slice : Bytes) : Bytes := slice ++ region.drop slice.length

section

variable (links : List (Link V Ctx)) (s : OutboundRoutes)

def topicBuf : Bytes := s.scratch.take (topicRegion links)

def payloadBuf : Bytes := s.scratch.drop (topicRegion links)

def count (id : ℕ) (change : RouteStats → RouteStats) : OutboundRoutes :=
  { s with stats := Function.update s.stats id (change (s.stats id)) }

/-- What the closure of `poll_stage` does with the outcome of polling a route. -/
def settle (id : ℕ) (ctx : Ctx) (info : RouteInfo) (reading : Reading V) (topic payload : Bytes) :
    Option RouteOutcome → Polled × OutboundRoutes × List (Happened V Ctx)
  | none => (.pending, s, [])
  | some (.staged topicLen staged metadata) =>
      (.staged, { count s id fun stats => { stats with sent := stats.sent + 1 } with
          staged := some ⟨id, topicLen, staged, metadata⟩ },
        match reading with
        | some (.ok sample) => [.read id ctx sample (.sent ⟨id,
            topicText info.defaultTopic topic topicLen, payloadBytes payload staged, metadata⟩)]
        | _ => [])
  | some (.lagged n) =>
      (.skipped, count s id fun stats => { stats with lagged := stats.lagged + n.toNat },
        [.lagged id n])
  | some .topicOverflow =>
      (.skipped, count s id fun stats => { stats with topicOverflow := stats.topicOverflow + 1 },
        match reading with
        | some (.ok sample) => [.read id ctx sample .topicOverflow]
        | _ => [])
  | some (.serializeFailed failure) =>
      (.skipped, count s id fun stats =>
        { stats with serializeFailed := stats.serializeFailed + 1 }, match reading with
        | some (.ok sample) => [.read id ctx sample (.serializeFailed failure)]
        | _ => [])
  | some (.closed _) => (.closed, s, [])

/-- Poll route `id` with its slices of the scratch. -/
def poll (link : Link V Ctx) (id : ℕ) (ctx : Ctx) (reading : Reading V) :
    Polled × OutboundRoutes × List (Happened V Ctx) :=
  let (outcome, topic, payload) := pollRoute link.route ctx reading
    ((topicBuf links s).take link.info.topicCapacity)
    ((payloadBuf links s).take link.info.payloadCapacity)
  let polled :=
    { s with scratch := restore (topicBuf links s) topic ++ restore (payloadBuf links s) payload }
  settle polled id ctx link.info reading topic payload outcome

def message (staged : Staged) : Option OutboundMessage :=
  links[staged.id]?.map fun link =>
    ⟨staged.id, topicText link.info.defaultTopic (topicBuf links s) staged.topicLen,
      payloadBytes (payloadBuf links s) staged.payload, staged.metadata⟩

def takeStaged : OutboundRoutes × List (Happened V Ctx) :=
  ({ s with staged := none }, ((s.staged.bind (message links s)).map .took).toList)

/-- A call returns; all but `poll_stage` take what is staged. -/
def finish (call : Call) (outcome : Outcome) : OutboundRoutes × List (Happened V Ctx) :=
  let idle := { s with running := none, held := call = .await ∧ outcome = .pending }
  match call, outcome with
  | .stage, _ => (idle, [.returned call outcome])
  | _, .ready _ =>
      let (taken, events) := takeStaged links idle
      (taken, events ++ [.returned call outcome])
  | _, _ => (idle, [.returned call outcome])

/-- What an event of the ready set tells the call in progress. -/
def heed (s : OutboundRoutes) : List Event → OutboundRoutes × List (Happened V Ctx)
  | .returned outcome :: _ =>
      match s.running with
      | some call => finish links s call outcome
      | none => (s, [])
  | _ :: events => heed s events
  | [] => (s, [])

def move (input : Input) : Option (OutboundRoutes × List (Happened V Ctx)) :=
  (Outbound.step s.transport input).map fun after =>
    heed links { s with transport := after.1 } after.2

def poll? (ctx : Ctx) (reading : Reading V) :
    Option (OutboundRoutes × List (Happened V Ctx)) :=
  match s.transport.pc with
  | .polling _ id _ =>
      match links[id]? with
      | none => none
      | some link =>
          let (polled, after, events) := poll links s link id ctx reading
          (move links after (.answer polled)).map fun last => (last.1, events ++ last.2)
  | _ => none

def step (s : OutboundRoutes) : Action V Ctx → Option (OutboundRoutes × List (Happened V Ctx))
  | .call call =>
      if s.running = none ∧ (s.held = true → call = .await) then
        match s.staged with
        | some staged => some (finish links s call (.ready staged.id))
        | none => move links { s with running := some call } .call
      else none
  | .advance => move links s .advance
  | .answer ctx reading => poll? links s ctx reading
  | .take => if s.running = none ∧ s.held = false then some (takeStaged links s) else none
  | .drop =>
      if s.running = none ∧ s.held = true then some ({ s with held := false }, []) else none
  | .reject id =>
      if s.running = none ∧ s.held = false then
        some (if id < links.length then
          count s id fun stats => { stats with rejected := stats.rejected + 1 } else s, [])
      else none
  | .set id => move links s (.set id)
  | .wake => move links s .wake

end

end AimDb.Outbound.Routes
