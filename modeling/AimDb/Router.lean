import Mathlib.Data.Char
import Mathlib.Data.List.Destutter
import Mathlib.Data.List.Lex
import Mathlib.Data.List.Sort
import AimDb.Topic.Pattern

/-!
# Inbound routes

The router compares a message's topic with every route and tells the transport
which filters to subscribe.  Deserializing and producing, which a match leads to,
are left out.
-/

namespace AimDb

namespace Router

open Topic

structure CompiledRoute where
  filter : Str
  /-- `none`: compare `filter` as a string. -/
  matcher : Option TopicFilter
  names : List Str
  /-- The capture number whose value is keyed. -/
  key : Option Nat

namespace CompiledRoute

/-- A route matching through `filter`. -/
def pattern (filter : TopicFilter) (names : List Str) (key : Option Nat) : CompiledRoute where
  filter := filter.filter
  matcher := if filter.isLiteral then none else some filter
  names := names
  key := key

/-- `CompiledRoute::matches`, with the spans it leaves. -/
def isMatch (route : CompiledRoute) (topic : Str) (spans : Spans) : Bool × Spans :=
  match route.matcher with
  | none => (route.filter == topic, spans)
  | some m => if byteLen topic ≤ 65535 then m.isMatch topic spans else (false, spans)

end CompiledRoute

end Router

structure Router where
  routes : List Router.CompiledRoute
  grammar : Topic.TopicGrammar

namespace Router

open Topic

def resourceIds (router : Router) : List Str :=
  ((router.routes.map CompiledRoute.filter).insertionSort (· ≤ ·)).destutter (· ≠ ·)

/-- Another filter covers `a`, which is the one at `i`. Of two filters covering
each other, the first one stays. -/
def isCovered (grammar : TopicGrammar) (ids : List Str) (a : Str) (i : Nat) : Bool :=
  ids.zipIdx.any fun (b, j) =>
    j != i && grammar.covers b a && (decide (j < i) || !grammar.covers a b)

/-- Filters to subscribe: the resource ids without those another one covers. -/
def subscriptions (router : Router) : List Str :=
  let ids := router.resourceIds
  (ids.zipIdx.filter fun (a, i) => !isCovered router.grammar ids a i).map Prod.fst

/-- A link's configuration, without the timeout. -/
structure ConnectorConfig where
  protocolOptions : List (Str × Str)
  deriving DecidableEq, Repr

def ConnectorConfig.fromQuery (query : List (Str × Str)) : ConnectorConfig where
  protocolOptions := query.filter fun (k, _) => k != "timeout_ms".toList

/-- An inbound link: its resolved topic and, for a keyed one, the capture its key
table keys. -/
structure InboundConnectorLink where
  scheme : Str
  url : Str
  topic : Str
  key : Option Str
  config : List (Str × Str)
  deriving DecidableEq, Repr

structure RecordEntry where
  key : Str
  inboundConnectors : List InboundConnectorLink
  deriving DecidableEq, Repr

structure InboundRouteInfo where
  topic : Str
  recordIndex : Nat
  config : ConnectorConfig
  deriving DecidableEq, Repr

structure ConfigError where
  recordKey : Str
  url : Option Str
  message : String
  deriving DecidableEq, Repr

def inboundRoute (grammar : TopicGrammar) (link : InboundConnectorLink) :
    Except String CompiledRoute := do
  let pattern ← TopicPattern.parse link.topic
  let filter ← grammar.compile pattern
  let names := pattern.captureNames
  match link.key with
  | none => .ok (CompiledRoute.pattern filter names none)
  | some capture =>
      match names.idxOf? capture with
      | some n => .ok (CompiledRoute.pattern filter names (some n))
      | none =>
          .error s!"key '{String.ofList capture}' is not a capture of '{String.ofList link.topic}'"

/-- What the loop over the links has built. -/
structure Compiled where
  routes : List CompiledRoute := []
  infos : List InboundRouteInfo := []
  errors : List ConfigError := []

def Compiled.link (grammar : TopicGrammar) (entry : RecordEntry) (recordIndex : Nat)
    (built : Compiled) (link : InboundConnectorLink) : Compiled :=
  match inboundRoute grammar link with
  | .ok route =>
      { built with
        routes := built.routes ++ [route]
        infos := built.infos ++ [⟨link.topic, recordIndex, .fromQuery link.config⟩] }
  | .error message =>
      { built with errors := built.errors ++ [⟨entry.key, some link.url, message⟩] }

/-- The links of one record under `scheme`. -/
def Compiled.record (grammar : TopicGrammar) (scheme : Str) (built : Compiled)
    (indexed : RecordEntry × Nat) : Compiled :=
  (indexed.1.inboundConnectors.filter fun link => link.scheme == scheme).foldl
    (Compiled.link grammar indexed.1 indexed.2) built

/-- The inbound router for `scheme`, with one info per route in the router's
order. Every link that does not compile is reported. -/
def inboundRouter (records : List RecordEntry) (scheme : Str) (grammar : TopicGrammar) :
    Except (List ConfigError) (Router × List InboundRouteInfo) :=
  let built := records.zipIdx.foldl (Compiled.record grammar scheme) {}
  if built.errors.isEmpty then .ok (⟨built.routes, grammar⟩, built.infos)
  else .error built.errors

end Router

structure InboundDispatch where
  router : Router
  routes : List Router.InboundRouteInfo

namespace InboundDispatch

def new (records : List Router.RecordEntry) (scheme : Topic.Str) (grammar : Topic.TopicGrammar) :
    Except (List Router.ConfigError) InboundDispatch :=
  (Router.inboundRouter records scheme grammar).map fun (router, routes) => ⟨router, routes⟩

def subscriptions (dispatch : InboundDispatch) : List Topic.Str :=
  dispatch.router.subscriptions

end InboundDispatch

end AimDb
