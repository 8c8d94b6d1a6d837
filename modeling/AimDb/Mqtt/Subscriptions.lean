import AimDb.Mqtt.Filters
import AimDb.Mqtt.Grammar
import AimDb.Router
import AimDb.Router.Subscriptions

/-!
# Quality of service of the subscribed filters

One subscribed filter can stand for several inbound links, and is subscribed at
the highest `qos` among the links it covers.
-/

namespace AimDb.Mqtt

open Topic Router

/-- The value of option `key` in a link's configuration. -/
def option (config : ConnectorConfig) (key : Str) : Option Str :=
  (config.protocolOptions.find? fun (k, _) => k == key).map Prod.snd

/-- A link's `qos`: 0, 1 or 2, defaulting to 1. -/
def parseQos (config : ConnectorConfig) (topic : Str) : Except String Nat :=
  match option config "qos".toList with
  | none => .ok 1
  | some ['0'] => .ok 0
  | some ['1'] => .ok 1
  | some ['2'] => .ok 2
  | some other =>
      .error (s!"route '{String.ofList topic}': qos must be 0, 1 or 2, " ++
        s!"got '{String.ofList other}'")

structure Subscription where
  filter : Str
  qos : Nat
  deriving DecidableEq, Repr

/-- The `qos` an inbound route asks for. -/
def routeQos (route : InboundRouteInfo) : Except String Nat :=
  parseQos route.config route.topic

def filterOf (topic : Str) : Except String Str := do
  let named := (s!"route '{String.ofList topic}': " ++ ·)
  let pattern ← (TopicPattern.parse topic).mapError named
  let filter ← (mqttGrammar.compile pattern).mapError named
  .ok filter.filter

/-- Each of `filters` with the highest QoS among the links it covers; 1 if it
covers none. -/
def assign (filters : List Str) (links : List (Str × Nat)) : List Subscription :=
  filters.map fun filter =>
    ⟨filter, (((links.filter fun (link, _) => covers filter link).map Prod.snd).max?).getD 1⟩

def collectLinks : List InboundRouteInfo → List (Str × Nat) × List String
  | [] => ([], [])
  | route :: routes =>
      let (links, problems) := collectLinks routes
      match routeQos route, filterOf route.topic with
      | .ok qos, .ok filter => ((filter, qos) :: links, problems)
      | .error e, _ => (links, e :: problems)
      | _, .error e => (links, e :: problems)

/-- The filters the inbound routes subscribe, each with its QoS. Reports every
route whose `qos` does not parse. -/
def subscriptions (inbound : InboundDispatch) : Except String (List Subscription) :=
  let (links, problems) := collectLinks inbound.routes
  if problems.isEmpty then .ok (assign inbound.subscriptions links)
  else .error ("; ".intercalate problems)

open Wildcard

theorem compile_spec {pattern : TopicPattern} {compiled : TopicFilter}
    (ok : mqttGrammar.compile pattern = .ok compiled) :
    ∃ f : MqttFilter, f.Valid ∧ compiled = f.asTopicFilter := by
  obtain ⟨f, compiles, rfl⟩ := map_eq_ok ok
  exact ⟨f, compileFilter_valid compiles, rfl⟩

theorem isFilter_of_compiles {filter : Str} (compiles : Compiles mqttGrammar filter) :
    IsFilter filter := by
  obtain ⟨pattern, compiled, ok, rfl⟩ := compiles
  obtain ⟨f, valid, rfl⟩ := compile_spec ok
  exact ⟨f, valid, rfl⟩

theorem mem_tagFrom {first : Bool} {levels : List Str} {tagged : Tagged}
    (inLevels : tagged ∈ tagFrom first levels) : tagged.text ∈ levels := by
  induction levels generalizing first with
  | nil => simp at inLevels
  | cons text more inductionHypothesis =>
      rw [tagFrom_cons] at inLevels
      rcases List.mem_cons.mp inLevels with rfl | later
      · exact List.mem_cons_self
      · exact List.mem_cons_of_mem _ (inductionHypothesis later)

theorem MqttFilter.Valid.matched_of_literal {f : MqttFilter} (valid : f.Valid)
    (literal : f.isLiteral = true) : Matched f.filter f.filter := by
  have plain : ∀ tagged ∈ levelsOf f.filter, tagged.text ≠ ['+'] ∧
      tagged.text ≠ ['#'] := by
    intro tagged inLevels
    have text := mem_tagFrom inLevels
    rw [valid.splitOn_filter] at text
    obtain ⟨level, isLevel, same⟩ := List.mem_map.mp text
    have isLiteral := List.all_eq_true.mp literal level isLevel
    cases level with
    | literal text =>
        rw [← same]
        exact valid.plain text isLevel
    | single capture => cases isLiteral
    | multi capture => cases isLiteral
  apply Rules.matches_refl
  · exact fun tagged inLevels hash => absurd hash (plain tagged inLevels).2
  · intro tagged inLevels _
    simp [section47, (plain tagged inLevels).1]

theorem lawful : Lawful mqttGrammar Matched where
  literal := by
    intro pattern compiled ok literal
    obtain ⟨f, valid, rfl⟩ := compile_spec ok
    exact valid.matched_of_literal literal
  isMatch := by
    intro pattern compiled topic spans ok matched
    obtain ⟨f, valid, rfl⟩ := compile_spec ok
    exact (valid.isMatch_iff topic spans).mp matched
  refl compiles := (isFilter_of_compiles compiles).covers_refl
  trans compilesA compilesB _ first second :=
    (isFilter_of_compiles compilesA).covers_trans (isFilter_of_compiles compilesB) first second
  covers compilesA _ covered matched :=
    (isFilter_of_compiles compilesA).matched_of_covers covered matched

/-- Every link a filter covers asked for no more than the filter gets. -/
theorem le_getD_max? {candidates : List Nat} {qos : Nat} (mem : qos ∈ candidates)
    (fallback : Nat) :
    qos ≤ candidates.max?.getD fallback := by
  cases highest : candidates.max? with
  | none =>
      rw [List.max?_eq_none_iff.mp highest] at mem
      cases mem
  | some best => exact (List.max?_eq_some_iff.mp highest).2 qos mem

theorem le_assigned {filters : List Str} {links : List (Str × Nat)} {s : Subscription}
    (assigned : s ∈ assign filters links) {link : Str} {qos : Nat}
    (isLink : (link, qos) ∈ links)
    (covered : covers s.filter link = true) : qos ≤ s.qos := by
  obtain ⟨filter, -, rfl⟩ := List.mem_map.mp assigned
  apply le_getD_max?
  exact List.mem_map.mpr ⟨(link, qos), List.mem_filter.mpr ⟨isLink, covered⟩, rfl⟩

theorem assign_filters (filters : List Str) (links : List (Str × Nat)) :
    (assign filters links).map Subscription.filter = filters := by
  simp [assign, Function.comp_def]

theorem mem_collectLinks {routes : List InboundRouteInfo}
    (noProblem : (collectLinks routes).2 = []) {route : InboundRouteInfo}
    (isRoute : route ∈ routes) : ∃ filter qos, filterOf route.topic = .ok filter ∧
      routeQos route = .ok qos ∧ (filter, qos) ∈ (collectLinks routes).1 := by
  induction routes with
  | nil => simp at isRoute
  | cons head routes inductionHypothesis =>
      rw [collectLinks] at noProblem ⊢
      cases asked : routeQos head with
      | error message => simp [asked] at noProblem
      | ok qos =>
          cases filtered : filterOf head.topic with
          | error message => simp [asked, filtered] at noProblem
          | ok filter =>
              simp only [asked, filtered] at noProblem ⊢
              rcases List.mem_cons.mp isRoute with rfl | later
              · exact ⟨filter, qos, filtered, asked, List.mem_cons_self⟩
              · obtain ⟨other, otherQos, otherFiltered, otherAsked, listed⟩ :=
                  inductionHypothesis noProblem later
                exact ⟨other, otherQos, otherFiltered, otherAsked,
                  List.mem_cons_of_mem _ listed⟩

theorem filterOf_route {topic filter : Str} {route : CompiledRoute}
    (compiled : route.Of mqttGrammar topic) (filtered : filterOf topic = .ok filter) :
    filter = route.filter := by
  obtain ⟨pattern, compiled, names, key, parsed, compiles, rfl⟩ := compiled
  simp only [filterOf, parsed, compiles, Except.mapError, bind, Except.bind] at filtered
  exact (Except.ok.inj filtered).symm

theorem exists_filterOf {topic : Str} {route : CompiledRoute}
    (compiled : route.Of mqttGrammar topic) : ∃ filter, filterOf topic = .ok filter := by
  obtain ⟨pattern, compiled, names, key, parsed, compiles, rfl⟩ := compiled
  refine ⟨compiled.filter, ?_⟩
  simp only [filterOf, parsed, compiles, Except.mapError, bind, Except.bind]

theorem collectLinks_noProblem {routes : List InboundRouteInfo}
    (each : ∀ route ∈ routes, (∃ qos, routeQos route = .ok qos) ∧
      ∃ filter, filterOf route.topic = .ok filter) : (collectLinks routes).2 = [] := by
  induction routes with
  | nil => rfl
  | cons head routes inductionHypothesis =>
      obtain ⟨⟨qos, asked⟩, filter, filtered⟩ := each head (by simp)
      have rest := inductionHypothesis fun route later => each route (by simp [later])
      simp only [collectLinks, asked, filtered]
      exact rest

theorem exists_subscriptions {dispatch : InboundDispatch}
    (dispatched : Dispatched mqttGrammar dispatch)
    (parses : ∀ route ∈ dispatch.routes, ∃ qos, routeQos route = .ok qos) :
    ∃ assigned, subscriptions dispatch = .ok assigned := by
  have noProblem : (collectLinks dispatch.routes).2 = [] := by
    apply collectLinks_noProblem
    intro info isInfo
    obtain ⟨i, bound, rfl⟩ := List.getElem_of_mem isInfo
    have other : i < dispatch.router.routes.length := dispatched.routes.length_eq ▸ bound
    exact ⟨parses _ isInfo, exists_filterOf (dispatched.routes.get other bound)⟩
  simp only [subscriptions, noProblem, List.isEmpty_nil, if_true]
  exact ⟨_, rfl⟩

structure Granted (dispatch : InboundDispatch) (assigned : List Subscription) : Prop where
  filters : assigned.map Subscription.filter = dispatch.subscriptions
  covered : ∀ route ∈ dispatch.router.routes, ∃ s ∈ assigned,
    covers s.filter route.filter = true
  enough : ∀ route info, (route, info) ∈ dispatch.router.routes.zip dispatch.routes →
    ∀ qos, routeQos info = .ok qos →
      ∀ s ∈ assigned, covers s.filter route.filter = true → qos ≤ s.qos

theorem granted {dispatch : InboundDispatch} (dispatched : Dispatched mqttGrammar dispatch)
    {assigned : List Subscription} (ok : subscriptions dispatch = .ok assigned) :
    Granted dispatch assigned := by
  rw [subscriptions] at ok
  cases collected : collectLinks dispatch.routes with
  | mk links problems =>
      simp only [collected] at ok
      split at ok
      · rename_i noProblem
        obtain rfl := Except.ok.inj ok
        have none : (collectLinks dispatch.routes).2 = [] := by
          rw [collected]
          exact List.isEmpty_iff.mp noProblem
        refine ⟨assign_filters _ _, ?_, ?_⟩
        · intro route isRoute
          obtain ⟨filter, stays, -, covered⟩ := lawful.exists_covering dispatched isRoute
          rw [← assign_filters dispatch.subscriptions links] at stays
          obtain ⟨s, assigned, rfl⟩ := List.mem_map.mp stays
          exact ⟨s, assigned, covered⟩
        · intro route info paired qos asked s assigned covered
          have compiled := (List.forall₂_iff_zip.mp dispatched.routes).2 paired
          obtain ⟨filter, otherQos, filtered, otherAsked, listed⟩ :=
            mem_collectLinks none (List.of_mem_zip paired).2
          obtain rfl := filterOf_route compiled filtered
          obtain rfl : qos = otherQos := Except.ok.inj (asked.symm.trans otherAsked)
          rw [collected] at listed
          exact le_assigned assigned listed covered
      · simp at ok

end AimDb.Mqtt
