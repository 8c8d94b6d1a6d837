import AimDb.Router
import AimDb.Wildcard.Undominated

/-!
# The filters a router subscribes

Whatever a route matches is matched by a filter that stays, because covering
composes and a filter is dropped only for one that covers it.
-/

namespace AimDb.Router

open Topic Wildcard

theorem resourceIds_eq_dedup (router : Router) :
    router.resourceIds = ((router.routes.map CompiledRoute.filter).insertionSort
        (· ≤ ·)).dedup :=
  (List.pairwise_insertionSort (· ≤ ·) _).destutter_eq_dedup

@[simp]
theorem mem_resourceIds {router : Router} {filter : Str} :
    filter ∈ router.resourceIds ↔ ∃ route ∈ router.routes, route.filter = filter := by
  simp [resourceIds_eq_dedup]

theorem resourceIds_nodup (router : Router) : router.resourceIds.Nodup := by
  rw [resourceIds_eq_dedup]
  exact List.nodup_dedup _

def Covers (router : Router) (a b : Str) : Prop := router.grammar.covers a b = true

theorem isCovered_iff {router : Router} (i : Fin router.resourceIds.length) :
    isCovered router.grammar router.resourceIds router.resourceIds[i] i = true ↔
      ¬ Unbeaten router.Covers router.resourceIds i := by
  rw [Unbeaten, not_forall_not, isCovered, List.any_eq_true]
  simp only [Bool.and_eq_true, Bool.or_eq_true, bne_iff_ne, decide_eq_true_eq,
    Bool.not_eq_true']
  constructor
  · rintro ⟨⟨b, j⟩, listed, ⟨distinct, covers⟩, tie⟩
    obtain ⟨bound, rfl⟩ := List.getElem?_eq_some_iff.mp
      (List.mk_mem_zipIdx_iff_getElem?.mp listed)
    refine ⟨⟨j, bound⟩, fun same => distinct (congrArg Fin.val same), covers, ?_⟩
    exact tie.imp Fin.mk_lt_of_lt_val Bool.eq_false_iff.mp
  · rintro ⟨j, distinct, covers, tie⟩
    refine ⟨(router.resourceIds[j], j), ?_,
      ⟨fun same => distinct (Fin.ext same), covers⟩, ?_⟩
    · exact List.mk_mem_zipIdx_iff_getElem?.mpr (List.getElem?_eq_getElem j.isLt)
    · exact tie.imp Fin.lt_def.mp Bool.eq_false_iff.mpr

theorem mem_subscriptions {router : Router} {filter : Str} :
    filter ∈ router.subscriptions ↔
      ∃ i, router.resourceIds[i] = filter ∧ Unbeaten router.Covers router.resourceIds i := by
  have stays : ∀ i : Fin router.resourceIds.length,
      (!isCovered router.grammar router.resourceIds router.resourceIds[i] i) = true ↔
        Unbeaten router.Covers router.resourceIds i := by
    intro i
    rw [Bool.not_eq_true', Bool.eq_false_iff, Ne, isCovered_iff, not_not]
  constructor
  · intro kept
    obtain ⟨⟨a, i⟩, filtered, rfl⟩ := List.mem_map.mp kept
    obtain ⟨listed, keeps⟩ := List.mem_filter.mp filtered
    obtain ⟨bound, rfl⟩ := List.getElem?_eq_some_iff.mp
      (List.mk_mem_zipIdx_iff_getElem?.mp listed)
    exact ⟨⟨i, bound⟩, rfl, (stays ⟨i, bound⟩).mp keeps⟩
  · rintro ⟨i, rfl, unbeaten⟩
    refine List.mem_map.mpr ⟨(router.resourceIds[i], i), List.mem_filter.mpr ⟨?_, ?_⟩, rfl⟩
    · exact List.mk_mem_zipIdx_iff_getElem?.mpr (List.getElem?_eq_getElem i.isLt)
    · exact (stays i).mpr unbeaten

theorem subscriptions_sublist (router : Router) :
    router.subscriptions.Sublist router.resourceIds := by
  rw [subscriptions]
  refine (List.filter_sublist.map Prod.fst).trans ?_
  rw [List.zipIdx_map_fst]

theorem subscriptions_nodup (router : Router) : router.subscriptions.Nodup :=
  (subscriptions_sublist router).nodup (resourceIds_nodup router)

theorem exists_subscription {router : Router}
    (transitive : TransitiveOn router.Covers router.resourceIds) {route : CompiledRoute}
    (isRoute : route ∈ router.routes) :
    ∃ filter ∈ router.subscriptions,
      filter = route.filter ∨ router.Covers filter route.filter := by
  have listed : route.filter ∈ router.resourceIds := mem_resourceIds.mpr ⟨route, isRoute, rfl⟩
  obtain ⟨i, bound, here⟩ := List.getElem_of_mem listed
  obtain ⟨j, stays, same⟩ := exists_unbeaten transitive ⟨i, bound⟩
  refine ⟨router.resourceIds[j], mem_subscriptions.mpr ⟨j, rfl, stays⟩, ?_⟩
  rw [← here]
  exact same.imp (fun equal => by rw [equal]; rfl) id

theorem subscriptions_irredundant {router : Router} {a b : Str}
    (inA : a ∈ router.subscriptions) (inB : b ∈ router.subscriptions) (distinct : a ≠ b) :
    ¬ router.Covers a b := by
  obtain ⟨i, rfl, staysA⟩ := mem_subscriptions.mp inA
  obtain ⟨j, rfl, staysB⟩ := mem_subscriptions.mp inB
  apply staysA.not_covers staysB
  rintro rfl
  exact distinct rfl

def Compiles (grammar : TopicGrammar) (filter : Str) : Prop :=
  ∃ pattern compiled, grammar.compile pattern = .ok compiled ∧ compiled.filter = filter

/-- The code of a grammar agrees with what its filters match: a route matches no
more than its filter, and covering is inclusion and composes. -/
structure Lawful (grammar : TopicGrammar) (Matched : Str → Str → Prop) : Prop where
  literal : ∀ {pattern compiled}, grammar.compile pattern = .ok compiled →
    compiled.isLiteral = true → Matched compiled.filter compiled.filter
  isMatch : ∀ {pattern compiled topic spans}, grammar.compile pattern = .ok compiled →
    (compiled.isMatch topic spans).1 = true → Matched compiled.filter topic
  refl : ∀ {a}, Compiles grammar a → grammar.covers a a = true
  trans : ∀ {a b c}, Compiles grammar a → Compiles grammar b → Compiles grammar c →
    grammar.covers a b = true → grammar.covers b c = true → grammar.covers a c = true
  covers : ∀ {a b topic}, Compiles grammar a → Compiles grammar b →
    grammar.covers a b = true → Matched b topic → Matched a topic

def CompiledRoute.Of (grammar : TopicGrammar) (topic : Str) (route : CompiledRoute) : Prop :=
  ∃ pattern compiled names key, TopicPattern.parse topic = .ok pattern ∧
    grammar.compile pattern = .ok compiled ∧ route = CompiledRoute.pattern compiled names key

theorem CompiledRoute.Of.compiles {grammar : TopicGrammar} {topic : Str} {route : CompiledRoute}
    (compiled : route.Of grammar topic) : Compiles grammar route.filter := by
  obtain ⟨pattern, filter, names, key, -, compiles, rfl⟩ := compiled
  exact ⟨pattern, filter, compiles, rfl⟩

theorem Lawful.route_matches {grammar : TopicGrammar} {Matched : Str → Str → Prop}
    (lawful : Lawful grammar Matched) {route : CompiledRoute} {source topic : Str} {spans : Spans}
    (compiled : route.Of grammar source) (matched : (route.isMatch topic spans).1 = true) :
    Matched route.filter topic := by
  obtain ⟨pattern, filter, names, key, -, compiles, rfl⟩ := compiled
  rw [CompiledRoute.isMatch] at matched
  simp only [CompiledRoute.pattern] at matched ⊢
  by_cases literal : filter.isLiteral = true
  · have same : filter.filter = topic := by simpa [literal] using matched
    rw [← same]
    exact lawful.literal compiles literal
  · simp only [literal, Bool.false_eq_true, if_false] at matched
    split at matched
    · exact lawful.isMatch compiles matched
    · simp at matched

structure Dispatched (grammar : TopicGrammar) (dispatch : InboundDispatch) : Prop where
  same : dispatch.router.grammar = grammar
  routes : List.Forall₂ (fun route info => CompiledRoute.Of grammar info.topic route)
    dispatch.router.routes dispatch.routes

theorem inboundRoute_of {grammar : TopicGrammar} {link : InboundConnectorLink}
    {route : CompiledRoute} (compiled : inboundRoute grammar link = .ok route) :
    route.Of grammar link.topic := by
  rw [inboundRoute] at compiled
  obtain ⟨pattern, parsed, compiled⟩ := bind_eq_ok compiled
  obtain ⟨filter, filtered, compiled⟩ := bind_eq_ok compiled
  simp only at compiled
  split at compiled
  · exact ⟨pattern, filter, _, _, parsed, filtered, (Except.ok.inj compiled).symm⟩
  · split at compiled
    · exact ⟨pattern, filter, _, _, parsed, filtered, (Except.ok.inj compiled).symm⟩
    · simp at compiled

def Compiled.Paired (holds : CompiledRoute → InboundRouteInfo → Prop)
    (built : Compiled) : Prop :=
  List.Forall₂ holds built.routes built.infos

section Built

variable {grammar : TopicGrammar} {holds : CompiledRoute → InboundRouteInfo → Prop}
  (each : ∀ link route recordIndex, inboundRoute grammar link = .ok route →
    holds route ⟨link.topic, recordIndex, .fromQuery link.config⟩)

include each

theorem Compiled.Paired.link {built : Compiled} (paired : built.Paired holds) (entry : RecordEntry)
    (recordIndex : Nat) (link : InboundConnectorLink) :
    (built.link grammar entry recordIndex link).Paired holds := by
  rw [Compiled.link]
  cases compiled : inboundRoute grammar link with
  | error message => exact paired
  | ok route =>
      apply List.rel_append paired
      exact .cons (each link route recordIndex compiled) .nil

theorem Compiled.Paired.record {built : Compiled} (paired : built.Paired holds) (scheme : Str)
    (indexed : RecordEntry × Nat) : (built.record grammar scheme indexed).Paired holds := by
  rw [Compiled.record]
  generalize indexed.1.inboundConnectors.filter _ = links
  induction links generalizing built with
  | nil => exact paired
  | cons link links inductionHypothesis =>
      exact inductionHypothesis (paired.link each indexed.1 indexed.2 link)

theorem forall₂_of_new {records : List RecordEntry} {scheme : Str} {dispatch : InboundDispatch}
    (built : InboundDispatch.new records scheme grammar = .ok dispatch) :
    dispatch.router.grammar = grammar ∧
      List.Forall₂ holds dispatch.router.routes dispatch.routes := by
  have run : ∀ (indexed : List (RecordEntry × Nat)) (start : Compiled), start.Paired holds →
      Compiled.Paired holds (indexed.foldl (Compiled.record grammar scheme) start) := by
    intro indexed
    induction indexed with
    | nil => exact fun start paired => paired
    | cons entry indexed inductionHypothesis =>
        exact fun start paired => inductionHypothesis _ (paired.record each scheme entry)
  rw [InboundDispatch.new, inboundRouter] at built
  simp only at built
  split at built
  · obtain rfl := Except.ok.inj built
    exact ⟨rfl, run records.zipIdx {} List.Forall₂.nil⟩
  · simp [Except.map] at built

end Built

theorem dispatched_of_new {records : List RecordEntry} {scheme : Str} {grammar : TopicGrammar}
    {dispatch : InboundDispatch}
    (built : InboundDispatch.new records scheme grammar = .ok dispatch) :
    Dispatched grammar dispatch := by
  have along : dispatch.router.grammar = grammar ∧
      List.Forall₂ (fun route info => CompiledRoute.Of grammar info.topic route)
        dispatch.router.routes dispatch.routes :=
    forall₂_of_new (fun _ _ _ compiled => inboundRoute_of compiled) built
  exact ⟨along.1, along.2⟩

structure NoneLeftOut (Matched : Str → Str → Prop) (dispatch : InboundDispatch) : Prop where
  subscribed : ∀ route ∈ dispatch.router.routes, ∀ topic spans,
    (route.isMatch topic spans).1 = true →
    ∃ filter ∈ dispatch.subscriptions, Matched filter topic
  irredundant : ∀ a ∈ dispatch.subscriptions, ∀ b ∈ dispatch.subscriptions, a ≠ b →
    dispatch.router.grammar.covers a b = false
  once : dispatch.subscriptions.Nodup

variable {grammar : TopicGrammar} {Matched : Str → Str → Prop} {dispatch : InboundDispatch}

theorem Dispatched.of_mem (dispatched : Dispatched grammar dispatch) {route : CompiledRoute}
    (isRoute : route ∈ dispatch.router.routes) : ∃ topic, route.Of grammar topic := by
  obtain ⟨i, bound, rfl⟩ := List.getElem_of_mem isRoute
  have other : i < dispatch.routes.length := dispatched.routes.length_eq ▸ bound
  exact ⟨dispatch.routes[i].topic, dispatched.routes.get bound other⟩

theorem Dispatched.compiles (dispatched : Dispatched grammar dispatch) {filter : Str}
    (listed : filter ∈ dispatch.router.resourceIds) : Compiles grammar filter := by
  obtain ⟨route, isRoute, rfl⟩ := mem_resourceIds.mp listed
  obtain ⟨topic, compiled⟩ := dispatched.of_mem isRoute
  exact compiled.compiles

theorem Lawful.transitiveOn (lawful : Lawful grammar Matched)
    (dispatched : Dispatched grammar dispatch) :
    TransitiveOn dispatch.router.Covers dispatch.router.resourceIds := by
  intro a inA b inB c inC first second
  simp only [Covers, dispatched.same] at first second ⊢
  exact lawful.trans (dispatched.compiles inA) (dispatched.compiles inB) (dispatched.compiles inC)
    first second

theorem Lawful.exists_covering (lawful : Lawful grammar Matched)
    (dispatched : Dispatched grammar dispatch) {route : CompiledRoute}
    (isRoute : route ∈ dispatch.router.routes) :
    ∃ filter ∈ dispatch.subscriptions, Compiles grammar filter ∧
      grammar.covers filter route.filter = true := by
  obtain ⟨filter, stays, same⟩ := exists_subscription (lawful.transitiveOn dispatched) isRoute
  have compiles : Compiles grammar filter :=
    dispatched.compiles ((subscriptions_sublist dispatch.router).subset stays)
  refine ⟨filter, stays, compiles, ?_⟩
  rcases same with rfl | covers
  · exact lawful.refl compiles
  · rwa [Covers, dispatched.same] at covers

theorem Lawful.noneLeftOut (lawful : Lawful grammar Matched)
    (dispatched : Dispatched grammar dispatch) : NoneLeftOut Matched dispatch where
  subscribed := by
    intro route isRoute topic spans matched
    obtain ⟨source, compiled⟩ := dispatched.of_mem isRoute
    have own : Matched route.filter topic := lawful.route_matches compiled matched
    obtain ⟨filter, stays, compiles, covers⟩ := lawful.exists_covering dispatched isRoute
    exact ⟨filter, stays, lawful.covers compiles compiled.compiles covers own⟩
  irredundant := by
    intro a inA b inB distinct
    exact Bool.eq_false_iff.mpr (subscriptions_irredundant inA inB distinct)
  once := subscriptions_nodup dispatch.router

end AimDb.Router
