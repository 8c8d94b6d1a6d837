import AimDb.Wildcard.Glob
import AimDb.Zenoh.ExactlyOnce

/-!
# Each sample to each route

A sample that reaches any subscriber is dispatched once, and dispatching hands it
to each matching route once, except that a full key table turns it away and an
ingest that unwinds keeps it from the routes behind.
-/

namespace AimDb.Zenoh

open Topic Wildcard Router Transition

/-- How often the route `i` ingested the sample `n`. -/
def ingests (n i : Nat) (log : List Event) : Nat :=
  ((dispatchesOf n log).flatMap fun routed => routed.ingested.map Ingest.route).count i

def Covered (arrival : Arrival) (route : CompiledRoute) : Prop :=
  ∃ key ∈ arrival.declared, covers key route.filter = true

/-- What can keep a sample from a route it matches. -/
inductive Excused (inbound : InboundDispatch) (routed : Routed) (i : Nat) : Prop
  | unwound {j : Nat} : j < i → routed.unwound = some j → Excused inbound routed i
  | full {info : InboundRouteInfo} : i ∈ routed.turnedAway → inbound.routes[i]? = some info →
      (routed.tables info.recordIndex).Full → Excused inbound routed i

structure DeliversOnce (inbound : InboundDispatch) (session : Session) (log : List Event) :
    Prop where
  atMostOnce : ∀ n, (dispatchesOf n log).length ≤ 1
  dispatched : ∀ n arrival, session.arrivals[n]? = some arrival → arrival.sample.Plain →
    (∀ s, (n, s) ∉ session.callbacks) → Heard arrival → (dispatchesOf n log).length = 1
  neverOtherwise : ∀ n arrival, session.arrivals[n]? = some arrival → ¬ Heard arrival →
    dispatchesOf n log = []
  ingestsAtMostOnce : ∀ n i, ingests n i log ≤ 1
  ingested : ∀ n arrival i route, session.arrivals[n]? = some arrival → arrival.sample.Plain →
    (∀ s, (n, s) ∉ session.callbacks) → inbound.router.routes[i]? = some route →
    Matched route.filter arrival.sample.key → Covered arrival route →
      ingests n i log = 1 ∨
        ingests n i log = 0 ∧ ∃ routed, dispatchesOf n log = [routed] ∧
        Excused inbound routed i
  onlyMatching : ∀ n arrival i route, session.arrivals[n]? = some arrival →
    inbound.router.routes[i]? = some route → ¬ Matched route.filter arrival.sample.key →
      ingests n i log = 0

theorem count_ingested_le {inbound : InboundDispatch} {routed : Routed} {topic : Str}
    {tables : Nat → KeyTable}
    (of : routed.Of topic (inbound.router.routes.zip inbound.routes).zipIdx tables) (i : Nat) :
    (routed.ingested.map Ingest.route).count i ≤ 1 :=
  List.nodup_iff_count_le_one.mp (of.increasing.imp Nat.ne_of_lt) i

section Routed

variable {records : List RecordEntry} {scheme : Str} {inbound : InboundDispatch}
  (built : InboundDispatch.new records scheme zenohGrammar = .ok inbound)

include built

/-- Every route stands beside its info and keeps its capture in bounds. -/
theorem exists_info {i : Nat} {route : CompiledRoute}
    (isRoute : inbound.router.routes[i]? = some route) :
    ∃ info, inbound.routes[i]? = some info ∧ route.Of zenohGrammar info.topic ∧
        Keyed route := by
  obtain ⟨-, beside⟩ : _ ∧
      List.Forall₂ (fun route info => route.Of zenohGrammar info.topic ∧ Keyed route)
        inbound.router.routes inbound.routes :=
    forall₂_of_new
      (fun _ _ _ compiled => ⟨inboundRoute_of compiled, keyed_of_inboundRoute compiled⟩) built
  obtain ⟨bound, rfl⟩ := List.getElem?_eq_some_iff.mp isRoute
  have other : i < inbound.routes.length := beside.length_eq ▸ bound
  exact ⟨inbound.routes[i], List.getElem?_eq_getElem other, beside.get bound other⟩

variable {routed : Routed} {key : Str} {tables : Nat → KeyTable}
  (of : routed.Of key (inbound.router.routes.zip inbound.routes).zipIdx tables)
  (noStar : '*' ∉ key) (fits : byteLen key ≤ keyMax)

include of noStar fits

theorem ingested_of_matched {i : Nat} {route : CompiledRoute}
    (isRoute : inbound.router.routes[i]? = some route) (matched : Matched route.filter key) :
    i ∈ routed.ingested.map Ingest.route ∨ Excused inbound routed i := by
  obtain ⟨info, isInfo, compiled, keyed⟩ := exists_info built isRoute
  have paired : (inbound.router.routes.zip inbound.routes)[i]? = some (route, info) :=
    List.getElem?_zip_eq_some.mpr ⟨isRoute, isInfo⟩
  have listed := List.mk_mem_zipIdx_iff_getElem?.mpr paired
  have isMatch : (route.isMatch key .fresh).1 = true :=
    (isMatch_iff_of_route compiled noStar fits .fresh).mpr matched
  rcases of.reached (route, info) i listed isMatch with ran | turned | ⟨j, before, unwound⟩
  · exact .inl ran
  · obtain ⟨pair, table, isPair, -, lookup, stays⟩ := of.turned i turned
    have same := List.mk_mem_zipIdx_iff_getElem?.mp isPair
    obtain rfl : (route, info) = pair := Option.some.inj (paired.symm.trans same)
    have full : table.Full := full_of_keyOf keyed fits (route_sliced compiled key) lookup
    exact .inr (.full turned isInfo (stays full))
  · exact .inr (.unwound before unwound)

theorem not_ingested_of_not_matched {i : Nat} {route : CompiledRoute}
    (isRoute : inbound.router.routes[i]? = some route) (other : ¬ Matched route.filter key) :
    i ∉ routed.ingested.map Ingest.route := by
  intro ran
  obtain ⟨ingest, isRan, rfl⟩ := List.mem_map.mp ran
  obtain ⟨pair, listed, isMatch⟩ := of.matched ingest isRan
  obtain ⟨isPair, -⟩ := List.getElem?_zip_eq_some.mp (List.mk_mem_zipIdx_iff_getElem?.mp listed)
  obtain rfl : route = pair.1 := Option.some.inj (isRoute.symm.trans isPair)
  obtain ⟨info, -, compiled, -⟩ := exists_info built isRoute
  exact other ((isMatch_iff_of_route compiled noStar fits .fresh).mp isMatch)

end Routed

theorem ingests_of_dispatchesOf {n i : Nat} {log : List Event} {routed : Routed}
    (once : dispatchesOf n log = [routed]) :
    ingests n i log = (routed.ingested.map Ingest.route).count i := by
  rw [ingests, once, List.flatMap_singleton]

theorem ingests_of_none {n i : Nat} {log : List Event} (none : dispatchesOf n log = []) :
    ingests n i log = 0 := by
  rw [ingests, none]
  rfl

namespace Session

section Books

variable {inbound : InboundDispatch} {session : Session} {log : List Event}
  (books : Books inbound session log)

include books

theorem Books.length_le (n : Nat) : (dispatchesOf n log).length ≤ 1 := by
  cases dispatches : dispatchesOf n log with
  | nil => simp
  | cons routed more =>
      obtain ⟨arrival, -, -, isArrival, plain, heard, -⟩ :=
        books.routed n routed (by simp [dispatches])
      obtain ⟨s, leads⟩ := heard.exists_leads
      have owed := books.owed n arrival s isArrival plain leads
      rw [← dispatches, owed]
      split <;> omega

theorem Books.dispatchesOf_cases (n : Nat) :
    dispatchesOf n log = [] ∨ ∃ routed arrival tables, dispatchesOf n log = [routed] ∧
      session.arrivals[n]? = some arrival ∧ arrival.sample.Plain ∧ Heard arrival ∧
      routed.Of arrival.sample.key (inbound.router.routes.zip inbound.routes).zipIdx tables := by
  have bound := books.length_le n
  cases dispatches : dispatchesOf n log with
  | nil => exact .inl rfl
  | cons routed more =>
      rw [dispatches, List.length_cons] at bound
      obtain rfl : more = [] := List.eq_nil_of_length_eq_zero (by omega)
      obtain ⟨arrival, tables, ingest, isArrival, plain, heard, rfl⟩ :=
        books.routed n routed (by simp [dispatches])
      exact .inr ⟨_, arrival, tables, rfl, isArrival, plain, heard,
        inbound.dispatch_of ingest tables _⟩

theorem Books.length_eq {n : Nat} {arrival : Arrival}
    (isArrival : session.arrivals[n]? = some arrival) (plain : arrival.sample.Plain)
    (ran : ∀ s, (n, s) ∉ session.callbacks) (heard : Heard arrival) :
    (dispatchesOf n log).length = 1 := by
  obtain ⟨s, leads⟩ := heard.exists_leads
  rw [books.owed n arrival s isArrival plain leads, if_neg (ran s)]

theorem Books.delivers {records : List RecordEntry} {scheme : Str}
    (built : InboundDispatch.new records scheme zenohGrammar = .ok inbound) :
    DeliversOnce inbound session log where
  atMostOnce := books.length_le
  dispatched _ _ := books.length_eq
  neverOtherwise n arrival isArrival unheard := by
    rcases books.dispatchesOf_cases n with none | ⟨_, other, -, -, isOther, -, heard, -⟩
    · exact none
    · obtain rfl : arrival = other := Option.some.inj (isArrival.symm.trans isOther)
      exact absurd heard unheard
  ingestsAtMostOnce n i := by
    rcases books.dispatchesOf_cases n with none | ⟨routed, _, _, once, -, -, -, of⟩
    · rw [ingests_of_none none]
      exact Nat.zero_le 1
    · rw [ingests_of_dispatchesOf once]
      exact count_ingested_le of i
  ingested n arrival i route isArrival plain ran isRoute matched covered := by
    obtain ⟨key, declared, covers⟩ := covered
    have heard : Heard arrival := ⟨key, declared, matched_of_covers covers matched⟩
    have total := books.length_eq isArrival plain ran heard
    rcases books.dispatchesOf_cases n with none | ⟨routed, other, _, once, isOther, -, -, of⟩
    · rw [none] at total
      cases total
    · obtain rfl : arrival = other := Option.some.inj (isArrival.symm.trans isOther)
      rw [ingests_of_dispatchesOf once]
      by_cases isRan : i ∈ routed.ingested.map Ingest.route
      · exact .inl (List.count_eq_one_of_mem (of.increasing.imp Nat.ne_of_lt) isRan)
      · have excused := (ingested_of_matched built of plain.2 arrival.sample.fits isRoute
          matched).resolve_left isRan
        exact .inr ⟨List.count_eq_zero_of_not_mem isRan, routed, once, excused⟩
  onlyMatching n arrival i route isArrival isRoute unmatched := by
    rcases books.dispatchesOf_cases n with
      none | ⟨routed, other, _, once, isOther, plain, -, of⟩
    · exact ingests_of_none none
    · obtain rfl : arrival = other := Option.some.inj (isArrival.symm.trans isOther)
      rw [ingests_of_dispatchesOf once]
      exact List.count_eq_zero_of_not_mem
        (not_ingested_of_not_matched built of plain.2 arrival.sample.fits isRoute unmatched)

end Books

end Session

/-- Zenoh delivers each sample to each route exactly once. -/
theorem deliversOnce {records : List RecordEntry} {scheme : Str} {inbound : InboundDispatch}
    (built : InboundDispatch.new records scheme zenohGrammar = .ok inbound)
    {keyExpr : Str → Except String Unit} {filters : List (Str × TopicFilter)}
    (subscribed : subscriptions keyExpr inbound = .ok filters) {tables : Nat → KeyTable}
    {session : Session} {log : List Event}
    (reached : Reaches (Session.step inbound) Session.Delivers
      (.start filters tables) session log) :
    DeliversOnce inbound session log := by
  have agree := agrees_of_subscriptions (dispatched_of_new built) subscribed
  exact (Session.books_of_reaches agree reached).delivers built

instance Matched.decidable (filter key : Str) : Decidable (Matched filter key) :=
  have : DecidablePred keyExpr.Spans := fun c => inferInstanceAs (Decidable (c = ['*', '*']))
  have : DecidablePred keyExpr.Absorbs :=
    fun t => inferInstanceAs (Decidable (startsWith '@' t = false))
  have : ∀ c t, Decidable (keyExpr.Takes c t) := fun c t =>
    inferInstanceAs (Decidable (if c = ['*'] then startsWith '@' t = false
      else if '*' ∈ c then startsWith '@' t = false ∧ Glob.Fits (splitMark c) t
      else t = c))
  Rules.Matches.decidable _ _

instance Session.Delivers.decidable (session : Session) :
    ∀ input, Decidable (session.Delivers input)
  | .arrive sample heard =>
      decidable_of_iff (heard.Nodup ∧ (∀ s ∈ heard, s < session.subscribers.length) ∧
          ('*' ∉ sample.key → ∀ entry ∈ session.subscribers.zipIdx,
            (entry.2 ∈ heard ↔ Matched entry.1.key sample.key))) <| by
        refine and_congr_right fun _ => and_congr_right fun _ => imp_congr_right fun _ => ?_
        simp only [Prod.forall, List.mk_mem_zipIdx_iff_getElem?]
        exact forall_comm
  | .declare _ => isTrue trivial
  | .callback _ _ => isTrue trivial

def linked (record : String) (topic : String) (key : Option String) : RecordEntry where
  key := record.toList
  inboundConnectors :=
    [⟨"zenoh".toList, topic.toList, topic.toList, key.map String.toList, []⟩]

def smallTables : Nat → KeyTable := fun _ => { capacity := 1 }

/-- A run on the routes of `records`, where Zenoh takes every key expression. -/
def sampleRun (records : List RecordEntry) (inputs : List Input)
    (holds : InboundDispatch → Session → List Event → Bool) : Bool :=
  (InboundDispatch.new records "zenoh".toList zenohGrammar).toOption.any fun inbound =>
    (subscriptions (fun _ => .ok ()) inbound).toOption.any fun filters =>
      decide (Permits (Session.step inbound) Session.Delivers
        (.start filters smallTables) inputs) &&
        (replay (Session.step inbound) (.start filters smallTables) inputs).any fun run =>
          holds inbound run.1 run.2

theorem exists_of_sampleRun {records : List RecordEntry} {inputs : List Input}
    {holds : InboundDispatch → Session → List Event → Bool}
    (ran : sampleRun records inputs holds = true) :
    ∃ inbound filters session log,
      InboundDispatch.new records "zenoh".toList zenohGrammar = .ok inbound ∧
      subscriptions (fun _ => .ok ()) inbound = .ok filters ∧
      Reaches (Session.step inbound) Session.Delivers (.start filters smallTables) session log ∧
      holds inbound session log = true := by
  obtain ⟨inbound, built, ran⟩ := (Option.any_eq_true ..).mp ran
  obtain ⟨filters, subscribed, ran⟩ := (Option.any_eq_true ..).mp ran
  obtain ⟨permits, ran⟩ := Bool.and_eq_true_iff.mp ran
  obtain ⟨run, replayed, holds⟩ := (Option.any_eq_true ..).mp ran
  have toOption : ∀ {α ε : Type} {e : Except ε α} {a : α}, e.toOption = some a →
      e = .ok a := by
    intro α ε e a same
    cases e with
    | error why => cases same
    | ok value => exact congrArg Except.ok (Option.some.inj same)
  refine ⟨inbound, filters, run.1, run.2, toOption built, toOption subscribed, ?_, holds⟩
  simpa using Reaches.start.replay (of_decide_eq_true permits) replayed

/-- A sample both subscribers hear, the second one first. -/
theorem deliversOnce_overlap : ∃ inbound session log,
    InboundDispatch.new [linked "row" "a/\x7bx\x7d" none,
      linked "column" "\x7bx\x7d/b" none] "zenoh".toList
      zenohGrammar = .ok inbound ∧
    session.callbacks = [] ∧ (dispatchesOf 0 log).length = 1 ∧ ingests 0 0 log = 1 ∧
    ingests 0 1 log = 1 ∧ DeliversOnce inbound session log := by
  have ran : sampleRun [linked "row" "a/\x7bx\x7d" none, linked "column" "\x7bx\x7d/b" none]
      [.declare true, .declare true, .arrive ⟨.put, "a/b".toList, by decide⟩ [0, 1],
        .callback 1 fun _ => .ok, .callback 0 fun _ => .ok]
      (fun _ session log => decide (session.callbacks = [] ∧ (dispatchesOf 0 log).length = 1 ∧
        ingests 0 0 log = 1 ∧ ingests 0 1 log = 1)) = true := by
    decide +kernel
  obtain ⟨inbound, filters, session, log, built, subscribed, reached, holds⟩ :=
    exists_of_sampleRun ran
  obtain ⟨done, once, first, second⟩ := of_decide_eq_true holds
  exact ⟨inbound, session, log, built, done, once, first, second,
    deliversOnce built subscribed reached⟩

instance Sample.Plain.decidable (sample : Sample) : Decidable sample.Plain :=
  inferInstanceAs (Decidable (sample.kind = .put ∧ '*' ∉ sample.key))

instance Covered.decidable (arrival : Arrival) (route : CompiledRoute) :
    Decidable (Covered arrival route) :=
  inferInstanceAs (Decidable (∃ key ∈ arrival.declared, covers key route.filter = true))

/-- The sample `n` is done and the route `i` never ingested it, although it matches
and a declared subscriber covers the route. -/
def misses (n i : Nat) (inbound : InboundDispatch) (session : Session) (log : List Event) : Bool :=
  session.arrivals[n]?.any fun arrival =>
    inbound.router.routes[i]?.any fun route =>
      decide (arrival.sample.Plain ∧ (∀ callback ∈ session.callbacks, callback.1 ≠ n) ∧
        Matched route.filter arrival.sample.key ∧ Covered arrival route ∧ ingests n i log = 0)

/-- A panicking ingest keeps the first sample from the second record on its key, and
the table of one value turns the third sample away. -/
theorem covered_route_misses : ∃ inbound filters session log,
    InboundDispatch.new
      [linked "first" "t" none, linked "second" "t" none, linked "rooms" "s/\x7bid\x7d" (some "id")]
      "zenoh".toList zenohGrammar = .ok inbound ∧
    subscriptions (fun _ => .ok ()) inbound = .ok filters ∧
    Reaches (Session.step inbound) Session.Delivers (.start filters smallTables) session log ∧
    misses 0 1 inbound session log = true ∧ misses 2 2 inbound session log = true := by
  have ran : sampleRun
      [linked "first" "t" none, linked "second" "t" none, linked "rooms" "s/\x7bid\x7d" (some "id")]
      [.declare true, .declare true,
        .arrive ⟨.put, "t".toList, by decide⟩ [1],
        .callback 0 fun i => if i = 0 then .unwound else .ok,
        .arrive ⟨.put, "s/a".toList, by decide⟩ [0], .callback 0 fun _ => .ok,
        .arrive ⟨.put, "s/b".toList, by decide⟩ [0], .callback 0 fun _ => .ok]
      (fun inbound session log =>
        misses 0 1 inbound session log && misses 2 2 inbound session log) =
        true := by
    decide +kernel
  obtain ⟨inbound, filters, session, log, built, subscribed, reached, holds⟩ :=
    exists_of_sampleRun ran
  obtain ⟨first, second⟩ := Bool.and_eq_true_iff.mp holds
  exact ⟨inbound, filters, session, log, built, subscribed, reached, first, second⟩

end AimDb.Zenoh
