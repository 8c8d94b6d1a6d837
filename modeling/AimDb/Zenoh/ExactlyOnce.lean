import AimDb.Zenoh.Subscribers

/-!
# Each sample once

Of the subscribers a sample reaches only the first one dispatches it.  A sample
is then owed exactly the callback of that subscriber.
-/

namespace AimDb.Zenoh

open Topic Wildcard Router Transition

/-- The matcher accepts what the key expression matches. -/
def Agrees (key : Str) (compiled : TopicFilter) : Prop :=
  ∀ topic spans, '*' ∉ topic → ((compiled.isMatch topic spans).1 = true ↔ Matched key topic)

theorem shadowed_iff {keys : List Str} {filters : List TopicFilter}
    (agree : List.Forall₂ Agrees keys filters) {topic : Str} (noStar : '*' ∉ topic)
    (spans : Spans) :
    shadowed topic filters spans = true ↔ ∃ key ∈ keys, Matched key topic := by
  induction agree generalizing spans with
  | nil => simp [shadowed]
  | cons agrees _ inductionHypothesis =>
      rw [shadowed, Bool.or_eq_true, inductionHypothesis, agrees topic spans noStar]
      simp

theorem mapError_eq_ok {α : Type} {first : Except String α} {failed : String → String} {a : α}
    (ok : first.mapError failed = .ok a) : first = .ok a := by
  cases first with
  | error why => cases ok
  | ok value => exact ok

theorem agrees_of_subscription {keyExpr : Str → Except String Unit} {filter : Str}
    {entry : Str × TopicFilter} (plain : ∀ c ∈ filter, TopicPattern.isBrace c = false)
    (ok : subscription keyExpr filter = .ok entry) :
    entry.1 = filter ∧ Agrees entry.1 entry.2 := by
  rw [subscription] at ok
  split at ok
  · cases ok
  · obtain ⟨_, -, ok⟩ := bind_eq_ok ok
    obtain ⟨pattern, parsed, ok⟩ := bind_eq_ok ok
    obtain ⟨compiled, compiles, ok⟩ := bind_eq_ok ok
    obtain rfl := Except.ok.inj ok
    refine ⟨rfl, ?_⟩
    intro topic spans noStar
    exact isMatch_iff_of_recompile plain (mapError_eq_ok parsed) (mapError_eq_ok compiles) noStar
      spans

theorem agrees_of_subscriptions {keyExpr : Str → Except String Unit} {inbound : InboundDispatch}
    (dispatched : Dispatched zenohGrammar inbound) {filters : List (Str × TopicFilter)}
    (ok : subscriptions keyExpr inbound = .ok filters) :
    ∀ entry ∈ filters, Agrees entry.1 entry.2 := by
  intro entry isEntry
  obtain ⟨filter, listed, subscribed⟩ := exists_left_of_forall₂ (mapM_ok ok) isEntry
  obtain ⟨route, isRoute, rfl⟩ :=
    mem_resourceIds.mp ((subscriptions_sublist inbound.router).subset listed)
  obtain ⟨source, of⟩ := dispatched.of_mem isRoute
  obtain ⟨pattern, compiled, names, key, parsed, compiles, rfl⟩ := of
  obtain ⟨f, compiled, rfl⟩ := map_eq_ok compiles
  exact (agrees_of_subscription (compileFilter_braceless parsed compiled) subscribed).2

theorem getElem?_append_of_some {α : Type} {xs : List α} {i : Nat} {x : α}
    (found : xs[i]? = some x) (ys : List α) : (xs ++ ys)[i]? = some x := by
  rw [List.getElem?_append_left (List.getElem?_eq_some_iff.mp found).1]
  exact found

/-- The subscriber is the first of those declared whose key expression matches. -/
def Leads (arrival : Arrival) (s : Nat) : Prop :=
  ∃ key, arrival.declared[s]? = some key ∧ Matched key arrival.sample.key ∧
    ∀ other ∈ arrival.declared.take s, ¬ Matched other arrival.sample.key

def Heard (arrival : Arrival) : Prop := ∃ key ∈ arrival.declared, Matched key arrival.sample.key

theorem exists_first {α : Type} {P : α → Prop} {xs : List α} (present : ∃ x ∈ xs, P x) :
    ∃ (i : Nat) (x : α), xs[i]? = some x ∧ P x ∧ ∀ y ∈ xs.take i, ¬ P y := by
  induction xs with
  | nil => simp at present
  | cons x xs inductionHypothesis =>
      by_cases here : P x
      · exact ⟨0, x, rfl, here, by simp⟩
      · obtain ⟨i, y, found, holds, first⟩ :=
          inductionHypothesis (by simpa [here] using present)
        exact ⟨i + 1, y, by simpa using found, holds, by simpa [here] using first⟩

theorem Heard.exists_leads {arrival : Arrival} (heard : Heard arrival) :
    ∃ s, Leads arrival s := by
  obtain ⟨s, key, isKey, matched, first⟩ := exists_first heard
  exact ⟨s, key, isKey, matched, first⟩

theorem Leads.heard {arrival : Arrival} {s : Nat} (leads : Leads arrival s) : Heard arrival := by
  obtain ⟨key, isKey, matched, -⟩ := leads
  exact ⟨key, List.mem_of_getElem? isKey, matched⟩

theorem Leads.le {arrival : Arrival} {s other : Nat} (leads : Leads arrival s)
    (leadsToo : Leads arrival other) : s ≤ other := by
  by_contra before
  obtain ⟨-, -, -, first⟩ := leads
  obtain ⟨key, isKey, matched, -⟩ := leadsToo
  apply first key _ matched
  rw [List.mem_take_iff_getElem]
  obtain ⟨bound, rfl⟩ := List.getElem?_eq_some_iff.mp isKey
  exact ⟨other, by omega, rfl⟩

theorem Leads.unique {arrival : Arrival} {s other : Nat} (leads : Leads arrival s)
    (leadsToo : Leads arrival other) : s = other :=
  Nat.le_antisymm (leads.le leadsToo) (leadsToo.le leads)

def dispatchOf (n : Nat) : Event → Option Routed
  | .dispatched m routed => if m = n then some routed else none
  | _ => none

/-- How the sample `n` was routed, once for each time it was dispatched. -/
def dispatchesOf (n : Nat) (log : List Event) : List Routed := log.filterMap (dispatchOf n)

@[simp]
theorem dispatchesOf_append (n : Nat) (log more : List Event) :
    dispatchesOf n (log ++ more) = dispatchesOf n log ++ dispatchesOf n more :=
  List.filterMap_append

@[simp]
theorem dispatchesOf_nil (n : Nat) : dispatchesOf n [] = [] := rfl

@[simp]
theorem dispatchesOf_refused (n : Nat) : dispatchesOf n [.declarationFailed] = [] := rfl

theorem dispatchesOf_dropped (n : Nat) {m : Nat} {emitted : List Event}
    (dropped : ∀ event ∈ emitted, event = .wildcardSampleDropped m) :
    dispatchesOf n emitted = [] := by
  rw [dispatchesOf, List.filterMap_eq_nil_iff]
  intro event isEmitted
  rw [dropped event isEmitted]
  rfl

theorem dispatchesOf_dispatched (n : Nat) {m : Nat} {routed : Routed} {emitted : List Event}
    (panics : ∀ event ∈ emitted, event = .ingestPanicked m) :
    dispatchesOf n (.dispatched m routed :: emitted) = if m = n then [routed] else [] := by
  have rest : emitted.filterMap (dispatchOf n) = [] := by
    rw [List.filterMap_eq_nil_iff]
    intro event isEmitted
    rw [panics event isEmitted]
    rfl
  rw [dispatchesOf, List.filterMap_cons, dispatchOf, rest]
  by_cases same : m = n
  · simp [same]
  · simp [same]

namespace Session

/-- Each subscriber defers to exactly those declared before it. -/
structure Shadowing (session : Session) : Prop where
  filters : ∀ entry ∈ session.filters, Agrees entry.1 entry.2
  agree : List.Forall₂ Agrees (session.subscribers.map Subscriber.key) session.earlier
  shadows : ∀ s subscriber, session.subscribers[s]? = some subscriber →
    subscriber.shadows = session.earlier.take s

/-- The callbacks still to run belong to subscribers that a sample reached. -/
structure Pending (session : Session) : Prop where
  nodup : session.callbacks.Nodup
  declared : ∀ arrival ∈ session.arrivals,
    arrival.declared <+: session.subscribers.map Subscriber.key
  reached : ∀ n s, (n, s) ∈ session.callbacks → ∃ arrival key,
    session.arrivals[n]? = some arrival ∧ arrival.declared[s]? = some key ∧
      ('*' ∉ arrival.sample.key → Matched key arrival.sample.key)

/-- The sample is dispatched once its first subscriber's callback has run. -/
structure Books (inbound : InboundDispatch) (session : Session) (log : List Event) : Prop where
  shadowing : session.Shadowing
  pending : session.Pending
  owed : ∀ n arrival s, session.arrivals[n]? = some arrival → arrival.sample.Plain →
    Leads arrival s →
      (dispatchesOf n log).length = if (n, s) ∈ session.callbacks then 0 else 1
  routed : ∀ n, ∀ routed ∈ dispatchesOf n log, ∃ arrival tables ingest,
    session.arrivals[n]? = some arrival ∧ arrival.sample.Plain ∧ Heard arrival ∧
      routed = inbound.dispatch ingest tables arrival.sample.key

theorem Pending.shadowed_iff {session : Session} (pending : session.Pending)
    (shadowing : session.Shadowing) {n s : Nat} {arrival : Arrival} {subscriber : Subscriber}
    (isCallback : (n, s) ∈ session.callbacks) (isArrival : session.arrivals[n]? = some arrival)
    (isSubscriber : session.subscribers[s]? = some subscriber)
    (noStar : '*' ∉ arrival.sample.key) :
    shadowed arrival.sample.key subscriber.shadows .fresh = true ↔ ¬ Leads arrival s := by
  obtain ⟨same, key, isSame, isKey, matched⟩ := pending.reached n s isCallback
  obtain rfl : arrival = same := Option.some.inj (isArrival.symm.trans isSame)
  have longer := pending.declared arrival (List.mem_of_getElem? isArrival)
  have bound : s < arrival.declared.length := (List.getElem?_eq_some_iff.mp isKey).1
  have before : (session.subscribers.map Subscriber.key).take s = arrival.declared.take s := by
    obtain ⟨more, whole⟩ := longer
    rw [← whole, List.take_append_of_le_length (Nat.le_of_lt bound)]
  rw [shadowing.shadows s subscriber isSubscriber,
    Zenoh.shadowed_iff (List.forall₂_take s shadowing.agree) noStar, before]
  constructor
  · rintro ⟨other, isOther, otherMatches⟩ ⟨-, -, -, first⟩
    exact first other isOther otherMatches
  · intro notFirst
    by_contra none
    exact notFirst ⟨key, isKey, matched noStar, by simpa using none⟩

theorem Pending.mem_eraseIdx {session : Session} (pending : session.Pending) {position : Nat}
    {callback other : Nat × Nat} (isCallback : session.callbacks[position]? = some callback) :
    other ∈ session.callbacks.eraseIdx position ↔
        other ≠ callback ∧ other ∈ session.callbacks := by
  obtain ⟨bound, rfl⟩ := List.getElem?_eq_some_iff.mp isCallback
  rw [← pending.nodup.erase_getElem position bound, pending.nodup.mem_erase_iff]

variable {inbound : InboundDispatch} {session after : Session} {emitted log : List Event}

theorem Shadowing.step (shadowing : session.Shadowing)
    (stepped : Step inbound session after emitted) :
    after.Shadowing := by
  cases stepped with
  | @declared key compiled filters left =>
      have agrees : Agrees key compiled := shadowing.filters (key, compiled) (by simp [left])
      have lengths : session.subscribers.length = session.earlier.length := by
        simpa using shadowing.agree.length_eq
      refine ⟨fun entry later => shadowing.filters entry (by simp [left, later]), ?_, ?_⟩
      · rw [List.map_append]
        exact List.rel_append shadowing.agree (.cons agrees .nil)
      · intro s subscriber isSubscriber
        rcases Nat.lt_or_ge s session.subscribers.length with old | new
        · rw [List.getElem?_append_left old] at isSubscriber
          rw [shadowing.shadows s subscriber isSubscriber,
            List.take_append_of_le_length (lengths ▸ Nat.le_of_lt old)]
        · obtain ⟨bound, isNew⟩ := List.getElem?_eq_some_iff.mp isSubscriber
          obtain rfl : s = session.subscribers.length := by
            rw [List.length_append, List.length_singleton] at bound
            omega
          rw [List.getElem_concat_length rfl] at isNew
          rw [← isNew, List.take_left' lengths.symm]
  | refused left =>
      exact ⟨fun entry later => shadowing.filters entry (by simp [left, later]), shadowing.agree,
        shadowing.shadows⟩
  | arrived delivers => exact ⟨shadowing.filters, shadowing.agree, shadowing.shadows⟩
  | passed pending isArrival isSubscriber shadowed dropped =>
      exact ⟨shadowing.filters, shadowing.agree, shadowing.shadows⟩
  | dispatched pending isArrival isSubscriber plain first panics =>
      exact ⟨shadowing.filters, shadowing.agree, shadowing.shadows⟩

theorem Pending.step (pending : session.Pending) (stepped : Step inbound session after emitted) :
    after.Pending := by
  cases stepped with
  | declared left =>
      refine ⟨pending.nodup, ?_, pending.reached⟩
      intro arrival isArrival
      rw [List.map_append]
      exact (pending.declared arrival isArrival).trans (List.prefix_append _ _)
  | refused left => exact ⟨pending.nodup, pending.declared, pending.reached⟩
  | @arrived sample heard delivers =>
      obtain ⟨distinct, inside, reaches⟩ := delivers
      refine ⟨?_, ?_, ?_⟩
      · refine List.Nodup.append pending.nodup
          (distinct.map fun s t same => (Prod.mk.inj same).2) ?_
        intro callback isOld isNew
        obtain ⟨s, -, rfl⟩ := List.mem_map.mp isNew
        obtain ⟨arrival, key, isArrival, -⟩ := pending.reached _ _ isOld
        simp at isArrival
      · intro arrival isArrival
        rcases List.mem_append.mp isArrival with old | new
        · exact pending.declared arrival old
        · obtain rfl := List.mem_singleton.mp new
          exact List.prefix_rfl
      · intro n s isCallback
        rcases List.mem_append.mp isCallback with old | new
        · obtain ⟨arrival, key, isArrival, reached⟩ := pending.reached n s old
          exact ⟨arrival, key, getElem?_append_of_some isArrival _, reached⟩
        · obtain ⟨t, isHeard, same⟩ := List.mem_map.mp new
          obtain ⟨rfl, rfl⟩ := Prod.mk.inj same
          have bound := inside t isHeard
          have isSubscriber := List.getElem?_eq_getElem bound
          refine ⟨⟨sample, session.subscribers.map Subscriber.key⟩,
            session.subscribers[t].key, by simp, by simp [isSubscriber], ?_⟩
          exact fun noStar => (reaches noStar t _ isSubscriber).mp isHeard
  | passed isCallback isArrival isSubscriber shadowed dropped =>
      exact ⟨pending.nodup.sublist (List.eraseIdx_sublist _ _), pending.declared,
        fun n s isPending =>
          pending.reached n s ((pending.mem_eraseIdx isCallback).mp isPending).2⟩
  | dispatched isCallback isArrival isSubscriber plain first panics =>
      exact ⟨pending.nodup.sublist (List.eraseIdx_sublist _ _), pending.declared,
        fun n s isPending =>
          pending.reached n s ((pending.mem_eraseIdx isCallback).mp isPending).2⟩

section Books

variable (books : Books inbound session log)

include books

theorem Books.dispatchesOf_eq_nil {n : Nat} (later : session.arrivals[n]? = none) :
    dispatchesOf n log = [] := by
  rw [List.eq_nil_iff_forall_not_mem]
  intro routed isRouted
  obtain ⟨arrival, -, -, isArrival, -⟩ := books.routed n routed isRouted
  rw [later] at isArrival
  cases isArrival

theorem Books.leads {n s : Nat} {arrival : Arrival} {subscriber : Subscriber}
    (isCallback : (n, s) ∈ session.callbacks) (isArrival : session.arrivals[n]? = some arrival)
    (isSubscriber : session.subscribers[s]? = some subscriber) (plain : arrival.sample.Plain)
    (first : shadowed arrival.sample.key subscriber.shadows .fresh = false) : Leads arrival s := by
  by_contra notFirst
  rw [(books.pending.shadowed_iff books.shadowing isCallback isArrival isSubscriber plain.2).mpr
    notFirst] at first
  cases first

theorem Books.owed_step (stepped : Step inbound session after emitted) (n : Nat)
    (arrival : Arrival) (s : Nat) (isArrival : after.arrivals[n]? = some arrival)
    (plain : arrival.sample.Plain) (leads : Leads arrival s) :
    (dispatchesOf n (log ++ emitted)).length = if (n, s) ∈ after.callbacks then 0 else 1 := by
  rw [dispatchesOf_append]
  cases stepped with
  | declared left => simpa using books.owed n arrival s isArrival plain leads
  | refused left => simpa using books.owed n arrival s isArrival plain leads
  | @arrived sample heard delivers =>
      obtain ⟨-, -, reaches⟩ := delivers
      rw [dispatchesOf_nil, List.append_nil]
      rcases Nat.lt_or_ge n session.arrivals.length with old | new
      · have isOld : session.arrivals[n]? = some arrival := by
          rwa [List.getElem?_append_left old] at isArrival
        have same : (n, s) ∈ session.callbacks ++
          heard.map (fun s => (session.arrivals.length, s)) ↔
            (n, s) ∈ session.callbacks := by
          simp only [List.mem_append, List.mem_map, Prod.mk.injEq, or_iff_left_iff_imp]
          rintro ⟨-, -, rfl, -⟩
          exact absurd old (Nat.lt_irrefl _)
        simpa only [same] using books.owed n arrival s isOld plain leads
      · have later : session.arrivals[n]? = none := List.getElem?_eq_none new
        obtain ⟨bound, -⟩ := List.getElem?_eq_some_iff.mp isArrival
        obtain rfl : n = session.arrivals.length := by
          rw [List.length_append, List.length_singleton] at bound
          omega
        rw [List.getElem?_concat_length] at isArrival
        obtain rfl := Option.some.inj isArrival
        obtain ⟨key, isKey, matched, -⟩ := leads
        simp only [List.getElem?_map, Option.map_eq_some_iff] at isKey
        obtain ⟨subscriber, isSubscriber, rfl⟩ := isKey
        have isHeard : s ∈ heard := (reaches plain.2 s subscriber isSubscriber).mpr matched
        rw [books.dispatchesOf_eq_nil later, if_pos (by simp [isHeard])]
        rfl
  | @passed position m t other subscriber warned emitted isCallback isOther isSubscriber isShadowed
      dropped =>
      rw [dispatchesOf_dropped n dropped, List.append_nil,
        books.owed n arrival s isArrival plain leads]
      have different : (n, s) ≠ (m, t) := by
        intro same
        obtain ⟨rfl, rfl⟩ := Prod.mk.inj same
        obtain rfl : arrival = other := Option.some.inj (isArrival.symm.trans isOther)
        exact (books.pending.shadowed_iff books.shadowing
          (List.mem_of_getElem? isCallback) isArrival
          isSubscriber plain.2).mp (isShadowed plain) leads
      have kept : (n, s) ∈ _ ↔ _ := books.pending.mem_eraseIdx isCallback
      simp only [kept, ne_eq, different, not_false_iff, true_and]
  | @dispatched position m t other subscriber ingest emitted isCallback isOther isSubscriber
      isPlain first panics =>
      have isPending := List.mem_of_getElem? isCallback
      have leading := books.leads isPending isOther isSubscriber isPlain first
      have kept : (n, s) ∈ _ ↔ _ := books.pending.mem_eraseIdx isCallback
      rw [dispatchesOf_dispatched n panics, List.length_append,
        books.owed n arrival s isArrival plain leads]
      by_cases same : m = n
      · subst same
        obtain rfl : arrival = other := Option.some.inj (isArrival.symm.trans isOther)
        obtain rfl := leads.unique leading
        simp [kept, isPending]
      · have different : (n, s) ≠ (m, t) := fun equal => same (Prod.mk.inj equal).1.symm
        simp [kept, different, same]

theorem Books.routed_step (stepped : Step inbound session after emitted) (n : Nat) (routed : Routed)
    (isRouted : routed ∈ dispatchesOf n (log ++ emitted)) : ∃ arrival tables ingest,
      after.arrivals[n]? = some arrival ∧ arrival.sample.Plain ∧ Heard arrival ∧
        routed = inbound.dispatch ingest tables arrival.sample.key := by
  rw [dispatchesOf_append] at isRouted
  cases stepped with
  | declared left => exact books.routed n routed (by simpa using isRouted)
  | refused left => exact books.routed n routed (by simpa using isRouted)
  | arrived delivers =>
      obtain ⟨arrival, tables, ingest, isArrival, rest⟩ :=
        books.routed n routed (by simpa using isRouted)
      exact ⟨arrival, tables, ingest, getElem?_append_of_some isArrival _, rest⟩
  | passed isCallback isOther isSubscriber isShadowed dropped =>
      rw [dispatchesOf_dropped n dropped, List.append_nil] at isRouted
      exact books.routed n routed isRouted
  | @dispatched position m t other subscriber ingest emitted isCallback isOther isSubscriber
      isPlain first panics =>
      rw [dispatchesOf_dispatched n panics] at isRouted
      rcases List.mem_append.mp isRouted with old | new
      · exact books.routed n routed old
      · have leading := books.leads (List.mem_of_getElem? isCallback) isOther isSubscriber isPlain
          first
        split at new
        · rename_i same
          subst same
          obtain rfl := List.mem_singleton.mp new
          exact ⟨other, session.tables, ingest, isOther, isPlain, leading.heard, rfl⟩
        · cases new

theorem Books.step (stepped : Step inbound session after emitted) :
    Books inbound after (log ++ emitted) where
  shadowing := books.shadowing.step stepped
  pending := books.pending.step stepped
  owed := books.owed_step stepped
  routed := books.routed_step stepped

end Books

theorem books_start (inbound : InboundDispatch) {filters : List (Str × TopicFilter)}
    (agree : ∀ entry ∈ filters, Agrees entry.1 entry.2) (tables : Nat → KeyTable) :
    Books inbound (start filters tables) [] where
  shadowing := ⟨agree, .nil, by simp [start]⟩
  pending := ⟨.nil, by simp [start], by simp [start]⟩
  owed := by simp [start]
  routed := by simp [dispatchesOf]

theorem books_of_reaches {filters : List (Str × TopicFilter)} {tables : Nat → KeyTable}
    (agree : ∀ entry ∈ filters, Agrees entry.1 entry.2)
    (reached : Reaches (step inbound) Delivers (start filters tables) session log) :
    Books inbound session log := by
  refine reached.invariant (Books inbound) (books_start inbound agree tables) ?_
  intro state log input after emitted _ delivers stepped books
  exact books.step (.of_step inbound delivers stepped)

end Session

end AimDb.Zenoh
