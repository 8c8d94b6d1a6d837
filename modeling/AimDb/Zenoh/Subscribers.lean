import AimDb.Transition.Runs
import AimDb.Zenoh.Routes

/-!
# The subscribers of a session

The session declares one subscriber for each filter, one after the other, and
any declaration can fail.  A sample reaches every subscriber that matches it,
and their callbacks run in any order, while more subscribers are declared.
-/

namespace AimDb.Zenoh

open Topic Router

def configError (message : String) : String := s!"Failed to build Zenoh connector: {message}"

/-- A filter with the matcher that tells whether its subscriber delivers a sample.
`keyExpr` is Zenoh's own check of a key expression. -/
def subscription (keyExpr : Str → Except String Unit) (filter : Str) :
    Except String (Str × TopicFilter) :=
  if keyMax < byteLen filter then
    .error (configError s!"filter of {byteLen filter} bytes is longer than {keyMax}")
  else
    let failed (why : String) := configError s!"filter '{String.ofList filter}': {why}"
    do
      (keyExpr filter).mapError failed
      let pattern ← (TopicPattern.parse filter).mapError failed
      let compiled ← (zenohGrammar.compile pattern).mapError failed
      .ok (filter, compiled)

/-- `subscriptions`. -/
def subscriptions (keyExpr : Str → Except String Unit) (inbound : InboundDispatch) :
    Except String (List (Str × TopicFilter)) :=
  inbound.subscriptions.mapM (subscription keyExpr)

inductive SampleKind where
  | put
  | delete
  deriving DecidableEq, Repr

structure Sample where
  kind : SampleKind
  key : Str
  fits : byteLen key ≤ keyMax

def Sample.Plain (sample : Sample) : Prop := sample.kind = .put ∧ '*' ∉ sample.key

structure Subscriber where
  key : Str
  shadows : List TopicFilter

/-- A sample that arrived, and the key expressions declared at that point. -/
structure Arrival where
  sample : Sample
  declared : List Str

structure Session where
  filters : List (Str × TopicFilter)
  earlier : List TopicFilter := []
  subscribers : List Subscriber := []
  warned : Bool := false
  arrivals : List Arrival := []
  /-- The callbacks still to run, each for a sample at a subscriber. -/
  callbacks : List (Nat × Nat) := []
  tables : Nat → KeyTable

inductive Input where
  | declare (accepted : Bool)
  /-- A sample arrives and reaches the subscribers `heard`. -/
  | arrive (sample : Sample) (heard : List Nat)
  /-- One of the callbacks runs; `ingest` says how each route's ingest ends. -/
  | callback (position : Nat) (ingest : Nat → IngestResult)

inductive Event where
  | declarationFailed
  | wildcardSampleDropped (sample : Nat)
  | dispatched (sample : Nat) (routed : Routed)
  | ingestPanicked (sample : Nat)

/-- `shadows.iter().any(|f| f.matches(key, &mut spans))`. -/
def shadowed (key : Str) : List TopicFilter → Spans → Bool
  | [], _ => false
  | filter :: shadows, spans =>
      let matched := filter.isMatch key spans
      matched.1 || shadowed key shadows matched.2

namespace Session

variable (inbound : InboundDispatch)

/-- `dispatch_guarded`, for the sample `n`. -/
def dispatchGuarded (session : Session) (ingest : Nat → IngestResult) (n : Nat) (key : Str) :
    Session × List Event :=
  let routed := inbound.dispatch ingest session.tables key
  ({ session with tables := routed.tables },
    .dispatched n routed :: if routed.unwound.isSome then [.ingestPanicked n] else [])

def runCallback (session : Session) (ingest : Nat → IngestResult) (n : Nat) (sample : Sample)
    (subscriber : Subscriber) : Session × List Event :=
  match sample.kind with
  | .delete => (session, [])
  | .put =>
      if sample.key.contains '*' then
        ({ session with warned := true },
          if session.warned then [] else [.wildcardSampleDropped n])
      else if shadowed sample.key subscriber.shadows .fresh then (session, [])
      else session.dispatchGuarded inbound ingest n sample.key

/-- One turn of the loop in `subscribe`. -/
def declare (session : Session) (accepted : Bool) : Option (Session × List Event) :=
  match session.filters with
  | [] => none
  | (key, compiled) :: filters =>
      if accepted then
        some ({ session with
          filters := filters
          subscribers := session.subscribers ++ [⟨key, session.earlier⟩]
          earlier := session.earlier ++ [compiled] }, [])
      else some ({ session with filters := filters }, [.declarationFailed])

def step (session : Session) : Input → Option (Session × List Event)
  | .declare accepted => session.declare accepted
  | .arrive sample heard =>
      some ({ session with
        arrivals := session.arrivals ++ [⟨sample, session.subscribers.map Subscriber.key⟩]
        callbacks := session.callbacks ++ heard.map fun s => (session.arrivals.length, s) }, [])
  | .callback position ingest =>
      match session.callbacks[position]? with
      | none => none
      | some (n, s) =>
          match session.arrivals[n]?, session.subscribers[s]? with
          | some arrival, some subscriber =>
              some (({ session with callbacks := session.callbacks.eraseIdx position }).runCallback
                inbound ingest n arrival.sample subscriber)
          | _, _ => none

/-- What Zenoh promises: a sample reaches each declared subscriber whose key
expression matches its key, once. -/
def Delivers (session : Session) : Input → Prop
  | .arrive sample heard =>
      heard.Nodup ∧ (∀ s ∈ heard, s < session.subscribers.length) ∧
        ('*' ∉ sample.key → ∀ s subscriber, session.subscribers[s]? = some subscriber →
          (s ∈ heard ↔ Matched subscriber.key sample.key))
  | _ => True

def start (filters : List (Str × TopicFilter)) (tables : Nat → KeyTable) : Session where
  filters := filters
  tables := tables

inductive Step (session : Session) : Session → List Event → Prop
  | declared {key : Str} {compiled : TopicFilter} {filters : List (Str × TopicFilter)} :
      session.filters = (key, compiled) :: filters →
      Step session { session with
        filters := filters
        subscribers := session.subscribers ++ [⟨key, session.earlier⟩]
        earlier := session.earlier ++ [compiled] } []
  | refused {key : Str} {compiled : TopicFilter} {filters : List (Str × TopicFilter)} :
      session.filters = (key, compiled) :: filters →
      Step session { session with filters := filters } [.declarationFailed]
  | arrived {sample : Sample} {heard : List Nat} : session.Delivers (.arrive sample heard) →
      Step session { session with
        arrivals := session.arrivals ++ [⟨sample, session.subscribers.map Subscriber.key⟩]
        callbacks := session.callbacks ++ heard.map fun s => (session.arrivals.length, s) } []
  | passed {position n s : Nat} {arrival : Arrival} {subscriber : Subscriber} {warned : Bool}
      {emitted : List Event} :
      session.callbacks[position]? = some (n, s) → session.arrivals[n]? = some arrival →
      session.subscribers[s]? = some subscriber →
      (arrival.sample.Plain → shadowed arrival.sample.key subscriber.shadows .fresh = true) →
      (∀ event ∈ emitted, event = .wildcardSampleDropped n) →
      Step session { session with
        callbacks := session.callbacks.eraseIdx position, warned := warned } emitted
  | dispatched {position n s : Nat} {arrival : Arrival} {subscriber : Subscriber}
      {ingest : Nat → IngestResult} {emitted : List Event} :
      session.callbacks[position]? = some (n, s) → session.arrivals[n]? = some arrival →
      session.subscribers[s]? = some subscriber → arrival.sample.Plain →
      shadowed arrival.sample.key subscriber.shadows .fresh = false →
      (∀ event ∈ emitted, event = .ingestPanicked n) →
      Step session { session with
        callbacks := session.callbacks.eraseIdx position
        tables := (inbound.dispatch ingest session.tables arrival.sample.key).tables }
        (.dispatched n (inbound.dispatch ingest session.tables arrival.sample.key) :: emitted)

theorem Step.of_callback {session after : Session} {emitted : List Event} {position n s : Nat}
    {ingest : Nat → IngestResult} {arrival : Arrival} {subscriber : Subscriber}
    (pending : session.callbacks[position]? = some (n, s))
    (isArrival : session.arrivals[n]? = some arrival)
    (isSubscriber : session.subscribers[s]? = some subscriber)
    (ran : ({ session with callbacks := session.callbacks.eraseIdx position }).runCallback
      inbound ingest n arrival.sample subscriber = (after, emitted)) :
    Step inbound session after emitted := by
  rw [runCallback] at ran
  split at ran
  · rename_i deleted
    obtain ⟨rfl, rfl⟩ := Prod.mk.inj ran
    refine .passed pending isArrival isSubscriber ?_ (by simp)
    rintro ⟨isPut, -⟩
    rw [deleted] at isPut
    cases isPut
  · rename_i isPut
    split at ran
    · rename_i star
      obtain ⟨rfl, rfl⟩ := Prod.mk.inj ran
      refine .passed pending isArrival isSubscriber ?_ ?_
      · rintro ⟨-, noStar⟩
        exact absurd (by simpa using star) noStar
      · intro event emitted
        split at emitted
        · cases emitted
        · exact List.mem_singleton.mp emitted
    · rename_i noStar
      split at ran
      · rename_i isShadowed
        obtain ⟨rfl, rfl⟩ := Prod.mk.inj ran
        exact .passed pending isArrival isSubscriber (fun _ => isShadowed) (by simp)
      · rename_i first
        obtain ⟨rfl, rfl⟩ := Prod.mk.inj ran
        refine .dispatched pending isArrival isSubscriber ⟨isPut, by simpa using noStar⟩
          (Bool.eq_false_iff.mpr first) ?_
        intro event emitted
        split at emitted
        · exact List.mem_singleton.mp emitted
        · cases emitted

theorem Step.of_step {session after : Session} {input : Input} {emitted : List Event}
    (delivers : session.Delivers input)
    (stepped : session.step inbound input = some (after, emitted)) :
    Step inbound session after emitted := by
  cases input with
  | declare accepted =>
      simp only [step, declare] at stepped
      cases left : session.filters with
      | nil => simp [left] at stepped
      | cons filter filters =>
          rw [left] at stepped
          cases accepted with
          | true =>
              obtain ⟨rfl, rfl⟩ := Prod.mk.inj (Option.some.inj stepped)
              exact .declared left
          | false =>
              obtain ⟨rfl, rfl⟩ := Prod.mk.inj (Option.some.inj stepped)
              exact .refused left
  | arrive sample heard =>
      obtain ⟨rfl, rfl⟩ := Prod.mk.inj (Option.some.inj stepped)
      exact .arrived delivers
  | callback position ingest =>
      simp only [step] at stepped
      cases pending : session.callbacks[position]? with
      | none => simp [pending] at stepped
      | some callback =>
          cases isArrival : session.arrivals[callback.1]? with
          | none => simp [pending, isArrival] at stepped
          | some arrival =>
              cases isSubscriber : session.subscribers[callback.2]? with
              | none => simp [pending, isArrival, isSubscriber] at stepped
              | some subscriber =>
                  simp only [pending, isArrival, isSubscriber, Option.some.injEq] at stepped
                  exact .of_callback inbound pending isArrival isSubscriber stepped

end Session

end AimDb.Zenoh
