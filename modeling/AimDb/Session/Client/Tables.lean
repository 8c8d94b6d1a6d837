import AimDb.Session.Client.Steps

/-!
# The engine's phases

The tables are filled only while a connection is driven, and the command queue
is closed and empty once the engine has stopped.
-/

namespace AimDb.Session.Client

open AimDb.Json AimDb.Transition

variable {codec : EnvelopeCodec} {config : ClientConfig} {platform : Platform} {s after : State}

def Engine.Connected : Engine → Prop
  | .parked | .took _ | .sending _ | .sweeping _ => True
  | .dialing | .greeting | .greeted | .leaving | .draining | .stopped => False

structure Tables (s : State) : Prop where
  vacant : ¬ s.engine.Connected → s.pending = ∅ ∧ s.subs = ∅ ∧ s.lastSeq = ∅
  closed : s.engine = .draining ∨ s.engine = .stopped → s.queueClosed = true
  emptied : s.engine = .stopped → s.queue = []

theorem tables_of_connected (connected : after.engine.Connected) : Tables after where
  vacant unconnected := absurd connected unconnected
  closed ended := by rcases ended with ended | ended <;> simp [ended, Engine.Connected] at connected
  emptied ended := by simp [ended, Engine.Connected] at connected

theorem tables_of_dropped (engine : after.engine = .dialing ∨ after.engine = .leaving)
    (pending : after.pending = ∅) (subs : after.subs = ∅) (lastSeq : after.lastSeq = ∅) :
    Tables after where
  vacant _ := ⟨pending, subs, lastSeq⟩
  closed ended := by rcases engine with engine | engine <;> simp [engine] at ended
  emptied ended := by rcases engine with engine | engine <;> simp [engine] at ended

namespace Tables

theorem aside (tables : Tables s) (engine : after.engine = s.engine)
    (pending : after.pending = s.pending) (subs : after.subs = s.subs)
    (lastSeq : after.lastSeq = s.lastSeq) (closed : after.queueClosed = s.queueClosed)
    (queue : after.queue = s.queue ∨ s.queueClosed = false) : Tables after where
  vacant unconnected := by
    rw [pending, subs, lastSeq]
    exact tables.vacant (engine ▸ unconnected)
  closed ended := closed ▸ tables.closed (engine ▸ ended)
  emptied ended := by
    rw [engine] at ended
    rcases queue with same | opened
    · exact same ▸ tables.emptied ended
    · simp [tables.closed (.inr ended)] at opened

theorem onward (tables : Tables s) (unconnected : ¬ s.engine.Connected)
    (running : ¬ after.engine.Exited) (pending : after.pending = s.pending)
    (subs : after.subs = s.subs) (lastSeq : after.lastSeq = s.lastSeq) : Tables after where
  vacant _ := by
    rw [pending, subs, lastSeq]
    exact tables.vacant unconnected
  closed ended := absurd (.inr ended) running
  emptied ended := absurd (.inr (.inr ended)) running

theorem took (tables : Tables s) {input : Input} {emitted : List Record}
    (took : Took codec config platform s input after emitted) : Tables after := by
  cases took with
  | called => exact tables.aside rfl rfl rfl rfl rfl (.inl rfl)
  | unnumbered => exact tables.aside rfl rfl rfl rfl rfl (.inl rfl)
  | subscribed => exact tables.aside rfl rfl rfl rfl rfl (.inl rfl)
  | wrote => exact tables.aside rfl rfl rfl rfl rfl (.inl rfl)
  | enqueued _ opened =>
      obtain ⟨calls, eq⟩ := State.proceed_eq _ _
      rw [eq]
      exact tables.aside rfl rfl rfl rfl rfl (.inr opened)
  | evicting _ opened =>
      obtain ⟨calls, eq⟩ := State.proceed_eq _ _
      rw [eq]
      exact tables.aside rfl rfl rfl rfl rfl (.inr opened)
  | failed =>
      obtain ⟨calls, streams, eq⟩ := State.fail_eq _ _
      rw [eq]
      exact tables.aside rfl rfl rfl rfl rfl (.inl rfl)
  | degraded => exact tables.aside rfl rfl rfl rfl rfl (.inl rfl)
  | displaced =>
      obtain ⟨calls, eq⟩ := State.discard_eq _ _
      rw [eq]
      exact tables.aside rfl rfl rfl rfl rfl (.inl rfl)
  | resolved => exact tables.aside rfl rfl rfl rfl rfl (.inl rfl)
  | abandoned => exact tables.aside rfl rfl rfl rfl rfl (.inl rfl)
  | cancelled _ _ opened => exact tables.aside rfl rfl rfl rfl rfl (.inr opened)
  | refused => exact tables.aside rfl rfl rfl rfl rfl (.inl rfl)
  | requested => exact tables.aside rfl rfl rfl rfl rfl (.inl rfl)
  | handed => exact tables.aside rfl rfl rfl rfl rfl (.inl rfl)
  | unlistened => exact tables.aside rfl rfl rfl rfl rfl (.inl rfl)
  | ignored => exact tables
  | dialed dialing phase =>
      refine tables.onward (by simp [dialing, Engine.Connected]) ?_ rfl rfl rfl
      rcases phase with rfl | rfl <;> simp [Engine.Exited]
  | redialing => exact tables.aside rfl rfl rfl rfl rfl (.inl rfl)
  | greeted greeting =>
      exact tables.onward (by simp [greeting, Engine.Connected])
        (by simp [Engine.Exited]) rfl rfl rfl
  | welcomed => exact tables_of_connected trivial
  | pinging => exact tables_of_connected trivial
  | lost _ _ outcome => exact tables_of_dropped outcome rfl rfl rfl
  | unsent _ outcome => exact tables_of_dropped outcome rfl rfl rfl
  | left => exact tables_of_dropped (.inr rfl) rfl rfl rfl
  | sent => exact tables_of_connected trivial
  | answered parked =>
      apply tables_of_connected
      rw [State.removePending_engine, parked]
      trivial
  | @declined _ id err parked =>
      apply tables_of_connected
      rcases endSub_cases s (subKey id) err with same | ⟨_, _, _, _, ended⟩
      · rw [same, parked]
        trivial
      · rw [ended]
        exact parked ▸ trivial
  | unmatched => exact tables
  | @delivered _ _ sub seq update mode parked =>
      apply tables_of_connected
      rcases deliver_cases s sub seq update mode with same | unrouted | ⟨_, _, _, _, _, pushed⟩
      · rw [same, parked]
        trivial
      · rw [unrouted]
        exact parked ▸ trivial
      · rw [pushed]
        exact parked ▸ trivial
  | @broken _ sub parked =>
      apply tables_of_connected
      rcases endSub_cases s sub .protocol with same | ⟨_, _, _, _, ended⟩
      · rw [same, parked]
        trivial
      · rw [ended]
        exact parked ▸ trivial
  | pruning => exact tables_of_connected trivial
  | took => exact tables_of_connected trivial
  | filed => exact tables_of_connected trivial
  | forgotten => exact tables_of_connected trivial
  | cancelling => exact tables_of_connected trivial
  | subscribing => exact tables_of_connected trivial
  | writing => exact tables_of_connected trivial
  | swept => exact tables_of_connected trivial
  | spared => exact tables_of_connected trivial
  | reclaimed => exact tables_of_connected trivial
  | closed leaving =>
      constructor
      · exact fun _ => tables.vacant (by simp [leaving, Engine.Connected])
      · exact fun _ => rfl
      · simp
  | drained draining =>
      obtain ⟨calls, eq⟩ := State.discard_eq _ _
      rw [eq]
      constructor
      · exact tables.vacant
      · exact tables.closed
      · simp [draining]
  | halted draining empty =>
      constructor
      · exact fun _ => tables.vacant (by simp [draining, Engine.Connected])
      · exact fun _ => tables.closed (.inl draining)
      · exact fun _ => empty

end Tables

theorem tables_of_runs {allowed : State → Input → Prop} {log : List Record}
    (reached : Runs codec config platform allowed s log) : Tables s := by
  refine reached.invariant (fun s _ => Tables s) ?_ ?_
  · exact tables_of_dropped (.inl rfl) rfl rfl rfl
  · exact fun _ _ stepped tables => tables.took (took_of_step stepped)

end AimDb.Session.Client
