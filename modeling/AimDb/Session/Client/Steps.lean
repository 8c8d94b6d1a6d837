import AimDb.Session.Client

/-!
# What one step of the client can do

Every invariant of the client is proved from `Took`, which lists the branches of
a step with their guards, the state after and the records they leave.
-/

namespace AimDb.Session.Client

open AimDb.Json AimDb.Transition

variable {codec : EnvelopeCodec} {config : ClientConfig} {platform : Platform}

def Engine.Exited (engine : Engine) : Prop :=
  engine = .leaving ∨ engine = .draining ∨ engine = .stopped

/-- The engine is in no connection's loop, or at rest in one. -/
def Engine.Unhanded (engine : Engine) : Prop :=
  (∀ cmd, engine ≠ .took cmd) ∧
    ∀ id method params, engine ≠ .sending (.request id method params)

namespace State

variable (s : State) (call other : ℕ)

@[simp] theorem setPhase_id (phase : Phase) :
    ((s.setPhase call phase).calls other).id = (s.calls other).id := by
  rcases eq_or_ne other call with rfl | distinct <;> simp [setPhase, *]

@[simp] theorem setPhase_reply (phase : Phase) :
    ((s.setPhase call phase).calls other).reply = (s.calls other).reply := by
  rcases eq_or_ne other call with rfl | distinct <;> simp [setPhase, *]

theorem setPhase_phase (phase : Phase) :
    ((s.setPhase call phase).calls other).phase =
      if other = call then phase else (s.calls other).phase := by
  rcases eq_or_ne other call with rfl | distinct <;> simp [setPhase, *]

@[simp] theorem setReply_id (reply : Reply) :
    ((s.setReply call reply).calls other).id = (s.calls other).id := by
  rcases eq_or_ne other call with rfl | distinct <;> simp [setReply, *]

@[simp] theorem setReply_phase (reply : Reply) :
    ((s.setReply call reply).calls other).phase = (s.calls other).phase := by
  rcases eq_or_ne other call with rfl | distinct <;> simp [setReply, *]

theorem setReply_reply (reply : Reply) :
    ((s.setReply call reply).calls other).reply =
      if other = call then reply else (s.calls other).reply := by
  rcases eq_or_ne other call with rfl | distinct <;> simp [setReply, *]

theorem discard_eq (cmd : ClientCmd) : ∃ calls, s.discard cmd = { s with calls } := by
  cases cmd <;> exact ⟨_, rfl⟩

theorem proceed_eq (cmd : ClientCmd) : ∃ calls, s.proceed cmd = { s with calls } := by
  cases cmd <;> exact ⟨_, rfl⟩

theorem fail_eq (cmd : ClientCmd) :
    ∃ calls streams, (s.fail cmd).1 = { s with calls, streams } := by
  cases cmd <;> exact ⟨_, _, rfl⟩

variable (id : UInt64) (reply : Reply)

/-- Taking an entry out of the table changes the table and one reply. -/
theorem removePending_eq :
    ∃ calls pending, s.removePending id reply = { s with calls, pending } := by
  unfold removePending
  split
  · exact ⟨_, _, rfl⟩
  · exact ⟨s.calls, s.pending, rfl⟩

@[simp] theorem removePending_enqueuing :
    (s.removePending id reply).enqueuing = s.enqueuing := by
  obtain ⟨calls, pending, taken⟩ := s.removePending_eq id reply
  rw [taken]

@[simp] theorem removePending_queue : (s.removePending id reply).queue = s.queue := by
  obtain ⟨calls, pending, taken⟩ := s.removePending_eq id reply
  rw [taken]

@[simp] theorem removePending_evicted : (s.removePending id reply).evicted = s.evicted := by
  obtain ⟨calls, pending, taken⟩ := s.removePending_eq id reply
  rw [taken]

@[simp] theorem removePending_engine : (s.removePending id reply).engine = s.engine := by
  obtain ⟨calls, pending, taken⟩ := s.removePending_eq id reply
  rw [taken]

@[simp] theorem removePending_prune : (s.removePending id reply).prune = s.prune := by
  obtain ⟨calls, pending, taken⟩ := s.removePending_eq id reply
  rw [taken]

@[simp] theorem removePending_epoch : (s.removePending id reply).epoch = s.epoch := by
  obtain ⟨calls, pending, taken⟩ := s.removePending_eq id reply
  rw [taken]

@[simp] theorem removePending_subs : (s.removePending id reply).subs = s.subs := by
  obtain ⟨calls, pending, taken⟩ := s.removePending_eq id reply
  rw [taken]

@[simp] theorem removePending_streams : (s.removePending id reply).streams = s.streams := by
  obtain ⟨calls, pending, taken⟩ := s.removePending_eq id reply
  rw [taken]

theorem removePending_pending :
    (s.removePending id reply).pending.lookup id = none ∧
      ∀ other, other ≠ id →
        (s.removePending id reply).pending.lookup other = s.pending.lookup other := by
  unfold removePending
  cases found : s.pending.lookup id with
  | none => exact ⟨found, fun _ _ => rfl⟩
  | some holder => exact ⟨by simp, fun other distinct => AList.lookup_erase_ne distinct⟩

theorem removePending_calls :
    ((s.removePending id reply).calls call).id = (s.calls call).id ∧
      ((s.removePending id reply).calls call).phase = (s.calls call).phase ∧
      (s.pending.lookup id = some call →
        ((s.removePending id reply).calls call).reply = reply) ∧
      (s.pending.lookup id ≠ some call →
        (s.removePending id reply).calls call = s.calls call) := by
  unfold removePending
  cases found : s.pending.lookup id with
  | none => simp
  | some holder =>
      refine ⟨s.setReply_id _ _ _, s.setReply_phase _ _ _, ?_, ?_⟩
      · intro own
        rw [Option.some.inj own]
        exact (s.setReply_reply _ _ _).trans (if_pos rfl)
      · intro foreign
        have distinct : call ≠ holder := fun same => foreign (congrArg some same.symm)
        simp [setReply, distinct]

end State

inductive Took (codec : EnvelopeCodec) (config : ClientConfig) (platform : Platform) (s : State) :
    Input → State → List Record → Prop
  | called {method : String} {params : Payload} {id : UInt64} :
      s.allocate platform = some id →
      Took codec config platform s (.call method params)
        { s with
          nextId := s.nextId + 1
          calls := Function.update s.calls s.started ⟨some id, .enqueuing, .held⟩
          started := s.started + 1
          enqueuing := s.enqueuing ++ [.call id method params s.started] } []
  | unnumbered {method : String} {params : Payload} :
      Took codec config platform s (.call method params)
        { s with
          calls := Function.update s.calls s.started
            ⟨none, .resolved (.error .internal), .dropped⟩
          started := s.started + 1 } [.resolved s.started (.error .internal)]
  | subscribed {topic : String} {id : UInt64} :
      s.allocate platform = some id →
      Took codec config platform s (.subscribe topic)
        { s with
          nextId := s.nextId + 1
          streams := Function.update s.streams s.opened ⟨some id, [], true⟩
          opened := s.opened + 1
          enqueuing := s.enqueuing ++ [.subscribe id topic s.opened] } []
  | wrote {topic : String} {payload : Payload} :
      Took codec config platform s (.write topic payload)
        { s with enqueuing := s.enqueuing ++ [.write topic payload] } []
  | enqueued {index : ℕ} {cmd : ClientCmd} :
      s.enqueuing[index]? = some cmd → s.queueClosed = false →
      Took codec config platform s (.enqueue index)
        ({ s with
            enqueuing := s.enqueuing.eraseIdx index
            queue := s.queue ++ [cmd] }.proceed cmd) []
  | evicting {index : ℕ} {cmd oldest : ClientCmd} {rest : List ClientCmd} :
      s.enqueuing[index]? = some cmd → s.queueClosed = false → s.queue = oldest :: rest →
      Took codec config platform s (.enqueue index)
        ({ s with
            enqueuing := s.enqueuing.eraseIdx index
            queue := rest ++ [cmd]
            evicted := s.evicted ++ [oldest] }.proceed cmd) []
  | failed {index : ℕ} {cmd : ClientCmd} :
      s.enqueuing[index]? = some cmd → s.queueClosed = true →
      Took codec config platform s (.enqueue index)
        ({ s with enqueuing := s.enqueuing.eraseIdx index }.fail cmd).1
        ({ s with enqueuing := s.enqueuing.eraseIdx index }.fail cmd).2
  | degraded {index : ℕ} {id : UInt64} :
      s.evicted[index]? = some (.cancelCall id) →
      Took codec config platform s (.settle index)
        { s with evicted := s.evicted.eraseIdx index, prune := true } []
  | displaced {index : ℕ} {cmd : ClientCmd} :
      s.evicted[index]? = some cmd → (∀ id, cmd ≠ .cancelCall id) →
      Took codec config platform s (.settle index)
        ({ s with evicted := s.evicted.eraseIdx index }.discard cmd) []
  | resolved {call : ℕ} {result : CallReply} :
      (s.calls call).phase = .waiting → State.received (s.calls call).reply = some result →
      Took codec config platform s (.resolve call) (s.setPhase call (.resolved result))
        [.resolved call result]
  | abandoned {call : ℕ} :
      (s.calls call).phase = .waiting →
      Took codec config platform s (.drop call) (s.setPhase call .cancelling) []
  | cancelled {call : ℕ} {id : UInt64} :
      (s.calls call).phase = .cancelling → (s.calls call).id = some id →
      s.queueClosed = false →
      Took codec config platform s (.cancel call)
        ({ s with queue := s.queue ++ [ClientCmd.cancelCall id] }.setPhase call .gone) []
  | refused {call : ℕ} :
      (s.calls call).phase = .cancelling →
      Took codec config platform s (.cancel call) (s.setPhase call .refused) []
  | requested {call : ℕ} :
      (s.calls call).phase = .refused →
      Took codec config platform s (.requestPrune call)
        ({ s with prune := true }.setPhase call .gone) []
  | handed {stream : ℕ} {item : Except RpcError SubUpdate}
      {rest : List (Except RpcError SubUpdate)} :
      (s.streams stream).items = item :: rest → (s.streams stream).receiver = true →
      Took codec config platform s (.next stream)
        { s with
          streams := Function.update s.streams stream { s.streams stream with items := rest } }
        [.handed stream item]
  | unlistened {stream : ℕ} :
      Took codec config platform s (.unlisten stream)
        { s with
          streams := Function.update s.streams stream
            { s.streams stream with receiver := false } } []
  | ignored {input : Input} : Took codec config platform s input s []
  | dialed {engine : Engine} :
      s.engine = .dialing → engine = .greeting ∨ engine = .parked →
      Took codec config platform s (.dial (.ok ()))
        { s with attempt := 0, epoch := s.epoch + 1, engine } [.dialed (s.epoch + 1)]
  | redialing {err : TransportError} {attempt : ℕ} :
      s.engine = .dialing →
      Took codec config platform s (.dial (.error err)) { s with attempt } []
  | greeted :
      s.engine = .greeting →
      Took codec config platform s (.sent true) { s with engine := .greeted } [.sent s.epoch .ping]
  | welcomed {bytes : Bytes} :
      s.engine = .greeted →
      Took codec config platform s (.inbound (some bytes)) { s with engine := .parked } []
  | pinging {idle : Bool} :
      s.engine = .parked →
      Took codec config platform s (.keepalive idle) { s with engine := .sending .ping } []
  /-- The connection is over, and the engine redials or ends. -/
  | lost {input : Input} {engine : Engine} {attempt : ℕ} :
      s.engine.Unhanded → ¬ s.engine.Exited → engine = .dialing ∨ engine = .leaving →
      Took codec config platform s input { s.dropTables with engine, attempt } []
  /-- As `lost`, with the request that could not be sent. -/
  | unsent {id : UInt64} {method : String} {params : Payload} {ok : Bool} {engine : Engine}
      {attempt : ℕ} :
      s.engine = .sending (.request id method params) →
        engine = .dialing ∨ engine = .leaving →
      Took codec config platform s (.sent ok)
        { (s.removePending id (.sent (.error .internal))).dropTables with engine, attempt } []
  | left :
      ¬ s.engine.Exited → Took codec config platform s .stop s.leave []
  | sent {message : Inbound} :
      s.engine = .sending message → encodes codec message = true →
      Took codec config platform s (.sent true) { s with engine := .parked }
        [.sent s.epoch message]
  | answered {bytes : Bytes} {id : UInt64} {result : CallReply} {call : ℕ} :
      s.engine = .parked → codec.decodeOutbound bytes = .ok (.reply id result) →
      s.pending.lookup id = some call →
      Took codec config platform s (.inbound (some bytes)) (s.removePending id (.sent result))
        [.replied s.epoch id result]
  | declined {bytes : Bytes} {id : UInt64} {err : RpcError} :
      s.engine = .parked → codec.decodeOutbound bytes = .ok (.reply id (.error err)) →
      s.pending.lookup id = none →
      Took codec config platform s (.inbound (some bytes)) (s.endSub (subKey id) err)
        [.replied s.epoch id (.error err)]
  | unmatched {bytes : Bytes} {id : UInt64} {data : Payload} :
      s.engine = .parked → codec.decodeOutbound bytes = .ok (.reply id (.ok data)) →
      s.pending.lookup id = none →
      Took codec config platform s (.inbound (some bytes)) s [.replied s.epoch id (.ok data)]
  | delivered {bytes : Bytes} {frame : Outbound} {sub : String} {seq : UInt64}
      {update : SubUpdate} {mode : Delivery} :
      s.engine = .parked → codec.decodeOutbound bytes = .ok frame →
      frame.numbered = some (sub, seq) →
      Took codec config platform s (.inbound (some bytes)) (s.deliver sub seq update mode).1
        (s.deliver sub seq update mode).2
  | broken {bytes : Bytes} {sub : String} :
      s.engine = .parked →
      Took codec config platform s (.inbound (some bytes)) (s.endSub sub .protocol) []
  | pruning :
      s.engine = .parked → s.prune = true →
      Took codec config platform s .prune
        { s with prune := false, engine := .sweeping s.pending.keys } []
  | took {cmd : ClientCmd} {rest : List ClientCmd} :
      s.engine = .parked → s.queue = cmd :: rest →
      Took codec config platform s .take { s with queue := rest, engine := .took cmd } []
  | filed {id : UInt64} {method : String} {params : Payload} {call : ℕ} :
      s.engine = .took (.call id method params call) → (s.calls call).listening = true →
      Took codec config platform s .act
        ((s.insertPending id call).send (.request id method params)) []
  | forgotten {id : UInt64} {method : String} {params : Payload} {call : ℕ} :
      s.engine = .took (.call id method params call) → (s.calls call).listening = false →
      Took codec config platform s .act { s.setReply call .dropped with engine := .parked } []
  | cancelling {id : UInt64} :
      s.engine = .took (.cancelCall id) →
      Took codec config platform s .act { s.removePending id .dropped with engine := .parked } []
  | subscribing {id : UInt64} {topic : String} {stream : ℕ} :
      s.engine = .took (.subscribe id topic stream) →
      Took codec config platform s .act
        { s with
          subs := s.subs.insert (subKey id) stream
          engine := .sending (.subscribe id topic) } []
  | writing {topic : String} {payload : Payload} :
      s.engine = .took (.write topic payload) →
      Took codec config platform s .act { s with engine := .sending (.write topic payload) } []
  | swept :
      s.engine = .sweeping [] → Took codec config platform s
        .sweep { s with engine := .parked } []
  | spared {id : UInt64} {todo : List UInt64} :
      s.engine = .sweeping (id :: todo) →
      (∀ call, s.pending.lookup id = some call → (s.calls call).listening = true) →
      Took codec config platform s .sweep { s with engine := .sweeping todo } []
  | reclaimed {id : UInt64} {todo : List UInt64} :
      s.engine = .sweeping (id :: todo) →
      Took codec config platform s .sweep
        { s.removePending id .dropped with engine := .sweeping todo } []
  | closed :
      s.engine = .leaving →
      Took codec config platform s .closeQueue
        { s with queueClosed := true, engine := .draining } []
  | drained {cmd : ClientCmd} {rest : List ClientCmd} :
      s.engine = .draining → s.queue = cmd :: rest →
      Took codec config platform s .drain ({ s with queue := rest }.discard cmd) []
  | halted :
      s.engine = .draining → s.queue = [] →
      Took codec config platform s .drain { s with engine := .stopped } []

variable (config) in
theorem reconnectAfter_eq (s : State) :
    ∃ attempt, s.reconnectAfter config = { s with engine := .dialing, attempt } ∨
      s.reconnectAfter config = { s with attempt }.leave := by
  rw [State.reconnectAfter]
  by_cases reconnect : config.reconnect = true
  · rw [if_pos reconnect]
    by_cases exhausted : config.maxReconnectAttempts ≠ 0 ∧
        s.attempt + 1 ≥ config.maxReconnectAttempts
    · exact ⟨s.attempt + 1, .inr (if_pos exhausted)⟩
    · exact ⟨s.attempt + 1, .inl (if_neg exhausted)⟩
  · exact ⟨s.attempt, .inr (if_neg reconnect)⟩

theorem leave_of_unhanded {s : State} (unhanded : ∀ cmd, s.engine ≠ .took cmd) :
    s.leave = { s.dropTables with engine := .leaving } := by
  rw [State.leave]
  split
  · rename_i cmd engine
    exact absurd engine (unhanded cmd)
  · rfl

variable (config) in
theorem disconnect_eq (s : State) (unhanded : ∀ cmd, s.engine ≠ .took cmd) :
    ∃ engine attempt, (engine = .dialing ∨ engine = .leaving) ∧
      s.disconnect config = { s.dropTables with engine, attempt } := by
  obtain ⟨attempt, redials | ends⟩ := reconnectAfter_eq config s.dropTables
  · exact ⟨.dialing, attempt, .inl rfl, redials⟩
  · refine ⟨.leaving, attempt, .inr rfl, ?_⟩
    rw [State.disconnect, ends, leave_of_unhanded (by exact unhanded)]
    simp [State.dropTables]

theorem took_enqueue {s : State} {index : ℕ} {cmd : ClientCmd}
    (found : s.enqueuing[index]? = some cmd) :
    Took codec config platform s (.enqueue index) (s.onEnqueue config index cmd).1
      (s.onEnqueue config index cmd).2 := by
  unfold State.onEnqueue
  by_cases closed : s.queueClosed = true
  · simp only [closed, if_true]
    simpa only [closed] using Took.failed found closed
  simp only [closed, Bool.false_eq_true, if_false]
  rw [Bool.not_eq_true] at closed
  split_ifs with room
  · simpa only [closed] using Took.enqueued found closed
  · cases queue : s.queue with
    | nil =>
        rw [queue, List.length_nil] at room
        exact absurd (lt_of_lt_of_le one_pos (le_max_left _ _)) room
    | cons oldest rest =>
        simpa only [closed, List.tail_cons, List.head?_cons, Option.toList_some] using
          Took.evicting found closed queue

theorem took_dial {s : State} (dialing : s.engine = .dialing)
    (outcome : Except TransportError Unit) :
    Took codec config platform s (.dial outcome) (s.onDial config outcome).1
      (s.onDial config outcome).2 := by
  have unhanded : s.engine.Unhanded := by simp [Engine.Unhanded, dialing]
  have running : ¬ s.engine.Exited := by simp [Engine.Exited, dialing]
  have ends : Took codec config platform s (.dial outcome) s.leave [] := by
    rw [leave_of_unhanded unhanded.1]
    exact .lost unhanded running (.inr rfl)
  have redials {err} : Took codec config platform s (.dial (.error err))
      (s.reconnectAfter config) [] := by
    obtain ⟨attempt, again | ended⟩ := reconnectAfter_eq config s
    · rw [again, ← dialing]
      exact .redialing dialing
    · rw [ended, leave_of_unhanded (by exact unhanded.1)]
      exact .lost unhanded running (.inr rfl)
  match outcome with
  | .ok () =>
      refine .dialed dialing ?_
      by_cases hello : config.sendsHello = true <;> simp [hello]
  | .error .closed => exact ends
  | .error .io => exact redials
  | .error .framing => exact redials
  | .error .busy => exact redials

theorem took_disconnect {s : State} {input : Input} (unhanded : s.engine.Unhanded)
    (running : ¬ s.engine.Exited) :
    Took codec config platform s input (s.disconnect config) [] := by
  obtain ⟨engine, attempt, outcome, ends⟩ := disconnect_eq config s unhanded.1
  rw [ends]
  exact .lost unhanded running outcome

theorem took_sent {s : State} {message : Inbound} (sending : s.engine = .sending message)
    (ok : Bool) :
    Took codec config platform s (.sent ok) (s.onSent codec config message ok).1
      (s.onSent codec config message ok).2 := by
  have running : ¬ s.engine.Exited := by simp [Engine.Exited, sending]
  unfold State.onSent
  by_cases success : (ok && encodes codec message) = true
  · rw [if_pos success]
    rw [Bool.and_eq_true] at success
    obtain ⟨rfl, encoded⟩ := success
    exact .sent sending encoded
  rw [if_neg success]
  cases message with
  | request id method params =>
      obtain ⟨engine, attempt, outcome, ends⟩ :=
        disconnect_eq config (s.removePending id (.sent (.error .internal))) (by simp [sending])
      simp only [State.sendFailed, ends]
      exact .unsent sending outcome
  | subscribe => exact took_disconnect (by simp [Engine.Unhanded, sending]) running
  | unsubscribe => exact took_disconnect (by simp [Engine.Unhanded, sending]) running
  | write => exact took_disconnect (by simp [Engine.Unhanded, sending]) running
  | ping => exact took_disconnect (by simp [Engine.Unhanded, sending]) running

theorem took_greeting {s : State} (greeting : s.engine = .greeting) (ok : Bool) :
    Took codec config platform s (.sent ok) (s.onGreetingSent codec config ok).1
      (s.onGreetingSent codec config ok).2 := by
  unfold State.onGreetingSent
  by_cases success : (ok && encodes codec .ping) = true
  · rw [if_pos success]
    rw [Bool.and_eq_true] at success
    obtain ⟨rfl, -⟩ := success
    exact .greeted greeting
  · rw [if_neg success]
    exact took_disconnect (by simp [Engine.Unhanded, greeting]) (by simp [Engine.Exited, greeting])

theorem took_inbound {s : State} (parked : s.engine = .parked) (bytes : Bytes) :
    Took codec config platform s (.inbound (some bytes)) (s.onInbound codec bytes).1
      (s.onInbound codec bytes).2 := by
  unfold State.onInbound
  split
  · rename_i id result decoded
    unfold State.onReply
    split
    · exact .answered parked decoded ‹_›
    · split
      · exact .declined parked decoded ‹_›
      · exact .unmatched parked decoded ‹_›
  · exact .delivered parked ‹_› rfl
  · exact .delivered parked ‹_› rfl
  · exact .ignored
  · exact .ignored
  · exact .broken parked
  · exact .ignored

theorem took_act {s : State} {cmd : ClientCmd} (took : s.engine = .took cmd) :
    Took codec config platform s .act (s.onCmd cmd) [] := by
  cases cmd with
  | call id method params call =>
      unfold State.onCmd
      by_cases listening : (s.calls call).listening = true
      · simp only [listening, if_true]
        exact .filed took listening
      · simp only [listening, Bool.false_eq_true, if_false]
        exact .forgotten took (by simpa using listening)
  | cancelCall id => exact .cancelling took
  | subscribe id topic events => exact .subscribing took
  | write topic payload => exact .writing took

theorem removePending_with_engine (s : State) (engine : Engine) (id : UInt64) (reply : Reply) :
    { s with engine }.removePending id reply = { s.removePending id reply with engine } := by
  unfold State.removePending
  dsimp only
  split <;> rfl

theorem took_sweep {s : State} {todo : List UInt64} (sweeping : s.engine = .sweeping todo) :
    Took codec config platform s .sweep (s.onSweep todo) [] := by
  cases todo with
  | nil => exact .swept sweeping
  | cons id todo =>
      unfold State.onSweep
      dsimp only
      cases found : s.pending.lookup id with
      | none => exact .spared sweeping (by simp [found])
      | some call =>
          by_cases listening : (s.calls call).listening = true
          · simp only [listening, if_true]
            exact .spared sweeping (by simp [found, listening])
          · simp only [listening, Bool.false_eq_true, if_false]
            rw [removePending_with_engine]
            exact .reclaimed sweeping

/-- An update is in its sink: what is left of the loss is told with it. -/
def State.push (s : State) (sub : String) (stream : ℕ) (seq : UInt64) (update : SubUpdate) :
    State :=
  { s with
    streams := Function.update s.streams stream
      { s.streams stream with items := (s.streams stream).items ++ [.ok update] }
    lastSeq := s.lastSeq.insert sub (max seq ((s.lastSeq.lookup sub).getD 0)) }

/-- The sink of a subscription whose subscriber is gone is dropped. -/
def State.unroute (s : State) (sub : String) : State :=
  { s with subs := s.subs.erase sub, lastSeq := s.lastSeq.erase sub }

theorem deliver_cases (s : State) (sub : String) (seq : UInt64) (update : SubUpdate)
    (mode : Delivery) :
    s.deliver sub seq update mode = (s, []) ∨
      s.deliver sub seq update mode = (s.unroute sub, []) ∨
      ∃ stream delivered, s.subs.lookup sub = some stream ∧
        (s.streams stream).receiver = true ∧
        delivered.skipped = saturatingSub seq
          (saturatingAdd ((s.lastSeq.lookup sub).getD 0) 1) ∧
        s.deliver sub seq update mode =
          (s.push sub stream seq delivered, [.delivered stream seq delivered]) := by
  unfold State.deliver
  dsimp only
  split
  · exact .inl rfl
  · rename_i stream found
    split_ifs with full listening
    · exact .inl rfl
    · exact .inr (.inr ⟨stream, _, found, listening, rfl, rfl⟩)
    · exact .inr (.inl rfl)

/-- Ending a subscription touches its sink and its table entries only. -/
theorem endSub_cases (s : State) (sub : String) (err : RpcError) :
    s.endSub sub err = s ∨
      ∃ stream streams, s.subs.lookup sub = some stream ∧
        (streams = s.streams ∨ streams = Function.update s.streams stream
          { s.streams stream with items := (s.streams stream).items ++ [.error err] }) ∧
        s.endSub sub err =
          { s with streams, subs := s.subs.erase sub, lastSeq := s.lastSeq.erase sub } := by
  unfold State.endSub
  split
  · exact .inl rfl
  · rename_i stream found
    refine .inr ⟨stream, _, found, ?_, rfl⟩
    split_ifs
    · exact .inr rfl
    · exact .inl rfl

theorem endSub_calls (s : State) (sub : String) (err : RpcError) :
    (s.endSub sub err).calls = s.calls ∧ (s.endSub sub err).pending = s.pending ∧
      (s.endSub sub err).engine = s.engine ∧ (s.endSub sub err).epoch = s.epoch := by
  rcases endSub_cases s sub err with same | ⟨_, _, _, _, ended⟩
  · rw [same]
    exact ⟨rfl, rfl, rfl, rfl⟩
  · rw [ended]
    exact ⟨rfl, rfl, rfl, rfl⟩

theorem deliver_calls (s : State) (sub : String) (seq : UInt64) (update : SubUpdate)
    (mode : Delivery) :
    (s.deliver sub seq update mode).1.calls = s.calls ∧
      (s.deliver sub seq update mode).1.pending = s.pending ∧
      (s.deliver sub seq update mode).1.engine = s.engine ∧
      (s.deliver sub seq update mode).1.epoch = s.epoch ∧
      ∀ record ∈ (s.deliver sub seq update mode).2,
        ∃ stream seq update, record = .delivered stream seq update := by
  rcases deliver_cases s sub seq update mode with
    same | unrouted | ⟨stream, delivered, _, _, _, pushed⟩
  · rw [same]
    exact ⟨rfl, rfl, rfl, rfl, by simp⟩
  · rw [unrouted]
    exact ⟨rfl, rfl, rfl, rfl, by simp⟩
  · rw [pushed]
    exact ⟨rfl, rfl, rfl, rfl, by simp⟩

theorem took_called {s : State} (method : String) (params : Payload) :
    Took codec config platform s (.call method params) (s.onCall platform method params).1
      (s.onCall platform method params).2 := by
  unfold State.onCall
  split
  · exact .called ‹_›
  · exact .unnumbered

theorem took_subscribed {s : State} (topic : String) :
    Took codec config platform s (.subscribe topic) (s.onSubscribe platform topic) [] := by
  unfold State.onSubscribe
  split
  · exact .subscribed ‹_›
  · exact .ignored

theorem took_settle {s : State} {index : ℕ} {cmd : ClientCmd}
    (found : s.evicted[index]? = some cmd) :
    Took codec config platform s (.settle index) (s.onSettle index cmd) [] := by
  unfold State.onSettle
  cases cmd with
  | cancelCall id => exact .degraded found
  | call => exact .displaced found (by simp)
  | subscribe => exact .displaced found (by simp)
  | write => exact .displaced found (by simp)

theorem took_resolve {s after : State} {emitted : List Record} {call : ℕ}
    (resolves : s.onResolve call = some (after, emitted)) :
    Took codec config platform s (.resolve call) after emitted := by
  unfold State.onResolve at resolves
  split at resolves
  · simp only [Option.map_eq_some_iff, Prod.mk.injEq] at resolves
    obtain ⟨result, received, rfl, rfl⟩ := resolves
    exact .resolved ‹_› received
  · cases resolves

/-- A cancellation finds room in the queue, or asks for a prune. -/
theorem took_cancel {s : State} {call : ℕ} {id : UInt64}
    (dropped : (s.calls call).phase = .cancelling) (numbered : (s.calls call).id = some id) :
    Took codec config platform s (.cancel call) (s.onCancel config call id) [] := by
  unfold State.onCancel
  split
  · rename_i room
    simp only [Bool.and_eq_true, Bool.not_eq_true'] at room
    exact .cancelled dropped numbered room.1
  · exact .refused dropped

/-- The greeting is answered, or the connection is over. -/
theorem took_pong {s : State} (greeted : s.engine = .greeted) (bytes : Bytes) :
    Took codec config platform s (.inbound (some bytes)) (s.onGreeting codec config bytes) [] := by
  unfold State.onGreeting
  split
  · exact .welcomed greeted
  · exact took_disconnect (by simp [Engine.Unhanded, greeted]) (by simp [Engine.Exited, greeted])

theorem took_drain {s : State} (draining : s.engine = .draining) :
    Took codec config platform s .drain s.onDrain [] := by
  unfold State.onDrain
  split
  · exact .halted draining ‹_›
  · exact .drained draining ‹_›

/-- The inputs that move the engine; callers and subscribers give the others. -/
def Input.ofEngine : Input → Bool
  | .dial _ | .sent _ | .inbound _ | .keepalive _ | .prune | .take | .act | .sweep => true
  | .stop | .closeQueue | .drain => true
  | _ => false

theorem took_of_caller {s after : State} {input : Input} {emitted : List Record}
    (outside : input.ofEngine = false)
    (stepped : step codec config platform s input = some (after, emitted)) :
    Took codec config platform s input after emitted := by
  cases input with
  | call method params =>
      simp only [step, Option.some.injEq] at stepped
      obtain ⟨rfl, rfl⟩ := Prod.mk.inj stepped
      exact took_called method params
  | subscribe topic =>
      simp only [step, Option.some.injEq, Prod.mk.injEq] at stepped
      obtain ⟨rfl, rfl⟩ := stepped
      exact took_subscribed topic
  | write topic payload =>
      simp only [step, Option.some.injEq, Prod.mk.injEq] at stepped
      obtain ⟨rfl, rfl⟩ := stepped
      exact .wrote
  | enqueue index =>
      simp only [step, Option.bind_eq_bind, Option.bind_eq_some_iff, Option.some.injEq] at stepped
      obtain ⟨cmd, found, stepped⟩ := stepped
      obtain ⟨rfl, rfl⟩ := Prod.mk.inj stepped
      exact took_enqueue found
  | settle index =>
      simp only [step, Option.bind_eq_bind, Option.bind_eq_some_iff, Option.some.injEq,
        Prod.mk.injEq] at stepped
      obtain ⟨cmd, found, rfl, rfl⟩ := stepped
      exact took_settle found
  | resolve call =>
      simp only [step] at stepped
      exact took_resolve stepped
  | drop call =>
      simp only [step, Option.ite_none_right_eq_some, Option.some.injEq, Prod.mk.injEq] at stepped
      obtain ⟨waiting, rfl, rfl⟩ := stepped
      exact .abandoned waiting
  | cancel call =>
      simp only [step, Option.ite_none_right_eq_some, Option.bind_eq_bind,
        Option.bind_eq_some_iff, Option.some.injEq, Prod.mk.injEq] at stepped
      obtain ⟨dropped, id, numbered, rfl, rfl⟩ := stepped
      exact took_cancel dropped numbered
  | requestPrune call =>
      simp only [step, Option.ite_none_right_eq_some, Option.some.injEq, Prod.mk.injEq] at stepped
      obtain ⟨refused, rfl, rfl⟩ := stepped
      exact .requested refused
  | next stream =>
      simp only [step] at stepped
      split at stepped
      · simp only [Option.ite_none_right_eq_some, Option.some.injEq, Prod.mk.injEq] at stepped
        obtain ⟨listening, rfl, rfl⟩ := stepped
        exact .handed ‹_› listening
      · cases stepped
  | unlisten stream =>
      simp only [step, Option.some.injEq, Prod.mk.injEq] at stepped
      obtain ⟨rfl, rfl⟩ := stepped
      exact .unlistened
  | dial | sent | inbound | keepalive | prune | take | act | sweep | stop | closeQueue | drain =>
      cases outside

theorem took_of_engine {s after : State} {input : Input} {emitted : List Record}
    (inside : input.ofEngine = true)
    (stepped : step codec config platform s input = some (after, emitted)) :
    Took codec config platform s input after emitted := by
  cases input with
  | call | subscribe | write | enqueue | settle | resolve | drop | cancel | requestPrune | next
  | unlisten => cases inside
  | dial outcome =>
      simp only [step, Option.ite_none_right_eq_some, Option.some.injEq] at stepped
      obtain ⟨dialing, stepped⟩ := stepped
      obtain ⟨rfl, rfl⟩ := Prod.mk.inj stepped
      exact took_dial dialing outcome
  | sent ok =>
      simp only [step] at stepped
      split at stepped
      · obtain ⟨rfl, rfl⟩ := Prod.mk.inj (Option.some.inj stepped)
        exact took_sent ‹_› ok
      · obtain ⟨rfl, rfl⟩ := Prod.mk.inj (Option.some.inj stepped)
        exact took_greeting ‹_› ok
      · cases stepped
  | inbound frame =>
      cases frame with
      | none =>
          simp only [step, Option.ite_none_right_eq_some, Option.some.injEq,
            Prod.mk.injEq] at stepped
          obtain ⟨parked | greeted, rfl, rfl⟩ := stepped
          · exact took_disconnect (by simp [Engine.Unhanded, parked])
              (by simp [Engine.Exited, parked])
          · exact took_disconnect (by simp [Engine.Unhanded, greeted])
              (by simp [Engine.Exited, greeted])
      | some bytes =>
          simp only [step] at stepped
          by_cases parked : s.engine = .parked
          · rw [if_pos parked] at stepped
            obtain ⟨rfl, rfl⟩ := Prod.mk.inj (Option.some.inj stepped)
            exact took_inbound parked bytes
          rw [if_neg parked] at stepped
          simp only [Option.ite_none_right_eq_some, Option.some.injEq, Prod.mk.injEq] at stepped
          obtain ⟨greeted, rfl, rfl⟩ := stepped
          exact took_pong greeted bytes
  | keepalive idle =>
      simp only [step, Option.ite_none_right_eq_some, Option.some.injEq, Prod.mk.injEq] at stepped
      obtain ⟨⟨parked, -⟩, rfl, rfl⟩ := stepped
      split
      · exact .pinging parked
      · exact .ignored
  | prune =>
      simp only [step, Option.ite_none_right_eq_some, Option.some.injEq, Prod.mk.injEq] at stepped
      obtain ⟨⟨parked, asked⟩, rfl, rfl⟩ := stepped
      exact .pruning parked asked
  | take =>
      simp only [step, Option.ite_none_right_eq_some] at stepped
      obtain ⟨parked, stepped⟩ := stepped
      split at stepped
      · cases stepped
      · obtain ⟨rfl, rfl⟩ := Prod.mk.inj (Option.some.inj stepped)
        exact .took parked ‹_›
  | act =>
      simp only [step] at stepped
      split at stepped
      · obtain ⟨rfl, rfl⟩ := Prod.mk.inj (Option.some.inj stepped)
        exact took_act ‹_›
      · cases stepped
  | sweep =>
      simp only [step] at stepped
      split at stepped
      · obtain ⟨rfl, rfl⟩ := Prod.mk.inj (Option.some.inj stepped)
        exact took_sweep ‹_›
      · cases stepped
  | stop =>
      simp only [step, Option.ite_none_left_eq_some, Option.some.injEq, Prod.mk.injEq] at stepped
      obtain ⟨running, rfl, rfl⟩ := stepped
      exact .left running
  | closeQueue =>
      simp only [step, Option.ite_none_right_eq_some, Option.some.injEq, Prod.mk.injEq] at stepped
      obtain ⟨leaving, rfl, rfl⟩ := stepped
      exact .closed leaving
  | drain =>
      simp only [step, Option.ite_none_right_eq_some, Option.some.injEq, Prod.mk.injEq] at stepped
      obtain ⟨draining, rfl, rfl⟩ := stepped
      exact took_drain draining

theorem took_of_step {s after : State} {input : Input} {emitted : List Record}
    (stepped : step codec config platform s input = some (after, emitted)) :
    Took codec config platform s input after emitted := by
  cases side : input.ofEngine with
  | false => exact took_of_caller side stepped
  | true => exact took_of_engine side stepped

end AimDb.Session.Client
