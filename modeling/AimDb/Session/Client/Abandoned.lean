import AimDb.Session.Aimx.Codec
import AimDb.Session.Client.Custody
import AimDb.Session.Client.Tables
import Mathlib.Tactic.IntervalCases

/-!
# No abandoned call is stranded

An entry of the pending table belongs to a caller that still listens, or
something is on its way that frees it: the drop in progress, its cancellation,
a prune signal, or a sweep that has not come to it yet.
-/

namespace AimDb.Session.Client

open AimDb.Json AimDb.Transition

variable {codec : EnvelopeCodec} {config : ClientConfig} {platform : Platform} {s after : State}

def State.underway (s : State) : List ClientCmd := s.queue ++ s.evicted ++ s.engine.hand

/-- Why an entry of the table is not stranded. -/
inductive Guards (s : State) (id : UInt64) (call : ℕ) : Prop
  | listening : (s.calls call).listening = true → Guards s id call
  | dropping : (s.calls call).phase = .cancelling ∨ (s.calls call).phase = .refused →
      Guards s id call
  | cancelled : .cancelCall id ∈ s.underway → Guards s id call
  | asked : s.prune = true → Guards s id call
  | sweeping {todo : List UInt64} : s.engine = .sweeping todo → id ∈ todo → Guards s id call

def Guarded (s : State) : Prop :=
  ∀ id call, s.pending.lookup id = some call → Guards s id call

/-- A step keeps the table guarded when each guard stays or is handed on. -/
theorem Guarded.of (guarded : Guarded s)
    (pending : ∀ {id call}, after.pending.lookup id = some call →
      s.pending.lookup id = some call)
    (phases : ∀ {id call}, after.pending.lookup id = some call →
      (after.calls call).phase = (s.calls call).phase ∨ Guards after id call)
    (cancels : ∀ {id call}, after.pending.lookup id = some call →
      .cancelCall id ∈ s.underway →
      .cancelCall id ∈ after.underway ∨ Guards after id call)
    (asked : ∀ {id call}, after.pending.lookup id = some call → s.prune = true →
      after.prune = true ∨ Guards after id call)
    (swept : ∀ {id call todo}, after.pending.lookup id = some call →
      s.engine = .sweeping todo →
      id ∈ todo → after.engine = .sweeping todo ∨ Guards after id call) : Guarded after := by
  intro key call found
  rcases phases found with same | guards
  swap
  · exact guards
  cases guarded _ _ (pending found) with
  | listening alive =>
      refine .listening ?_
      rwa [Call.listening, same]
  | dropping leaving => exact .dropping (same ▸ leaving)
  | cancelled mem => exact (cancels found mem).elim .cancelled id
  | asked raised => exact (asked found raised).elim .asked id
  | sweeping engine mem => exact (swept found engine mem).elim (.sweeping · mem) id

theorem Guarded.aside (guarded : Guarded s) (engine : after.engine = s.engine)
    (pending : after.pending = s.pending)
    (phases : ∀ {id call}, s.pending.lookup id = some call →
      (after.calls call).phase = (s.calls call).phase ∨ Guards after id call)
    (cancels : ∀ id, .cancelCall id ∈ s.underway →
      .cancelCall id ∈ after.underway ∨ after.prune = true)
    (asked : s.prune = true → after.prune = true) : Guarded after :=
  guarded.of (fun found => pending ▸ found) (fun found => phases (pending ▸ found))
    (fun _ mem => (cancels _ mem).imp_right .asked) (fun _ raised => .inl (asked raised))
    fun _ sweeping _ => .inl (engine ▸ sweeping)

theorem Guarded.onward (guarded : Guarded s) (working : ∀ todo, s.engine ≠ .sweeping todo)
    (pending : ∀ {id call}, after.pending.lookup id = some call →
      s.pending.lookup id = some call)
    (calls : ∀ call, (after.calls call).phase = (s.calls call).phase)
    (cancels : ∀ {id call}, after.pending.lookup id = some call →
      .cancelCall id ∈ s.underway →
      .cancelCall id ∈ after.underway)
    (asked : after.prune = s.prune) : Guarded after :=
  guarded.of pending (fun _ => .inl (calls _)) (fun found mem => .inl (cancels found mem))
    (fun _ raised => .inl (asked ▸ raised)) fun _ sweeping _ => absurd sweeping (working _)

theorem guarded_of_empty (empty : s.pending = ∅) : Guarded s := by
  intro id call found
  simp [empty] at found

theorem Guarded.ended (guarded : Guarded s) (sub : String) (err : RpcError) :
    Guarded (s.endSub sub err) := by
  rcases endSub_cases s sub err with same | ⟨stream, streams, _, _, ended⟩
  · rwa [same]
  · rw [ended]
    exact guarded.aside rfl rfl (fun _ => .inl rfl) (fun _ => .inl) id

theorem proceed_phase (s : State) (cmd : ClientCmd) (call : ℕ) :
    ((s.proceed cmd).calls call).phase = (s.calls call).phase ∨
      ((s.proceed cmd).calls call).listening = true := by
  cases cmd with
  | call _ _ _ holder =>
      rcases eq_or_ne call holder with rfl | distinct
      · exact .inr (by simp [State.proceed, State.setPhase, Call.listening])
      · exact .inl (by simp [State.proceed, State.setPhase, distinct])
  | cancelCall => exact .inl rfl
  | subscribe => exact .inl rfl
  | write => exact .inl rfl

theorem fail_phase (s : State) (cmd : ClientCmd) (call : ℕ) :
    ((s.fail cmd).1.calls call).phase = (s.calls call).phase ∨
      ∃ id method params, cmd = .call id method params call := by
  cases cmd with
  | call id method params holder =>
      rcases eq_or_ne call holder with rfl | distinct
      · exact .inr ⟨id, method, params, rfl⟩
      · exact .inl (by simp [State.fail, State.setPhase, State.setReply, distinct])
  | cancelCall => exact .inl rfl
  | subscribe => exact .inl rfl
  | write => exact .inl rfl

theorem Guarded.setPhase {mid : State} (guarded : Guarded s) (engine : mid.engine = s.engine)
    (pending : mid.pending = s.pending) (calls : mid.calls = s.calls)
    (cancels : ∀ id, .cancelCall id ∈ s.underway → .cancelCall id ∈ mid.underway)
    (asked : s.prune = true → mid.prune = true) {call : ℕ} {phase : Phase}
    (own : ∀ id, s.pending.lookup id = some call → Guards (mid.setPhase call phase) id call) :
    Guarded (mid.setPhase call phase) := by
  refine guarded.aside engine pending (fun {id other} found => ?_) (fun id mem => .inl ?_) asked
  · rcases eq_or_ne other call with rfl | distinct
    · exact .inr (own id found)
    · exact .inl (by simp [State.setPhase, distinct, calls])
  · exact cancels id mem

/-- A command goes to the queue, and no cancellation leaves the engine's way. -/
theorem Guarded.proceed {mid : State} (guarded : Guarded s) (engine : mid.engine = s.engine)
    (pending : mid.pending = s.pending) (calls : mid.calls = s.calls) (prune : mid.prune = s.prune)
    (cancels : ∀ id, .cancelCall id ∈ s.underway → .cancelCall id ∈ mid.underway)
    (cmd : ClientCmd) : Guarded (mid.proceed cmd) := by
  have phases := proceed_phase mid cmd
  obtain ⟨after, eq⟩ := State.proceed_eq mid cmd
  rw [eq] at phases ⊢
  rw [calls] at phases
  refine guarded.aside engine pending (fun _ => (phases _).imp_right .listening)
    (fun id mem => .inl ?_) fun raised => prune.trans raised
  exact cancels id mem

theorem Guarded.failed (guarded : Guarded s) (ids : Ids s) (custody : Custody s) {index : ℕ}
    {cmd : ClientCmd} (found : s.enqueuing[index]? = some cmd) :
    Guarded ({ s with enqueuing := s.enqueuing.eraseIdx index }.fail cmd).1 := by
  have mem : cmd ∈ s.commands := mem_commands_of_found (.inl found)
  have phases := fail_phase { s with enqueuing := s.enqueuing.eraseIdx index } cmd
  obtain ⟨calls, streams, eq⟩ := State.fail_eq
    { s with enqueuing := s.enqueuing.eraseIdx index } cmd
  rw [eq] at phases ⊢
  refine guarded.aside rfl rfl (fun {id call} filed => ?_) (fun _ => .inl) id
  rcases phases call with same | ⟨other, method, params, rfl⟩
  · exact .inl same
  · obtain rfl := Option.some.inj ((ids.filed filed).symm.trans (ids.named _ mem))
    simp [custody.unfiled_of_command ids mem] at filed

theorem Guarded.displaced (guarded : Guarded s) {index : ℕ} {cmd : ClientCmd}
    (found : s.evicted[index]? = some cmd) (other : ∀ id, cmd ≠ .cancelCall id) :
    Guarded ({ s with evicted := s.evicted.eraseIdx index }.discard cmd) := by
  have phases := discard_phase { s with evicted := s.evicted.eraseIdx index } cmd
  obtain ⟨calls, eq⟩ := State.discard_eq { s with evicted := s.evicted.eraseIdx index } cmd
  rw [eq] at phases ⊢
  refine guarded.aside rfl rfl (fun _ => .inl (phases _)) (fun id mem => .inl ?_) id
  have rest : .cancelCall id ∈ s.evicted → .cancelCall id ∈ s.evicted.eraseIdx index := by
    intro old
    have kept := (eraseIdx_perm found).mem_iff.mp old
    exact (List.mem_cons.mp kept).resolve_left (other id).symm
  simp only [State.underway, List.mem_append] at mem ⊢
  tauto

theorem Guarded.delivered (guarded : Guarded s) (sub : String) (seq : UInt64) (update : SubUpdate)
    (mode : Delivery) : Guarded (s.deliver sub seq update mode).1 := by
  rcases deliver_cases s sub seq update mode with
    same | unrouted | ⟨stream, delivered, _, _, _, pushed⟩
  · rwa [same]
  · rw [unrouted]
    exact guarded.aside rfl rfl (fun _ => .inl rfl) (fun _ => .inl) id
  · rw [pushed]
    exact guarded.aside rfl rfl (fun _ => .inl rfl) (fun _ => .inl) id

theorem Guarded.filed (guarded : Guarded s) (ids : Ids s) (custody : Custody s) {id : UInt64}
    {method : String} {params : Payload} {call : ℕ}
    (holding : s.engine = .took (.call id method params call))
    (listening : (s.calls call).listening = true) :
    Guarded ((s.insertPending id call).send (.request id method params)) := by
  have unfiled := custody.unfiled_of_command ids (mem_commands_of_hand holding)
  have filed : (s.insertPending id call).send (.request id method params) =
      { s with
        pending := s.pending.insert id call
        engine := .sending (.request id method params) } := by
    simp [State.send, State.insertPending, State.removePending, unfiled]
  rw [filed]
  intro key other found
  rcases eq_or_ne key id with rfl | distinct
  · obtain rfl : call = other := by simpa using found
    exact .listening listening
  · rw [AList.lookup_insert_ne distinct] at found
    cases guarded _ _ found with
    | listening alive => exact .listening alive
    | dropping leaving => exact .dropping leaving
    | cancelled mem =>
        exact .cancelled (by simpa [State.underway, holding, Engine.hand] using mem)
    | asked raised => exact .asked raised
    | sweeping engine => simp [holding] at engine

theorem Guarded.cancelling (guarded : Guarded s) {id : UInt64}
    (holding : s.engine = .took (.cancelCall id)) :
    Guarded { s.removePending id .dropped with engine := .parked } := by
  refine guarded.onward (by simp [holding]) (removed_pending _ _) ?_ (fun found mem => ?_)
    (s.removePending_prune _ _)
  · exact fun call => (s.removePending_calls call _ _).2.1
  · simp only [State.underway, holding, Engine.hand, List.mem_append, List.mem_singleton,
      ClientCmd.cancelCall.injEq] at mem
    rcases mem with mem | rfl
    · simpa [State.underway, Engine.hand] using mem
    · rw [(s.removePending_pending _ .dropped).1] at found
      simp at found

theorem Guarded.spared (guarded : Guarded s) {id : UInt64} {todo : List UInt64}
    (sweeping : s.engine = .sweeping (id :: todo))
    (alive : ∀ call, s.pending.lookup id = some call → (s.calls call).listening = true) :
    Guarded { s with engine := .sweeping todo } := by
  refine guarded.of (fun found => found) (fun _ => .inl rfl) (fun _ mem => .inl ?_) (fun _ => .inl)
    fun {key call todo} found engine mem => ?_
  · simpa [State.underway, sweeping, Engine.hand] using mem
  · rw [sweeping, Engine.sweeping.injEq] at engine
    rw [← engine, List.mem_cons] at mem
    rcases mem with rfl | rest
    · exact .inr (.listening (alive call found))
    · exact .inr (.sweeping rfl rest)

theorem Guarded.reclaimed (guarded : Guarded s) {id : UInt64} {todo : List UInt64}
    (sweeping : s.engine = .sweeping (id :: todo)) :
    Guarded { s.removePending id .dropped with engine := .sweeping todo } := by
  refine guarded.of (removed_pending _ _) (fun _ => .inl ?_) (fun _ mem => .inl ?_)
    (fun _ raised => .inl ?_) fun {key call todo} found engine mem => ?_
  · exact (s.removePending_calls _ _ _).2.1
  · simpa [State.underway, sweeping, Engine.hand] using mem
  · exact (s.removePending_prune _ _).trans raised
  · rw [sweeping, Engine.sweeping.injEq] at engine
    rw [← engine, List.mem_cons] at mem
    rcases mem with rfl | rest
    · rw [(s.removePending_pending key .dropped).1] at found
      simp at found
    · exact .inr (.sweeping rfl rest)

theorem Guarded.took (guarded : Guarded s) (ids : Ids s) (custody : Custody s)
    (tables : Tables s) {input : Input} {emitted : List Record}
    (took : Took codec config platform s input after emitted) : Guarded after := by
  have older {id : UInt64} {call : ℕ} (found : s.pending.lookup id = some call) :
      call ≠ s.started := (ids.call_lt (ids.filed found)).2.ne
  cases took with
  | called | unnumbered =>
      refine guarded.aside rfl rfl (fun found => .inl ?_) (fun _ => .inl) id
      simp only [Function.update_of_ne (older found)]
  | subscribed | wrote | handed | unlistened | redialing =>
      exact guarded.aside rfl rfl (fun _ => .inl rfl) (fun _ => .inl) id
  | @enqueued index cmd found =>
      refine @Guarded.proceed s
        { s with enqueuing := s.enqueuing.eraseIdx index, queue := s.queue ++ [cmd] }
        guarded rfl rfl rfl rfl (fun id mem => ?_) cmd
      simp only [State.underway, List.mem_append] at mem ⊢
      tauto
  | @evicting index cmd oldest rest found _ queue =>
      refine @Guarded.proceed s
        { s with
          enqueuing := s.enqueuing.eraseIdx index
          queue := rest ++ [cmd]
          evicted := s.evicted ++ [oldest] } guarded rfl rfl rfl rfl (fun id mem => ?_) cmd
      simp only [State.underway, queue, List.mem_append, List.mem_cons] at mem ⊢
      tauto
  | failed found => exact guarded.failed ids custody found
  | degraded found =>
      exact guarded.aside rfl rfl (fun _ => .inl rfl) (fun _ _ => .inr rfl) fun _ => rfl
  | displaced found other => exact guarded.displaced found other
  | resolved waiting received =>
      refine guarded.setPhase rfl rfl rfl (fun _ => id) id fun id found => ?_
      have held := custody.held_of_filed ids found
      simp [held, State.received] at received
  | abandoned =>
      exact guarded.setPhase rfl rfl rfl (fun _ => id) id fun _ _ =>
        .dropping (.inl (by simp [State.setPhase]))
  | @cancelled call id dropped numbered =>
      refine @Guarded.setPhase s { s with queue := s.queue ++ [.cancelCall id] } guarded rfl rfl rfl
        (fun id mem => ?_) (fun raised => raised) call .gone fun id found => ?_
      · simp only [State.underway, List.mem_append] at mem ⊢
        tauto
      · obtain rfl := Option.some.inj (numbered.symm.trans (ids.filed found))
        exact .cancelled (by simp [State.underway, State.setPhase])
  | refused =>
      exact guarded.setPhase rfl rfl rfl (fun _ => id) id fun _ _ =>
        .dropping (.inr (by simp [State.setPhase]))
  | @requested call =>
      exact @Guarded.setPhase s { s with prune := true } guarded rfl rfl rfl (fun _ => id)
        (fun _ => rfl) call .gone fun _ _ => .asked rfl
  | ignored | unmatched => exact guarded
  | dialed dialing phase =>
      refine guarded.onward (by simp [dialing]) id (fun _ => rfl) (fun _ mem => ?_) rfl
      rcases phase with rfl | rfl <;> simpa [State.underway, dialing, Engine.hand] using mem
  | greeted was | welcomed was | pinging was | sent was | subscribing was | writing was
  | closed was | halted was =>
      refine guarded.onward (by simp [was]) id (fun _ => rfl) (fun _ mem => ?_) rfl
      simpa [State.underway, was, Engine.hand] using mem
  | lost | unsent | left => exact guarded_of_empty rfl
  | answered parked =>
      refine guarded.onward (by simp [parked]) (removed_pending _ _) ?_ (fun _ mem => ?_)
        (s.removePending_prune _ _)
      · exact fun call => (s.removePending_calls call _ _).2.1
      · simpa [State.underway] using mem
  | declined | broken => exact guarded.ended _ _
  | delivered => exact guarded.delivered _ _ _ _
  | pruning parked asked =>
      intro id call found
      refine .sweeping rfl (AList.mem_keys.mpr ?_)
      exact AList.lookup_isSome.mp (by simp [found])
  | took parked queue =>
      refine guarded.onward (by simp [parked]) id (fun _ => rfl) (fun _ mem => ?_) rfl
      simp only [State.underway, queue, parked, Engine.hand, List.mem_append,
        List.mem_cons] at mem ⊢
      tauto
  | filed holding listening => exact guarded.filed ids custody holding listening
  | forgotten holding =>
      refine guarded.onward (by simp [holding]) (fun found => found)
        (fun _ => s.setReply_phase _ _ _) (fun _ mem => ?_) rfl
      simpa [State.underway, State.setReply, holding, Engine.hand] using mem
  | cancelling holding => exact guarded.cancelling holding
  | swept sweeping =>
      refine guarded.of id (fun _ => .inl rfl) (fun _ mem => .inl ?_) (fun _ => .inl)
        fun _ engine mem => ?_
      · simpa [State.underway, sweeping, Engine.hand] using mem
      · rw [sweeping, Engine.sweeping.injEq] at engine
        simp [← engine] at mem
  | spared sweeping alive => exact guarded.spared sweeping alive
  | reclaimed sweeping => exact guarded.reclaimed sweeping
  | drained draining =>
      obtain ⟨calls, eq⟩ := State.discard_eq _ _
      rw [eq]
      exact guarded_of_empty (tables.vacant (by simp [draining, Engine.Connected])).1

theorem guarded_of_runs {allowed : State → Input → Prop} {log : List Record}
    (reached : Runs codec config platform allowed s log) : Guarded s := by
  refine reached.invariant (fun s _ => Guarded s) (guarded_of_empty rfl) ?_
  intro state log input after emitted reached _ stepped guarded
  obtain ⟨ids, custody⟩ := custody_of_runs reached
  exact guarded.took ids custody (tables_of_runs reached) (took_of_step stepped)

/-- The engine is parked with nothing to read, and no handle operation and no
drop of a future is in progress. -/
structure Quiescent (s : State) : Prop where
  parked : s.engine = .parked
  queue : s.queue = []
  prune : s.prune = false
  enqueuing : s.enqueuing = []
  evicted : s.evicted = []
  calls : ∀ call < s.started, (s.calls call).phase ≠ .enqueuing ∧
    (s.calls call).phase ≠ .cancelling ∧ (s.calls call).phase ≠ .refused

inductive Bookkeeping (s : State) : Input → Prop
  | drop {call : ℕ} : Bookkeeping s (.drop call)
  | cancel {call : ℕ} : Bookkeeping s (.cancel call)
  | requestPrune {call : ℕ} : Bookkeeping s (.requestPrune call)
  | settle {index : ℕ} {id : UInt64} :
      s.evicted[index]? = some (.cancelCall id) → Bookkeeping s (.settle index)
  | act {id : UInt64} : s.engine = .took (.cancelCall id) → Bookkeeping s .act
  | prune : Bookkeeping s .prune
  | sweep : Bookkeeping s .sweep

theorem waiting_of_quiescent (guarded : Guarded s) (ids : Ids s) (quiescent : Quiescent s)
    {id : UInt64} {call : ℕ} (found : s.pending.lookup id = some call) :
    (s.calls call).phase = .waiting := by
  obtain ⟨polled, kept, told⟩ := quiescent.calls call (ids.call_lt (ids.filed found)).2
  cases guarded id call found with
  | listening alive =>
      simp only [Call.listening, Bool.or_eq_true, decide_eq_true_eq] at alive
      exact alive.resolve_left polled
  | dropping leaving => exact absurd leaving (by simp [kept, told])
  | cancelled mem =>
      simp [State.underway, quiescent.queue, quiescent.evicted, quiescent.parked,
        Engine.hand] at mem
  | asked raised => simp [quiescent.prune] at raised
  | sweeping engine => simp [quiescent.parked] at engine

theorem bookkeeping_keeps_commands {input : Input} {emitted : List Record}
    (bookkeeping : Bookkeeping s input)
    (stepped : step codec config platform s input = some (after, emitted)) :
    s.queue <+: after.queue ∧ after.enqueuing = s.enqueuing ∧
      ∀ cmd ∈ s.evicted, cmd ∈ after.evicted ∨ ∃ id, cmd = .cancelCall id := by
  have took := took_of_step stepped
  cases bookkeeping with
  | drop =>
      cases took with
      | abandoned => exact ⟨List.prefix_rfl, rfl, fun _ => .inl⟩
      | ignored => exact ⟨List.prefix_rfl, rfl, fun _ => .inl⟩
      | lost => exact ⟨List.prefix_rfl, rfl, fun _ => .inl⟩
  | cancel =>
      cases took with
      | cancelled => exact ⟨List.prefix_append _ _, rfl, fun _ => .inl⟩
      | refused => exact ⟨List.prefix_rfl, rfl, fun _ => .inl⟩
      | ignored => exact ⟨List.prefix_rfl, rfl, fun _ => .inl⟩
      | lost => exact ⟨List.prefix_rfl, rfl, fun _ => .inl⟩
  | requestPrune =>
      cases took with
      | requested => exact ⟨List.prefix_rfl, rfl, fun _ => .inl⟩
      | ignored => exact ⟨List.prefix_rfl, rfl, fun _ => .inl⟩
      | lost => exact ⟨List.prefix_rfl, rfl, fun _ => .inl⟩
  | settle found =>
      cases took with
      | degraded =>
          refine ⟨List.prefix_rfl, rfl, fun cmd mem => ?_⟩
          have kept := (eraseIdx_perm found).mem_iff.mp mem
          rcases List.mem_cons.mp kept with rfl | rest
          · exact .inr ⟨_, rfl⟩
          · exact .inl rest
      | displaced found' other =>
          exact absurd (Option.some.inj (found'.symm.trans found)) (other _)
      | ignored => exact ⟨List.prefix_rfl, rfl, fun _ => .inl⟩
      | lost => exact ⟨List.prefix_rfl, rfl, fun _ => .inl⟩
  | act holding =>
      cases took with
      | cancelling => exact ⟨by simp, by simp, by simp +contextual⟩
      | filed holding' => simp [holding] at holding'
      | forgotten holding' => simp [holding] at holding'
      | subscribing holding' => simp [holding] at holding'
      | writing holding' => simp [holding] at holding'
      | ignored => exact ⟨List.prefix_rfl, rfl, fun _ => .inl⟩
      | lost => exact ⟨List.prefix_rfl, rfl, fun _ => .inl⟩
  | prune =>
      cases took with
      | pruning => exact ⟨List.prefix_rfl, rfl, fun _ => .inl⟩
      | ignored => exact ⟨List.prefix_rfl, rfl, fun _ => .inl⟩
      | lost => exact ⟨List.prefix_rfl, rfl, fun _ => .inl⟩
  | sweep =>
      cases took with
      | swept => exact ⟨List.prefix_rfl, rfl, fun _ => .inl⟩
      | spared => exact ⟨List.prefix_rfl, rfl, fun _ => .inl⟩
      | reclaimed => exact ⟨by simp, by simp, by simp +contextual⟩
      | ignored => exact ⟨List.prefix_rfl, rfl, fun _ => .inl⟩
      | lost => exact ⟨List.prefix_rfl, rfl, fun _ => .inl⟩

/-- Whenever the client is at rest, every entry of the table belongs to a caller
that still waits; and bookkeeping for a cancellation displaces no command. -/
theorem noCallStranded_of_reachable {log : List Record}
    (reached : Reachable (step codec config platform) {} s log) :
    (Quiescent s → ∀ id call, s.pending.lookup id = some call →
      (s.calls call).phase = .waiting) ∧
    ∀ {input after emitted}, Bookkeeping s input →
      step codec config platform s input = some (after, emitted) →
      s.queue <+: after.queue ∧ after.enqueuing = s.enqueuing ∧
        ∀ cmd ∈ s.evicted, cmd ∈ after.evicted ∨ ∃ id, cmd = .cancelCall id := by
  constructor
  · intro quiescent id call found
    exact waiting_of_quiescent (guarded_of_runs reached) (custody_of_runs reached).1 quiescent found
  · exact fun bookkeeping stepped => bookkeeping_keeps_commands bookkeeping stepped

def platform64 : Platform := ⟨2 ^ 64 - 1, by decide⟩

/-- A call that is queued, taken and sent. -/
def requests (method : String) : List Input :=
  [.call method (utf8 "1"), .enqueue 0, .take, .act, .sent true]

/-- Two calls are pending and the queue is full when the first is abandoned; the
sweep frees it and the second still waits. -/
theorem noCallStranded_of_fullQueue :
    ∃ s : State, Quiescent s ∧ s.pending.keys = [2] ∧ (s.calls 0).phase = .gone ∧
      (s.calls 1).phase = .waiting := by
  have replayed : (replay
      (step (Aimx.aimxCodec .reference) { maxOfflineQueue := 1 } platform64) {}
      ([.dial (.ok ())] ++ requests "a" ++ requests "b" ++
        [.write "t" (utf8 "1"), .enqueue 0, .drop 0, .cancel 0, .requestPrune 0, .prune, .sweep,
          .sweep, .sweep, .take, .act, .sent true])).map
      (fun run => (decide (run.1.engine = .parked ∧ run.1.queue = [] ∧ run.1.prune = false ∧
          run.1.enqueuing = [] ∧ run.1.evicted = []), run.1.started, run.1.pending.keys,
        run.1.pending.lookup 2, decide ((run.1.calls 0).phase = .gone),
        decide ((run.1.calls 1).phase = .enqueuing ∨ (run.1.calls 1).phase = .cancelling ∨
          (run.1.calls 1).phase = .refused))) =
      some (true, 2, [2], some 1, true, false) := by
    decide
  obtain ⟨⟨s, log⟩, run, ends⟩ := Option.map_eq_some_iff.mp replayed
  simp only [Prod.mk.injEq, decide_eq_true_eq, decide_eq_false_iff_not, not_or] at ends
  obtain ⟨⟨parked, queue, prune, enqueuing, evicted⟩, started, keys, entry, gone, second⟩ :=
    ends
  have quiescent : Quiescent s := by
    refine ⟨parked, queue, prune, enqueuing, evicted, fun call below => ?_⟩
    rw [started] at below
    interval_cases call
    · simp [gone]
    · exact second
  have waiting := (noCallStranded_of_reachable (reachable_of_replay run)).1 quiescent 2 1 entry
  exact ⟨s, quiescent, keys, gone, waiting⟩

end AimDb.Session.Client
