import AimDb.Transform.Chain

/-!
# A join hands over what its forwarders read

Each forwarder has at most one trigger in hand, the queue is bounded, and between
them nothing is lost, doubled or reordered while the handler runs.  A handler that
is told the queue is closed has had every trigger.
-/

namespace AimDb.Transform

open Following Transition
open Outbound.Routes (Sample)

variable {T S : Type} {config : Config T S} {s after : State T S} {log emits : List (Event T)}
  {join index : ℕ}

def triggerOf (index : ℕ) (sample : Sample T) : JoinTrigger T :=
  ⟨index, sample.value, sample.metadata⟩

def ofInput (index : ℕ) (triggers : List (JoinTrigger T)) : List (JoinTrigger T) :=
  triggers.filter (·.index = index)

@[simp] theorem ofInput_nil : ofInput index ([] : List (JoinTrigger T)) = [] := rfl

@[simp] theorem ofInput_append (triggers more : List (JoinTrigger T)) :
    ofInput index (triggers ++ more) = ofInput index triggers ++ ofInput index more :=
  List.filter_append _ _

theorem ofInput_singleton {trigger : JoinTrigger T} (same : trigger.index = index) :
    ofInput index [trigger] = [trigger] := by simp [ofInput, same]

theorem ofInput_other {trigger : JoinTrigger T} (differs : trigger.index ≠ index) :
    ofInput index [trigger] = [] := by simp [ofInput, differs]

def forwardedOf (join index : ℕ) (log : List (Event T)) : List (JoinTrigger T) :=
  (samples (readings (.forwarder join index) log)).map (triggerOf index)

@[simp] theorem forwardedOf_append (log more : List (Event T)) :
    forwardedOf join index (log ++ more) =
        forwardedOf join index log ++ forwardedOf join index more := by
  simp [forwardedOf]

structure Held (config : Config T S) (s : State T S) (join index : ℕ) (trigger : JoinTrigger T) :
    Prop where
  own : trigger.index = index
  reads : ∃ input, config.input (.forwarder join index) = some input
  subscribed : ∃ next, s.readers (.forwarder join index) = .subscribed next

/-- The handler has had every trigger there will be. -/
structure Drained (s : State T S) (log : List (Event T)) (join : ℕ) (inputs : List ℕ) :
    Prop where
  allGone : s.AllGone join inputs
  empty : s.queue join = []
  all : ∀ index < inputs.length, ofInput index (receivedOf join log) = forwardedOf join index log

/-- What holds of the queues and the forwarders after any history of steps. -/
structure Fed (config : Config T S) (s : State T S) (log : List (Event T)) : Prop where
  bounded : ∀ join, (s.queue join).length ≤ config.joinQueueCapacity
  ordered : ∀ join, receivedOf join log ++ s.queue join = queuedOf join log
  inHand : ∀ join index trigger, s.sending (.forwarder join index) = some trigger →
    Held config s join index trigger
  kept : ∀ join index, s.exited join = false →
    ofInput index (queuedOf join log) ++ (s.sending (.forwarder join index)).toList =
      forwardedOf join index log
  handed : ∀ join index, ofInput index (queuedOf join log) <+: forwardedOf join index log
  closed : ∀ join configured, config.joins[join]? = some configured →
    .queueClosed join ∈ log →
    Drained s log join configured.inputs

theorem Moves.bounded (moves : Moves config s after emits)
    (bounded : (s.queue join).length ≤ config.joinQueueCapacity) :
    (after.queue join).length ≤ config.joinQueueCapacity := by
  cases moves with
  | @queued other _ _ _ _ room =>
      by_cases same : other = join
      · subst same
        simpa [State.setQueue] using room
      · simpa [State.setQueue, State.setSending, Ne.symm same] using bounded
  | @received other _ _ _ queued =>
      by_cases same : other = join
      · subst same
        rw [queued, List.length_cons] at bounded
        simpa [State.setQueue] using Nat.le_of_succ_le bounded
      · simpa [State.setQueue, Ne.symm same] using bounded
  | _ =>
      simpa [State.write, State.setReader, State.setState, State.setSending, State.finish]
        using bounded

theorem Moves.ordered (moves : Moves config s after emits)
    (ordered : receivedOf join log ++ s.queue join = queuedOf join log) :
    receivedOf join (log ++ emits) ++ after.queue join = queuedOf join (log ++ emits) := by
  cases moves with
  | @queued other _ _ _ _ room =>
      by_cases same : other = join
      · subst same
        simp [State.setQueue, Event.received?, Event.queued?, ← ordered]
      · simpa [State.setQueue, State.setSending, Event.received?, Event.queued?, same,
          Ne.symm same]
          using ordered
  | @received other _ _ _ queued =>
      by_cases same : other = join
      · subst same
        simp [State.setQueue, Event.received?, Event.queued?, ← ordered, queued]
      · simpa [State.setQueue, Event.received?, Event.queued?, same, Ne.symm same] using ordered
  | _ =>
      simpa [State.write, State.setReader, State.setState, State.setSending, State.finish,
        Event.received?, Event.queued?] using ordered

theorem Moves.inHand (moves : Moves config s after emits)
    (inHand : ∀ join index trigger, s.sending (.forwarder join index) = some trigger →
      Held config s join index trigger)
    {trigger : JoinTrigger T} (sending : after.sending (.forwarder join index) = some trigger) :
    Held config after join index trigger := by
  cases moves with
  | @subscribed task _ joined =>
      obtain ⟨own, reads, subscribed⟩ := inHand _ _ _ sending
      refine ⟨own, reads, ?_⟩
      by_cases same : Task.forwarder join index = task
      · exact ⟨joined, by simp [State.setReader, same]⟩
      · simpa [State.setReader, same] using subscribed
  | @finished task idle =>
      have was : s.sending (.forwarder join index) = some trigger := sending
      obtain ⟨own, reads, next, stands⟩ := inHand _ _ _ was
      have differs : Task.forwarder join index ≠ task := by
        rintro rfl
        simp [was, stands] at idle
      exact ⟨own, reads, next, by simpa [State.finish, State.setReader, differs] using stands⟩
  | @missed task _ next count =>
      obtain ⟨own, reads, subscribed⟩ := inHand _ _ _ sending
      refine ⟨own, reads, ?_⟩
      by_cases same : Task.forwarder join index = task
      · exact ⟨next + count, by simp [State.setReader, same]⟩
      · simpa [State.setReader, same] using subscribed
  | absorbed | derived =>
      obtain ⟨own, reads, next, stands⟩ := inHand _ _ _ sending
      exact ⟨own, reads, next, by simpa [State.setReader, State.setState, State.write]
        using stands⟩
  | @forwarded join' index' input next passed _ reads =>
      by_cases same : Task.forwarder join index = .forwarder join' index'
      · cases same
        obtain rfl : _ = trigger := by simpa [State.setSending] using sending
        exact ⟨rfl, ⟨input, reads⟩, next + (passed + 1),
          by simp [State.setSending, State.setReader]⟩
      · obtain ⟨own, reads', next', stands⟩ :=
          inHand join index trigger (by simpa [State.setSending, State.setReader, same]
            using sending)
        exact ⟨own, reads', next', by simpa [State.setSending, State.setReader, same]
          using stands⟩
  | @refused join' index' =>
      by_cases same : Task.forwarder join index = .forwarder join' index'
      · simp [State.setSending, State.finish, State.setReader, same] at sending
      · obtain ⟨own, reads, next, stands⟩ := inHand join index trigger
          (by simpa [State.setSending, State.finish, State.setReader, same] using sending)
        exact ⟨own, reads, next,
          by simpa [State.setSending, State.finish, State.setReader, same] using stands⟩
  | @queued join' index' =>
      by_cases same : Task.forwarder join index = .forwarder join' index'
      · simp [State.setSending, State.setQueue, same] at sending
      · obtain ⟨own, reads, next, stands⟩ :=
          inHand join index trigger (by simpa [State.setSending, State.setQueue, same]
            using sending)
        exact ⟨own, reads, next, stands⟩
  | wrote | waits | received | queueClosed | exited =>
      obtain ⟨own, reads, next, stands⟩ := inHand _ _ _ sending
      exact ⟨own, reads, next, stands⟩

theorem Moves.kept (moves : Moves config s after emits)
    (inHand : ∀ join index trigger, s.sending (.forwarder join index) = some trigger →
      Held config s join index trigger)
    (kept : s.exited join = false →
      ofInput index (queuedOf join log) ++ (s.sending (.forwarder join index)).toList =
        forwardedOf join index log)
    (alive : after.exited join = false) :
    ofInput index (queuedOf join (log ++ emits)) ++ (after.sending (.forwarder join index)).toList =
      forwardedOf join index (log ++ emits) := by
  cases moves with
  | @missed task =>
      by_cases same : task = .forwarder join index
      · simpa [State.setReader, forwardedOf, Event.queued?, Event.reading?, Reading.entry?, same]
          using kept alive
      · simpa [State.setReader, forwardedOf, Event.queued?, Event.reading?, same] using kept alive
  | @forwarded join' index' _ _ _ _ _ _ idle =>
      by_cases same : Task.forwarder join' index' = .forwarder join index
      · cases same
        have was := kept alive
        rw [idle, Option.toList_none, List.append_nil] at was
        simp [State.setSending, Event.queued?, was, forwardedOf, Event.reading?, Reading.entry?,
          triggerOf]
      · simpa [State.setSending, State.setReader, Event.queued?, forwardedOf, Event.reading?, same,
          Ne.symm same] using kept alive
  | @refused join' index' _ _ exited =>
      have differs : join ≠ join' := by
        rintro rfl
        exact Bool.false_ne_true (alive.symm.trans exited)
      simpa [State.setSending, State.finish, State.setReader, Event.queued?, forwardedOf,
        Event.reading?, differs] using kept alive
  | @queued join' index' trigger sending =>
      by_cases same : join' = join
      · subst same
        have own := (inHand _ _ _ sending).own
        by_cases this : index' = index
        · subst this
          have was := kept alive
          rw [sending] at was
          simpa [State.setSending, State.setQueue, Event.queued?, forwardedOf, Event.reading?,
            ofInput_singleton own] using was
        · simpa [State.setSending, State.setQueue, Event.queued?, forwardedOf, Event.reading?,
            ofInput_other (own.trans_ne this), Ne.symm this] using kept alive
      · simpa [State.setSending, State.setQueue, Event.queued?, forwardedOf, Event.reading?, same,
          Ne.symm same] using kept alive
  | @exited join' _ =>
      have differs : join ≠ join' := by
        rintro rfl
        simp at alive
      simpa [differs] using kept (by simpa [differs] using alive)
  | _ =>
      simpa [State.write, State.setReader, State.setState, State.setQueue, State.finish,
        Event.queued?, forwardedOf, Event.reading?] using kept alive

theorem Moves.queuedOf_exited (moves : Moves config s after emits)
    (exited : after.exited join = true) :
    queuedOf join emits = [] := by
  cases moves with
  | @queued other _ _ _ alive =>
      have differs : other ≠ join := by
        rintro rfl
        exact Bool.false_ne_true (alive.symm.trans exited)
      simp [Event.queued?, differs]
  | _ => simp [Event.queued?]

theorem Moves.gone (moves : Moves config s after emits) {task : Task}
    (gone : s.readers task = .gone) :
    after.readers task = .gone ∧ readings task emits = [] := by
  cases moves with
  | @subscribed other _ _ _ stands | @missed other _ _ _ _ stands =>
      have differs : task ≠ other := by
        rintro rfl
        simp [gone] at stands
      simpa [State.setReader, differs, Ne.symm differs, Event.reading?] using gone
  | @absorbed transform _ _ _ _ _ _ _ _ stands | @derived transform _ _ _ _ _ _ _ _ _ stands =>
      have differs : task ≠ .transform transform := by
        rintro rfl
        simp [gone] at stands
      simpa [State.setReader, State.setState, State.write, differs, Ne.symm differs, Event.reading?]
        using gone
  | @forwarded join index _ _ _ _ _ stands =>
      have differs : task ≠ .forwarder join index := by
        rintro rfl
        simp [gone] at stands
      simpa [State.setReader, State.setSending, differs, Ne.symm differs, Event.reading?] using gone
  | @finished other =>
      by_cases same : task = other
      · simp [State.finish, State.setReader, same, Event.reading?]
      · simpa [State.finish, State.setReader, same, Event.reading?] using gone
  | @refused join index =>
      by_cases same : task = .forwarder join index
      · simp [State.finish, State.setReader, same, Event.reading?]
      · simpa [State.finish, State.setReader, State.setSending, same, Event.reading?] using gone
  | _ => simpa [State.write, State.setSending, State.setQueue, Event.reading?] using gone

/-- A drained queue stays empty: nobody is left to fill it. -/
theorem Moves.drained (moves : Moves config s after emits) {configured : Join}
    (is_configured : config.joins[join]? = some configured)
    (inHand : ∀ join index trigger, s.sending (.forwarder join index) = some trigger →
      Held config s join index trigger)
    (drained : Drained s log join configured.inputs) :
    Drained after (log ++ emits) join configured.inputs := by
  have queue : after.queue join = [] ∧ receivedOf join emits = [] := by
    cases moves with
    | @queued join' index trigger sending =>
        have differs : join' ≠ join := by
          rintro rfl
          obtain ⟨-, ⟨input, reads⟩, next, stands⟩ := inHand _ _ _ sending
          rw [Config.input, is_configured, Option.bind_some] at reads
          have within : index < configured.inputs.length := (List.getElem?_eq_some_iff.mp reads).1
          cases stands.symm.trans (drained.allGone index within)
        simpa [State.setQueue, State.setSending, Event.received?, Ne.symm differs]
          using drained.empty
    | @received join' _ _ _ queued =>
        have differs : join' ≠ join := by
          rintro rfl
          cases queued.symm.trans drained.empty
        simpa [State.setQueue, Event.received?, differs, Ne.symm differs] using drained.empty
    | _ =>
        simpa [State.write, State.setReader, State.setState, State.setSending, State.finish,
          Event.received?] using drained.empty
  refine ⟨fun index within => (moves.gone (drained.allGone index within)).1, queue.1, ?_⟩
  intro index within
  have quiet := (moves.gone (drained.allGone index within)).2
  rw [receivedOf_append, queue.2, List.append_nil, drained.all index within, forwardedOf_append]
  simp [forwardedOf, quiet]

theorem Moves.closes (moves : Moves config s after emits) (closes : .queueClosed join ∈ emits) :
    after = s ∧ emits = [.queueClosed join] ∧ s.exited join = false ∧ s.queue join = [] ∧
      ∃ configured, config.joins[join]? = some configured ∧
      s.AllGone join configured.inputs := by
  cases moves with
  | @queueClosed other configured is_configured alive empty gone =>
      cases List.mem_singleton.mp closes
      exact ⟨rfl, rfl, alive, empty, configured, is_configured, gone⟩
  | _ => simp at closes

theorem fed_start : Fed config (start config) ([] : List (Event T)) where
  bounded _ := Nat.zero_le _
  ordered _ := rfl
  inHand _ _ _ sending := nomatch sending
  kept _ _ _ := rfl
  handed _ _ := List.prefix_refl _
  closed _ _ _ mem := (List.not_mem_nil mem).elim

theorem Fed.step {input : Input T} (started : Started config s) (fed : Fed config s log)
    (stepped : step config s input = some (after, emits)) : Fed config after (log ++ emits) := by
  have moves := moves_of_step started stepped
  have kept : ∀ join index, after.exited join = false →
      ofInput index (queuedOf join (log ++ emits)) ++
        (after.sending (.forwarder join index)).toList = forwardedOf join index (log ++ emits) :=
    fun join index => moves.kept fed.inHand (fed.kept join index)
  constructor
  · exact fun join => moves.bounded (fed.bounded join)
  · exact fun join => moves.ordered (fed.ordered join)
  · exact fun join index trigger => moves.inHand fed.inHand
  · exact kept
  · intro join index
    cases exited : after.exited join with
    | false => exact ⟨_, kept join index exited⟩
    | true =>
        rw [queuedOf_append, moves.queuedOf_exited exited, List.append_nil, forwardedOf_append]
        exact (fed.handed join index).trans (List.prefix_append _ _)
  · intro join configured is_configured mem
    rcases List.mem_append.mp mem with old | new
    · exact moves.drained is_configured fed.inHand (fed.closed join configured is_configured old)
    · obtain ⟨rfl, rfl, alive, empty, other, is_other, gone⟩ := moves.closes new
      cases is_configured.symm.trans is_other
      refine moves.drained is_configured fed.inHand ⟨gone, empty, ?_⟩
      intro index within
      have idle : after.sending (.forwarder join index) = none := by
        cases sending : after.sending (.forwarder join index) with
        | none => rfl
        | some trigger =>
            obtain ⟨-, -, next, stands⟩ := fed.inHand _ _ _ sending
            cases stands.symm.trans (gone index within)
      have all := fed.kept join index alive
      have order := fed.ordered join
      rw [empty, List.append_nil] at order
      rwa [idle, Option.toList_none, List.append_nil, ← order] at all

theorem fed_of_runs (reached : Runs config s log) : Fed config s log :=
  reached.invariant _ fed_start fun reached _ stepped fed =>
    fed.step (fun transform single configured =>
      ⟨_, (kept_of_runs reached).settled transform single configured⟩) stepped

structure Relayed (config : Config T S) (s : State T S) (log : List (Event T))
    (join index input : ℕ) :
    Prop where
  follows : Progress (s.written input) (joins (.forwarder join index) log)
    (readings (.forwarder join index) log) (s.readers (.forwarder join index))
  bounded : (s.queue join).length ≤ config.joinQueueCapacity
  ordered : receivedOf join log ++ s.queue join = queuedOf join log
  handed : ofInput index (receivedOf join log) <+: forwardedOf join index log
  /-- While the handler runs nothing that was read is lost. -/
  kept : s.exited join = false →
    ofInput index (receivedOf join log ++ s.queue join) ++
      (s.sending (.forwarder join index)).toList = forwardedOf join index log
  /-- `recv` fails only once every input has ended and all its triggers were taken. -/
  closed : .queueClosed join ∈ log → s.readers (.forwarder join index) = .gone ∧
    ofInput index (receivedOf join log) = forwardedOf join index log

theorem join_relays (reached : Runs config s log) {configured : Join} {input : ℕ}
    (is_configured : config.joins[join]? = some configured)
    (has_input : configured.inputs[index]? = some input) :
    Relayed config s log join index input := by
  have fed := fed_of_runs reached
  have reads : config.input (.forwarder join index) = some input := by
    rw [Config.input, is_configured, Option.bind_some, has_input]
  have within : index < configured.inputs.length := (List.getElem?_eq_some_iff.mp has_input).1
  constructor
  · exact (kept_of_runs reached).progress _ _ reads
  · exact fed.bounded join
  · exact fed.ordered join
  · apply List.IsPrefix.trans _ (fed.handed join index)
    rw [← fed.ordered join, ofInput_append]
    exact List.prefix_append _ _
  · intro alive
    rw [fed.ordered join]
    exact fed.kept join index alive
  · intro told
    obtain ⟨gone, -, all⟩ := fed.closed join configured is_configured told
    exact ⟨gone index within, all index within⟩

def pairing : Config ℕ Unit := ⟨[], [⟨[0, 1], 2⟩], false⟩

private def paired : List (Input ℕ) :=
  [.subscribe (.forwarder 0 0) (some 0), .subscribe (.forwarder 0 1) (some 0),
    .produce 0 ⟨1, ⟨10⟩⟩, .produce 1 ⟨7, ⟨11⟩⟩, .produce 1 ⟨8, ⟨12⟩⟩,
    .recv (.forwarder 0 1) (.lagged 1) 0, .recv (.forwarder 0 0) (.sample 0) 0,
    .recv (.forwarder 0 1) (.sample 0) 0, .send 0 1, .send 0 0, .recvTrigger 0,
    .recv (.forwarder 0 0) .failed 0, .recv (.forwarder 0 1) .failed 0, .recvTrigger 0,
    .recvTrigger 0]

/-- A lag of the second input costs it one value, and the join nothing else. -/
theorem join_relays_paired : ∃ s log, Runs pairing s log ∧ .queueClosed 0 ∈ log ∧
    ofInput 1 (receivedOf 0 log) = [⟨1, 8, ⟨12⟩⟩] := by
  have replayed : (replay (step pairing) (start pairing) paired).any (fun run =>
      .queueClosed 0 ∈ run.2 ∧ forwardedOf 0 1 run.2 = [⟨1, 8, ⟨12⟩⟩]) = true := by
    decide
  obtain ⟨⟨s, log⟩, run, told⟩ := (Option.any_eq_true _ _).mp replayed
  obtain ⟨closed, forwarded⟩ := of_decide_eq_true told
  have reached : Runs pairing s log := reachable_of_replay run
  have relayed := @join_relays _ _ _ _ _ 0 1 reached ⟨[0, 1], 2⟩ 1 rfl rfl
  exact ⟨s, log, reached, closed, (relayed.closed closed).2.trans forwarded⟩

end AimDb.Transform
