import AimDb.Session.Client.Custody
import AimDb.Session.Client.Sink
import Mathlib.Algebra.BigOperators.Group.List.Basic

/-!
# The life of a subscription at the client

The command of a subscription is used up where its stream is routed, and the
server is then asked for it at most once.  Until then nothing is routed under its
key and nothing was delivered to its stream.  A delivery tells of the value of a
frame and of the loss since the delivery before it.
-/

namespace AimDb.Session.Client

open AimDb.Json AimDb.Transition

variable {codec : EnvelopeCodec} {config : ClientConfig} {platform : Platform} {s after : State}
  {input : Input} {log emitted : List Record}

def Record.asks (id : UInt64) : Record → Bool
  | .sent _ (.subscribe other _) => other = id
  | _ => false

def asked (id : UInt64) (log : List Record) : ℕ := log.countP (Record.asks id)

/-- What is routed under a key goes on as it was, or is over. -/
def Continues (s after : State) (key : String) : Prop :=
  after.subs.lookup key = s.subs.lookup key ∧ after.lastSeq.lookup key = s.lastSeq.lookup key ∨
    after.subs.lookup key = none ∧ after.lastSeq.lookup key = none

inductive Asks (s after : State) (emitted : List Record) : Prop
  | aside :
      (∀ record ∈ emitted, ∀ id, record.asks id = false) →
      (∀ stream seq update, .delivered stream seq update ∉ emitted) →
      (∀ id topic, after.engine = .sending (.subscribe id topic) →
        s.engine = .sending (.subscribe id topic)) →
      (∀ key, Continues s after key) → Asks s after emitted
  | delivered {key : String} {stream : ℕ} {seq : UInt64} {update : SubUpdate} :
      s.subs.lookup key = some stream →
      update.skipped = saturatingSub seq (saturatingAdd ((s.lastSeq.lookup key).getD 0) 1) →
      after = s.push key stream seq update → emitted = [.delivered stream seq update] →
      Asks s after emitted
  | routed {id : UInt64} {topic : String} {stream : ℕ} :
      s.engine = .took (.subscribe id topic stream) →
      after = { s with
        subs := s.subs.insert (subKey id) stream
        engine := .sending (.subscribe id topic) } →
      emitted = [] → Asks s after emitted
  | asked {id : UInt64} {topic : String} :
      s.engine = .sending (.subscribe id topic) → after = { s with engine := .parked } →
      emitted = [.sent s.epoch (.subscribe id topic)] → Asks s after emitted

theorem continues_of_same {key : String} (subs : after.subs = s.subs)
    (lastSeq : after.lastSeq = s.lastSeq) : Continues s after key :=
  .inl ⟨by rw [subs], by rw [lastSeq]⟩

theorem continues_of_erase {sub : String} (subs : after.subs = s.subs.erase sub)
    (lastSeq : after.lastSeq = s.lastSeq.erase sub) (key : String) : Continues s after key := by
  rw [Continues, subs, lastSeq]
  by_cases own : key = sub
  · subst own
    exact .inr ⟨AList.lookup_erase _ _, AList.lookup_erase _ _⟩
  · exact .inl ⟨AList.lookup_erase_ne own, AList.lookup_erase_ne own⟩

/-- A step that neither routes nor says anything about a subscription. -/
theorem asks_quiet (unasked : ∀ record ∈ emitted, ∀ id, record.asks id = false)
    (undelivered : ∀ stream seq update, .delivered stream seq update ∉ emitted)
    (engine : after.engine = s.engine ∨
      ∀ id topic, after.engine ≠ .sending (.subscribe id topic))
    (subs : after.subs = s.subs) (lastSeq : after.lastSeq = s.lastSeq) : Asks s after emitted := by
  refine .aside unasked undelivered ?_ fun _ => continues_of_same subs lastSeq
  intro id topic sending
  rcases engine with same | other
  · rw [← same]
    exact sending
  · exact absurd sending (other id topic)

theorem asks_dropped (engine : after.engine = .dialing ∨ after.engine = .leaving)
    (subs : after.subs = ∅) (lastSeq : after.lastSeq = ∅) : Asks s after [] := by
  refine .aside (by simp) (by simp) ?_ fun key => .inr ⟨by rw [subs]; rfl, by rw [lastSeq]; rfl⟩
  intro id topic sending
  rcases engine with ended | ended <;> rw [ended] at sending <;> cases sending

theorem asks_endSub (sub : String) (err : RpcError)
    (unasked : ∀ record ∈ emitted, ∀ id, record.asks id = false)
    (undelivered : ∀ stream seq update, .delivered stream seq update ∉ emitted) :
    Asks s (s.endSub sub err) emitted := by
  rcases endSub_cases s sub err with same | ⟨_, _, _, _, ended⟩
  · rw [same]
    exact asks_quiet unasked undelivered (.inl rfl) rfl rfl
  · rw [ended]
    exact .aside unasked undelivered (fun _ _ => id) (continues_of_erase rfl rfl)

theorem asks_deliver (sub : String) (seq : UInt64) (update : SubUpdate) (mode : Delivery) :
    Asks s (s.deliver sub seq update mode).1 (s.deliver sub seq update mode).2 := by
  rcases deliver_cases s sub seq update mode with
    same | unrouted | ⟨stream, delivered, found, _, skipped, pushed⟩
  · rw [same]
    exact asks_quiet (by simp) (by simp) (.inl rfl) rfl rfl
  · rw [unrouted]
    exact .aside (by simp) (by simp) (fun _ _ => id) (continues_of_erase rfl rfl)
  · rw [pushed]
    exact .delivered found skipped rfl rfl

theorem Took.asks (took : Took codec config platform s input after emitted) :
    Asks s after emitted := by
  cases took with
  | called => exact asks_quiet (by simp) (by simp) (.inl rfl) rfl rfl
  | unnumbered => exact asks_quiet (by simp [Record.asks]) (by simp) (.inl rfl) rfl rfl
  | subscribed => exact asks_quiet (by simp) (by simp) (.inl rfl) rfl rfl
  | wrote => exact asks_quiet (by simp) (by simp) (.inl rfl) rfl rfl
  | enqueued =>
      obtain ⟨calls, eq⟩ := State.proceed_eq _ _
      rw [eq]
      exact asks_quiet (by simp) (by simp) (.inl rfl) rfl rfl
  | evicting =>
      obtain ⟨calls, eq⟩ := State.proceed_eq _ _
      rw [eq]
      exact asks_quiet (by simp) (by simp) (.inl rfl) rfl rfl
  | @failed index cmd =>
      obtain ⟨calls, streams, eq⟩ :=
        State.fail_eq { s with enqueuing := s.enqueuing.eraseIdx index } cmd
      rw [eq]
      cases cmd <;>
        exact asks_quiet (by simp [State.fail, Record.asks]) (by simp [State.fail])
          (.inl rfl) rfl rfl
  | degraded => exact asks_quiet (by simp) (by simp) (.inl rfl) rfl rfl
  | displaced =>
      obtain ⟨calls, eq⟩ := State.discard_eq _ _
      rw [eq]
      exact asks_quiet (by simp) (by simp) (.inl rfl) rfl rfl
  | resolved => exact asks_quiet (by simp [Record.asks]) (by simp) (.inl rfl) rfl rfl
  | abandoned => exact asks_quiet (by simp) (by simp) (.inl rfl) rfl rfl
  | cancelled => exact asks_quiet (by simp) (by simp) (.inl rfl) rfl rfl
  | refused => exact asks_quiet (by simp) (by simp) (.inl rfl) rfl rfl
  | requested => exact asks_quiet (by simp) (by simp) (.inl rfl) rfl rfl
  | handed => exact asks_quiet (by simp [Record.asks]) (by simp) (.inl rfl) rfl rfl
  | unlistened => exact asks_quiet (by simp) (by simp) (.inl rfl) rfl rfl
  | ignored => exact asks_quiet (by simp) (by simp) (.inl rfl) rfl rfl
  | dialed _ phase =>
      refine asks_quiet (by simp [Record.asks]) (by simp) (.inr ?_) rfl rfl
      rcases phase with rfl | rfl <;> simp
  | redialing => exact asks_quiet (by simp) (by simp) (.inl rfl) rfl rfl
  | greeted => exact asks_quiet (by simp [Record.asks]) (by simp) (.inr (by simp)) rfl rfl
  | welcomed => exact asks_quiet (by simp) (by simp) (.inr (by simp)) rfl rfl
  | pinging => exact asks_quiet (by simp) (by simp) (.inr (by simp)) rfl rfl
  | lost _ _ outcome => exact asks_dropped outcome rfl rfl
  | unsent _ outcome => exact asks_dropped outcome rfl rfl
  | left => exact asks_dropped (.inr rfl) rfl rfl
  | @sent message sending =>
      cases message with
      | subscribe id topic => exact .asked sending rfl rfl
      | request | unsubscribe | write | ping =>
          exact asks_quiet (by simp [Record.asks]) (by simp) (.inr (by simp)) rfl rfl
  | @answered _ id result =>
      obtain ⟨calls, pending, taken⟩ := s.removePending_eq id (.sent result)
      rw [taken]
      exact asks_quiet (by simp [Record.asks]) (by simp) (.inl rfl) rfl rfl
  | declined => exact asks_endSub _ _ (by simp [Record.asks]) (by simp)
  | unmatched => exact asks_quiet (by simp [Record.asks]) (by simp) (.inl rfl) rfl rfl
  | delivered => exact asks_deliver _ _ _ _
  | broken => exact asks_endSub _ _ (by simp) (by simp)
  | pruning => exact asks_quiet (by simp) (by simp) (.inr (by simp)) rfl rfl
  | took => exact asks_quiet (by simp) (by simp) (.inr (by simp)) rfl rfl
  | @filed id =>
      unfold State.insertPending
      obtain ⟨calls, pending, taken⟩ := s.removePending_eq id .dropped
      rw [taken]
      exact asks_quiet (by simp) (by simp) (.inr (by simp [State.send])) rfl rfl
  | forgotten => exact asks_quiet (by simp) (by simp) (.inr (by simp)) rfl rfl
  | @cancelling id =>
      obtain ⟨calls, pending, taken⟩ := s.removePending_eq id .dropped
      rw [taken]
      exact asks_quiet (by simp) (by simp) (.inr (by simp)) rfl rfl
  | subscribing holding => exact .routed holding rfl rfl
  | writing => exact asks_quiet (by simp) (by simp) (.inr (by simp)) rfl rfl
  | swept => exact asks_quiet (by simp) (by simp) (.inr (by simp)) rfl rfl
  | spared => exact asks_quiet (by simp) (by simp) (.inr (by simp)) rfl rfl
  | @reclaimed id =>
      obtain ⟨calls, pending, taken⟩ := s.removePending_eq id .dropped
      rw [taken]
      exact asks_quiet (by simp) (by simp) (.inr (by simp)) rfl rfl
  | closed => exact asks_quiet (by simp) (by simp) (.inr (by simp)) rfl rfl
  | drained =>
      obtain ⟨calls, eq⟩ := State.discard_eq _ _
      rw [eq]
      exact asks_quiet (by simp) (by simp) (.inl rfl) rfl rfl
  | halted => exact asks_quiet (by simp) (by simp) (.inr (by simp)) rfl rfl

@[simp] theorem asked_append (id : UInt64) (log more : List Record) :
    asked id (log ++ more) = asked id log + asked id more := List.countP_append

theorem asked_eq_zero {id : UInt64}
    (unasked : ∀ record ∈ emitted, ∀ id, record.asks id = false) :
    asked id emitted = 0 := by
  rw [asked, List.countP_eq_zero]
  intro record mem
  rw [unasked record mem id]
  exact Bool.false_ne_true

/-- What is still a command has done nothing, and what is being asked for was not. -/
structure Subscribing (s : State) (log : List Record) : Prop where
  commanded : ∀ {id topic stream}, .subscribe id topic stream ∈ s.commands →
    asked id log = 0 ∧ (∀ topic, s.engine ≠ .sending (.subscribe id topic)) ∧
      s.subs.lookup (subKey id) = none ∧ ∀ seq update, .delivered stream seq update ∉ log
  asking : ∀ {id topic}, s.engine = .sending (.subscribe id topic) →
    asked id log = 0 ∧ ∃ stream, (s.streams stream).id = some id
  once : ∀ {id}, asked id log ≠ 0 →
    asked id log = 1 ∧ ∃ stream, (s.streams stream).id = some id
  delivered : ∀ {stream seq update}, .delivered stream seq update ∈ log →
    ∃ id, (s.streams stream).id = some id
  cursors : ∀ {key}, s.subs.lookup key = none → s.lastSeq.lookup key = none

namespace Subscribing

/-- A step that leaves subscriptions alone keeps what its commands keep. -/
theorem aside (subscribing : Subscribing s log)
    (unasked : ∀ record ∈ emitted, ∀ id, record.asks id = false)
    (delivered : ∀ stream seq update, .delivered stream seq update ∈ emitted →
      ∃ key, s.subs.lookup key = some stream)
    (engine : ∀ id topic, after.engine = .sending (.subscribe id topic) →
      s.engine = .sending (.subscribe id topic))
    (subs : ∀ key stream, after.subs.lookup key = some stream → s.subs.lookup key = some stream)
    (cursors : ∀ {key}, after.subs.lookup key = none → after.lastSeq.lookup key = none)
    (ids : Ids s)
    (streamIds : ∀ stream id, (s.streams stream).id = some id →
      (after.streams stream).id = some id)
    (commands : ∀ id topic stream, .subscribe id topic stream ∈ after.commands →
      .subscribe id topic stream ∈ s.commands ∨
        (∀ stream, (s.streams stream).id ≠ some id) ∧ (s.streams stream).id = none) :
    Subscribing after (log ++ emitted) where
  commanded {id topic stream} mem := by
    rw [asked_append, asked_eq_zero unasked, Nat.add_zero]
    rcases commands id topic stream mem with old | ⟨fresh, unopened⟩
    · obtain ⟨never, unsent, unrouted, undelivered⟩ := subscribing.commanded old
      refine ⟨never, fun topic sending => unsent topic (engine id topic sending), ?_, ?_⟩
      · rw [← Option.not_isSome_iff_eq_none, Option.isSome_iff_exists]
        rintro ⟨other, found⟩
        rw [subs _ _ found] at unrouted
        cases unrouted
      · intro seq update mem
        rcases List.mem_append.mp mem with old | new
        · exact undelivered seq update old
        · obtain ⟨key, found⟩ := delivered _ _ _ new
          obtain ⟨own, has, rfl⟩ := ids.routed found
          have same : some own = some id := has.symm.trans (ids.named _ old)
          rw [Option.some.inj same, unrouted] at found
          cases found
    · refine ⟨?_, fun topic sending => ?_, ?_, ?_⟩
      · by_contra told
        obtain ⟨-, stream, has⟩ := subscribing.once told
        exact fresh stream has
      · obtain ⟨-, stream, has⟩ := subscribing.asking (engine id topic sending)
        exact fresh stream has
      · rw [← Option.not_isSome_iff_eq_none, Option.isSome_iff_exists]
        rintro ⟨other, found⟩
        obtain ⟨own, has, same⟩ := ids.routed (subs _ _ found)
        rw [subKey_injective same] at fresh
        exact fresh _ has
      · intro seq update mem
        rcases List.mem_append.mp mem with old | new
        · obtain ⟨own, has⟩ := subscribing.delivered old
          rw [unopened] at has
          cases has
        · obtain ⟨key, found⟩ := delivered _ _ _ new
          obtain ⟨own, has, -⟩ := ids.routed found
          rw [unopened] at has
          cases has
  asking {id topic} sending := by
    rw [asked_append, asked_eq_zero unasked, Nat.add_zero]
    obtain ⟨never, stream, has⟩ := subscribing.asking (engine id topic sending)
    exact ⟨never, stream, streamIds stream id has⟩
  once {id} told := by
    rw [asked_append, asked_eq_zero unasked, Nat.add_zero] at told ⊢
    obtain ⟨one, stream, has⟩ := subscribing.once told
    exact ⟨one, stream, streamIds stream id has⟩
  delivered {stream seq update} mem := by
    rcases List.mem_append.mp mem with old | new
    · obtain ⟨id, has⟩ := subscribing.delivered old
      exact ⟨id, streamIds stream id has⟩
    · obtain ⟨key, found⟩ := delivered _ _ _ new
      obtain ⟨id, has, -⟩ := ids.routed found
      exact ⟨id, streamIds stream id has⟩
  cursors := cursors

theorem route (subscribing : Subscribing s log) (ids : Ids s) (custody : Custody s) {id : UInt64}
    {topic : String} {stream : ℕ} (holding : s.engine = .took (.subscribe id topic stream)) :
    Subscribing
      { s with
        subs := s.subs.insert (subKey id) stream
        engine := .sending (.subscribe id topic) } log := by
  have held : .subscribe id topic stream ∈ s.commands := by
    simp [State.commands, holding, Engine.hand]
  have named : (s.streams stream).id = some id := ids.named _ held
  have left {other topic' stream'} (mem : ClientCmd.subscribe other topic' stream' ∈
      s.enqueuing ++ s.queue ++ s.evicted ++ []) :
      .subscribe other topic' stream' ∈ s.commands ∧ other ≠ id := by
    rw [List.append_nil] at mem
    refine ⟨List.mem_append_left _ mem, ?_⟩
    rintro rfl
    have once := custody.once named
    have another : 0 < (s.enqueuing ++ s.queue ++ s.evicted).countP
        fun cmd => cmd.opens = some other :=
          List.countP_pos_iff.mpr ⟨_, mem, by simp [ClientCmd.opens]⟩
    rw [State.openings, State.commands, List.countP_append, holding, Engine.hand,
      List.countP_singleton, if_pos (by simp [ClientCmd.opens])] at once
    omega
  constructor
  · intro other topic' stream' mem
    obtain ⟨was, differs⟩ := left mem
    obtain ⟨never, -, unrouted, undelivered⟩ := subscribing.commanded was
    refine ⟨never, ?_, ?_, undelivered⟩
    · intro topic'' same
      cases same
      exact differs rfl
    · rw [AList.lookup_insert_ne (subKey_injective.ne differs)]
      exact unrouted
  · intro other topic' sending
    cases sending
    exact ⟨(subscribing.commanded held).1, stream, named⟩
  · exact subscribing.once
  · exact subscribing.delivered
  · intro key unrouted
    by_cases own : key = subKey id
    · rw [own, AList.lookup_insert] at unrouted
      cases unrouted
    · rw [AList.lookup_insert_ne own] at unrouted
      exact subscribing.cursors unrouted

theorem ask (subscribing : Subscribing s log) {id : UInt64} {topic : String}
    (sending : s.engine = .sending (.subscribe id topic)) :
    Subscribing { s with engine := .parked } (log ++ [.sent s.epoch (.subscribe id topic)]) := by
  obtain ⟨never, stream, has⟩ := subscribing.asking sending
  have adds (other : UInt64) :
      asked other [.sent s.epoch (.subscribe id topic)] = if id = other then 1 else 0 := by
    simp [asked, Record.asks, List.countP_singleton]
  have commands : { s with engine := .parked }.commands = s.commands := by
    simp [State.commands, sending, Engine.hand]
  constructor
  · intro other topic' stream' mem
    rw [commands] at mem
    obtain ⟨unasked, unsent, unrouted, undelivered⟩ := subscribing.commanded mem
    have differs : id ≠ other := fun same => unsent topic (same ▸ sending)
    rw [asked_append, adds, if_neg differs]
    exact ⟨unasked, by simp, unrouted, by simpa using undelivered⟩
  · intro other topic' sends
    cases sends
  · intro other told
    rw [asked_append, adds] at told ⊢
    by_cases same : id = other
    · subst same
      rw [never, if_pos rfl]
      exact ⟨rfl, stream, has⟩
    · rw [if_neg same, Nat.add_zero] at told ⊢
      exact subscribing.once told
  · intro stream' seq update mem
    exact subscribing.delivered (by simpa using mem)
  · exact subscribing.cursors

end Subscribing

theorem Numbers.commands (numbers : Numbers platform s after) (ids : Ids s)
    (unopened : ∀ stream, s.opened ≤ stream → (s.streams stream).id = none) :
    (∀ stream id, (s.streams stream).id = some id → (after.streams stream).id = some id) ∧
      ∀ id topic stream, .subscribe id topic stream ∈ after.commands →
        .subscribe id topic stream ∈ s.commands ∨
          (∀ stream, (s.streams stream).id ≠ some id) ∧ (s.streams stream).id = none := by
  cases numbers with
  | call =>
      refine ⟨fun _ _ => id, fun id topic stream mem => ?_⟩
      rcases mem_commands_enqueuing.mp mem with old | new
      · exact .inl old
      · cases new
  | refusal => exact ⟨fun _ _ => id, fun _ _ _ => .inl⟩
  | subscription numbered =>
      refine ⟨fun stream id has => (congrArg Stream.id (ids.old_stream has _)).trans has,
        fun id topic stream mem => ?_⟩
      rcases mem_commands_enqueuing.mp mem with old | new
      · exact .inl old
      · cases new
        exact .inr ⟨(ids.fresh numbered).2.2.2, unopened _ (Nat.le_refl _)⟩

theorem commands_of_took (ids : Ids s) (custody : Custody s)
    (took : Took codec config platform s input after emitted) :
    (∀ stream id, (s.streams stream).id = some id → (after.streams stream).id = some id) ∧
      ∀ id topic stream, .subscribe id topic stream ∈ after.commands →
        .subscribe id topic stream ∈ s.commands ∨
          (∀ stream, (s.streams stream).id ≠ some id) ∧ (s.streams stream).id = none := by
  rcases took.effect ids custody with numbers | ⟨made, lost, effect⟩
  · refine numbers.commands ids fun stream above => ?_
    rw [← Option.not_isSome_iff_eq_none, Option.isSome_iff_exists]
    rintro ⟨id, has⟩
    exact absurd (ids.stream_lt has).2 (Nat.not_lt.mpr above)
  · refine ⟨fun stream id has => by rw [effect.streamIds]; exact has,
      fun id topic stream mem => ?_⟩
    have moved := effect.commands.mem_iff.mpr (List.mem_append_left lost mem)
    rcases List.mem_append.mp moved with old | new
    · exact .inl old
    · cases effect.unopened _ new

theorem Subscribing.took (subscribing : Subscribing s log) (ids : Ids s) (custody : Custody s)
    (took : Took codec config platform s input after emitted) :
    Subscribing after (log ++ emitted) := by
  obtain ⟨streamIds, commands⟩ := commands_of_took ids custody took
  cases took.asks with
  | routed holding same none =>
      subst same none
      rw [List.append_nil]
      exact subscribing.route ids custody holding
  | asked sending same told =>
      subst same told
      exact subscribing.ask sending
  | aside unasked undelivered engine continues =>
      refine subscribing.aside unasked (fun _ _ _ mem => absurd mem (undelivered _ _ _)) engine
        ?_ ?_ ids streamIds commands
      · intro key stream found
        rcases continues key with ⟨same, -⟩ | ⟨ended, -⟩
        · rw [← same]
          exact found
        · rw [ended] at found
          cases found
      · intro key unrouted
        rcases continues key with ⟨same, cursor⟩ | ⟨-, ended⟩
        · rw [same] at unrouted
          rw [cursor]
          exact subscribing.cursors unrouted
        · exact ended
  | @delivered key stream seq update found skipped same told =>
      subst same told
      refine subscribing.aside (by simp [Record.asks]) ?_ (fun _ _ => id) (fun _ _ => id) ?_ ids
        streamIds commands
      · intro other number update mem
        cases List.mem_singleton.mp mem
        exact ⟨key, found⟩
      · intro other unrouted
        have differs : other ≠ key := fun own => by
          rw [own, State.push, found] at unrouted
          cases unrouted
        rw [State.push, AList.lookup_insert_ne differs]
        exact subscribing.cursors unrouted

theorem subscribing_of_runs {allowed : State → Input → Prop}
    (reached : Runs codec config platform allowed s log) : Subscribing s log := by
  refine reached.invariant Subscribing ?_ ?_
  · constructor <;> simp [State.commands, Engine.hand, asked]
  · intro state log input after emitted reached _ stepped subscribing
    obtain ⟨ids, custody⟩ := custody_of_runs reached
    exact subscribing.took ids custody (took_of_step stepped)

inductive Carries (key : String) (seq : UInt64) (update : SubUpdate) : Outbound → Prop
  | event : update.snapshotEnd = false →
      Carries key seq update (.event key seq update.topic update.ts update.data)
  | snapshot {topic : String} : update.topic = some topic →
      Carries key seq update
        (.snapshot key seq update.snapshotEnd topic update.ts update.data)

theorem Carries.numbered {key : String} {seq : UInt64} {update : SubUpdate} {frame : Outbound}
    (carries : Carries key seq update frame) : frame.numbered = some (key, seq) := by
  cases carries <;> rfl

theorem update_of_deliver {sub : String} {seq number : UInt64} {update told : SubUpdate}
    {mode : Delivery} {stream : ℕ}
    (mem : .delivered stream number told ∈ (s.deliver sub seq update mode).2) :
    number = seq ∧ s.subs.lookup sub = some stream ∧
      told = { update with
        skipped := saturatingSub seq (saturatingAdd ((s.lastSeq.lookup sub).getD 0) 1)
        snapshotEnd := mode = .burstEnd } ∧
      s.deliver sub seq update mode =
        (s.push sub stream seq told, [.delivered stream seq told]) := by
  unfold State.deliver at mem ⊢
  dsimp only at mem ⊢
  split at mem
  · simp at mem
  · next other found =>
    simp only [found]
    split_ifs at mem ⊢
    · simp at mem
    · cases List.mem_singleton.mp mem
      exact ⟨rfl, rfl, rfl, rfl⟩
    · simp at mem

theorem inbound_of_delivered (took : Took codec config platform s input after emitted)
    {stream : ℕ}
    {seq : UInt64} {update : SubUpdate} (mem : .delivered stream seq update ∈ emitted) :
    s.engine = .parked ∧ ∃ bytes, input = .inbound (some bytes) := by
  cases took with
  | delivered parked => exact ⟨parked, _, rfl⟩
  | @failed _ cmd => cases cmd <;> simp [State.fail] at mem
  | _ => simp at mem

theorem carries_of_delivered
    (stepped : step codec config platform s input = some (after, emitted)) {stream : ℕ}
    {seq : UInt64} {update : SubUpdate} (mem : .delivered stream seq update ∈ emitted) :
    ∃ bytes frame key, input = .inbound (some bytes) ∧
      codec.decodeOutbound bytes = .ok frame ∧
      Carries key seq update frame ∧ s.subs.lookup key = some stream ∧
      update.skipped = saturatingSub seq (saturatingAdd ((s.lastSeq.lookup key).getD 0) 1) ∧
      after = s.push key stream seq update ∧ emitted = [.delivered stream seq update] := by
  obtain ⟨parked, bytes, rfl⟩ := inbound_of_delivered (took_of_step stepped) mem
  rw [step, if_pos parked, Option.some.injEq] at stepped
  have same : after = (s.onInbound codec bytes).1 ∧ emitted = (s.onInbound codec bytes).2 := by
    rw [stepped]
    exact ⟨rfl, rfl⟩
  obtain ⟨rfl, rfl⟩ := same
  unfold State.onInbound at mem ⊢
  split at mem
  · simp at mem
  · next sub number topic ts data decoded =>
    obtain ⟨rfl, found, told, pushed⟩ := update_of_deliver mem
    refine ⟨bytes, _, sub, rfl, decoded, ?_, found, by rw [told], by rw [pushed],
      by rw [pushed]⟩
    cases topic <;> (subst told; exact .event rfl)
  · next sub number last topic ts data decoded =>
    obtain ⟨rfl, found, told, pushed⟩ := update_of_deliver mem
    refine ⟨bytes, _, sub, rfl, decoded, ?_, found, by rw [told], by rw [pushed],
      by rw [pushed]⟩
    cases last <;> (subst told; exact .snapshot rfl)
  · simp at mem
  · simp at mem
  · simp at mem
  · simp at mem

/-- What a record tells the subscriber of a stream: a value and the loss before it. -/
def Record.tells (stream : ℕ) : Record → ℕ
  | .delivered own _ update => if own = stream then update.skipped.toNat + 1 else 0
  | _ => 0

/-- The values and losses a subscriber was told of so far. -/
def told (stream : ℕ) (log : List Record) : ℕ := (log.map (Record.tells stream)).sum

@[simp] theorem told_append (stream : ℕ) (log more : List Record) :
    told stream (log ++ more) = told stream log + told stream more := by
  simp [told]

theorem told_eq_zero {stream : ℕ}
    (undelivered : ∀ seq update, .delivered stream seq update ∉ log) :
    told stream log = 0 := by
  refine List.sum_eq_zero fun count mem => ?_
  obtain ⟨record, inLog, rfl⟩ := List.mem_map.mp mem
  cases record with
  | delivered own seq update =>
      by_cases same : own = stream
      · subst same
        exact absurd inLog (undelivered seq update)
      · exact if_neg same
  | _ => rfl

def State.reached (s : State) (key : String) : ℕ := ((s.lastSeq.lookup key).getD 0).toNat

theorem reached_push {key : String} {stream : ℕ} {seq : UInt64} {update : SubUpdate}
    (skipped : update.skipped =
      saturatingSub seq (saturatingAdd ((s.lastSeq.lookup key).getD 0) 1))
    (above : s.reached key < seq.toNat) :
    s.reached key + (update.skipped.toNat + 1) = seq.toNat ∧
      (s.push key stream seq update).reached key = seq.toNat ∧
      ∀ other, other ≠ key → (s.push key stream seq update).reached other =
        s.reached other := by
  rw [State.reached] at above ⊢
  obtain ⟨gap, -⟩ := gap_add_advance seq ((s.lastSeq.lookup key).getD 0)
  have larger : (s.lastSeq.lookup key).getD 0 < seq := UInt64.lt_iff_toNat_lt.mpr above
  have highest : max seq ((s.lastSeq.lookup key).getD 0) = seq :=
    if_neg (UInt64.not_le.mpr larger)
  rw [← skipped, if_pos larger, highest] at gap
  refine ⟨by omega, ?_, fun other differs => ?_⟩
  · rw [State.reached, State.push, AList.lookup_insert, Option.getD_some, highest]
  · rw [State.reached, State.push, AList.lookup_insert_ne differs, State.reached]

end AimDb.Session.Client

