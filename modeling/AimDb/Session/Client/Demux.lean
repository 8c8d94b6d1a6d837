import AimDb.Session.Aimx.Codec
import AimDb.Session.Client.Custody
import AimDb.Session.Client.Tables
import AimDb.Transition.Monitor

/-!
# Replies reach their own call

Three facts are carried through a run: which call a step moves on, where a reply
that was sent comes from, and that the request of a pending call went out on the
connection the engine drives.
-/

namespace AimDb.Session.Client

open AimDb.Json AimDb.Transition

variable {codec : EnvelopeCodec} {config : ClientConfig} {platform : Platform} {s after : State}
  {input : Input} {emitted : List Record}

/-- The phase a step changes, and what the call it belongs to resolves with. -/
inductive Turn (s after : State) (emitted : List Record) : Prop
  | none :
      (∀ call, (after.calls call).phase = (s.calls call).phase) →
      (∀ call result, .resolved call result ∉ emitted) → Turn s after emitted
  | phase (call : ℕ) :
      (∀ other, other ≠ call → (after.calls other).phase = (s.calls other).phase) →
      call < after.started →
      (∀ result, (s.calls call).phase ≠ .resolved result) →
      (∀ result, (after.calls call).phase ≠ .resolved result) →
      (∀ call result, .resolved call result ∉ emitted) → Turn s after emitted
  | resolution (call : ℕ) {result : CallReply} :
      (∀ other, other ≠ call → (after.calls other).phase = (s.calls other).phase) →
      call < after.started →
      (∀ result, (s.calls call).phase ≠ .resolved result) →
      (after.calls call).phase = .resolved result →
      (result = .error .internal ∨ call < s.started ∧ (s.calls call).reply = .sent result) →
      emitted = [.resolved call result] → Turn s after emitted

def Begun (s : State) : Prop := ∀ call, (s.calls call).phase ≠ .gone → call < s.started

theorem setPhase_turn {mid : State} {call : ℕ} {phase : Phase} (calls : mid.calls = s.calls)
    (started : call < mid.started) (before : ∀ result, (s.calls call).phase ≠ .resolved result)
    (unresolved : ∀ result, phase ≠ .resolved result) :
    Turn s (mid.setPhase call phase) [] := by
  refine .phase call ?_ started before ?_ (by simp)
  · intro other distinct
    rw [State.setPhase_phase, if_neg distinct, calls]
  · intro result
    rw [State.setPhase_phase, if_pos rfl]
    exact unresolved result

theorem calls_turn (phases : ∀ call, (after.calls call).phase = (s.calls call).phase) :
    Turn s after [] := .none phases (by simp)

theorem unresolved_of_command (ids : Ids s) (custody : Custody s) {id : UInt64} {method : String}
    {params : Payload} {call : ℕ} (mem : .call id method params call ∈ s.commands) :
    call < s.started ∧ ∀ result, (s.calls call).phase ≠ .resolved result := by
  have names : (s.calls call).id = some id := ids.named _ mem
  refine ⟨(ids.call_lt names).2, fun result resolved => ?_⟩
  have owed := custody.owed names
  rw [if_neg (custody.resolved resolved), State.copies] at owed
  have opening : 0 < s.openings id :=
    List.countP_pos_iff.mpr ⟨_, mem, by simp [ClientCmd.opens]⟩
  omega

theorem proceed_turn (ids : Ids s) (custody : Custody s) {mid : State} {cmd : ClientCmd}
    (mem : cmd ∈ s.commands) (calls : mid.calls = s.calls) (started : mid.started = s.started) :
    Turn s (mid.proceed cmd) [] := by
  cases cmd with
  | call id method params call =>
      obtain ⟨below, unresolved⟩ := unresolved_of_command ids custody mem
      exact setPhase_turn calls (started ▸ below) unresolved (by simp)
  | cancelCall => exact calls_turn fun _ => by rw [State.proceed, calls]
  | subscribe => exact calls_turn fun _ => by rw [State.proceed, calls]
  | write => exact calls_turn fun _ => by rw [State.proceed, calls]

theorem fail_turn (ids : Ids s) (custody : Custody s) {mid : State} {cmd : ClientCmd}
    (mem : cmd ∈ s.commands) (calls : mid.calls = s.calls) (started : mid.started = s.started) :
    Turn s (mid.fail cmd).1 (mid.fail cmd).2 := by
  cases cmd with
  | call id method params call =>
      obtain ⟨below, unresolved⟩ := unresolved_of_command ids custody mem
      refine .resolution call ?_ (started ▸ below) unresolved ?_ (.inl rfl) rfl
      · intro other distinct
        simp only [State.fail, State.setPhase_phase, if_neg distinct, State.setReply_phase, calls]
      · simp [State.fail, State.setPhase_phase]
  | cancelCall => exact calls_turn fun _ => by rw [State.fail, calls]
  | subscribe => exact calls_turn fun _ => by simp [State.fail, calls]
  | write => exact calls_turn fun _ => by rw [State.fail, calls]

theorem Took.turn (ids : Ids s) (custody : Custody s) (begun : Begun s)
    (took : Took codec config platform s input after emitted) : Turn s after emitted := by
  have waits {call : ℕ} {phase : Phase} (at_phase : (s.calls call).phase = phase)
      (running : phase ≠ .gone) : call < s.started := begun call (at_phase ▸ running)
  have fresh : (s.calls s.started).phase = .gone := by
    by_contra running
    exact absurd (begun _ running) (lt_irrefl _)
  cases took with
  | called =>
      refine .phase s.started ?_ (Nat.lt_succ_self _) (by simp [fresh]) (by simp) (by simp)
      intro other distinct
      simp [distinct]
  | unnumbered =>
      refine .resolution s.started ?_ (Nat.lt_succ_self _) (by simp [fresh]) (by simp)
        (.inl rfl) rfl
      intro other distinct
      simp [distinct]
  | subscribed => exact calls_turn fun _ => rfl
  | wrote => exact calls_turn fun _ => rfl
  | enqueued found =>
      exact proceed_turn ids custody (by simp [State.commands, List.mem_of_getElem? found]) rfl rfl
  | evicting found =>
      exact proceed_turn ids custody (by simp [State.commands, List.mem_of_getElem? found]) rfl rfl
  | failed found =>
      exact fail_turn ids custody (by simp [State.commands, List.mem_of_getElem? found]) rfl rfl
  | degraded => exact calls_turn fun _ => rfl
  | displaced => exact calls_turn fun _ => discard_phase _ _ _
  | @resolved call result waiting received =>
      refine .resolution call ?_ (waits waiting (by simp)) (by simp [waiting]) ?_ ?_ rfl
      · intro other distinct
        rw [State.setPhase_phase, if_neg distinct]
      · rw [State.setPhase_phase, if_pos rfl]
      · cases reply : (s.calls call).reply with
        | held => simp [reply, State.received] at received
        | sent answer =>
            simp only [reply, State.received, Option.some.injEq] at received
            exact .inr ⟨waits waiting (by simp), by rw [received]⟩
        | dropped =>
            simp only [reply, State.received, Option.some.injEq] at received
            exact .inl received.symm
  | abandoned waiting =>
      exact setPhase_turn rfl (waits waiting (by simp)) (by simp [waiting]) (by simp)
  | cancelled dropped =>
      exact setPhase_turn rfl (waits dropped (by simp)) (by simp [dropped]) (by simp)
  | refused dropped =>
      exact setPhase_turn rfl (waits dropped (by simp)) (by simp [dropped]) (by simp)
  | requested refused =>
      exact setPhase_turn rfl (waits refused (by simp)) (by simp [refused]) (by simp)
  | handed => exact .none (fun _ => rfl) (by simp)
  | unlistened => exact calls_turn fun _ => rfl
  | ignored => exact calls_turn fun _ => rfl
  | dialed => exact .none (fun _ => rfl) (by simp)
  | redialing => exact calls_turn fun _ => rfl
  | greeted => exact .none (fun _ => rfl) (by simp)
  | welcomed => exact calls_turn fun _ => rfl
  | pinging => exact calls_turn fun _ => rfl
  | lost => exact calls_turn fun call => (dropTables_calls s call).2.1
  | @unsent id => exact calls_turn fun call => (unsent_calls s id call).2.1
  | left => exact calls_turn fun call => (leave_calls s call).2.1
  | sent => exact .none (fun _ => rfl) (by simp)
  | answered => exact .none (fun call => (s.removePending_calls call _ _).2.1) (by simp)
  | @declined _ id err =>
      refine .none (fun _ => ?_) (by simp)
      rw [(endSub_calls s _ _).1]
  | unmatched => exact .none (fun _ => rfl) (by simp)
  | @delivered _ _ sub seq update mode =>
      obtain ⟨calls, -, -, -, records⟩ := deliver_calls s sub seq update mode
      refine .none (fun _ => by rw [calls]) fun call result mem => ?_
      obtain ⟨_, _, _, record⟩ := records _ mem
      cases record
  | broken => exact calls_turn fun _ => by rw [(endSub_calls s _ _).1]
  | pruning => exact calls_turn fun _ => rfl
  | took => exact calls_turn fun _ => rfl
  | @filed id _ _ call =>
      exact calls_turn fun other => (s.removePending_calls other id .dropped).2.1
  | forgotten => exact calls_turn fun _ => s.setReply_phase _ _ _
  | cancelling => exact calls_turn fun call => (s.removePending_calls call _ _).2.1
  | subscribing => exact calls_turn fun _ => rfl
  | writing => exact calls_turn fun _ => rfl
  | swept => exact calls_turn fun _ => rfl
  | spared => exact calls_turn fun _ => rfl
  | reclaimed => exact calls_turn fun call => (s.removePending_calls call _ _).2.1
  | closed => exact calls_turn fun _ => rfl
  | drained => exact calls_turn fun _ => discard_phase _ _ _
  | halted => exact calls_turn fun _ => rfl

theorem discard_reply (s : State) (cmd : ClientCmd) (call : ℕ) :
    ((s.discard cmd).calls call).reply = (s.calls call).reply ∨
      ((s.discard cmd).calls call).reply = .dropped := by
  cases cmd with
  | call =>
      rw [State.discard, State.setReply_reply]
      split_ifs
      · exact .inr rfl
      · exact .inl rfl
  | cancelCall => exact .inl rfl
  | subscribe => exact .inl rfl
  | write => exact .inl rfl

theorem removePending_reply (s : State) (id : UInt64) (reply : Reply) (call : ℕ) :
    ((s.removePending id reply).calls call).reply = (s.calls call).reply ∨
      s.pending.lookup id = some call ∧
        ((s.removePending id reply).calls call).reply = reply := by
  obtain ⟨-, -, told, untold⟩ := s.removePending_calls call id reply
  by_cases own : s.pending.lookup id = some call
  · exact .inr ⟨own, told own⟩
  · exact .inl (congrArg Call.reply (untold own))

theorem Took.reply_sent (took : Took codec config platform s input after emitted) {call : ℕ}
    {result : CallReply} (sent : (after.calls call).reply = .sent result) :
    (s.calls call).reply = .sent result ∨ result = .error .internal ∨
      s.engine = .parked ∧ after.engine = .parked ∧
        ∃ id, s.pending.lookup id = some call ∧ emitted = [.replied s.epoch id result] := by
  have dropped {mid : State} (fate : (mid.calls call).reply = (s.calls call).reply ∨
      (mid.calls call).reply = .dropped) (sent : (mid.calls call).reply = .sent result) :
      (s.calls call).reply = .sent result := by
    rcases fate with same | gone
    · rw [← same, sent]
    · simp [gone] at sent
  have removed {id : UInt64} (sent : ((s.removePending id .dropped).calls call).reply =
      .sent result) : (s.calls call).reply = .sent result :=
    dropped ((removePending_reply s id .dropped call).imp_right And.right) sent
  cases took with
  | called =>
      rcases eq_or_ne call s.started with rfl | distinct
      · simp at sent
      · exact .inl (by simpa [distinct] using sent)
  | unnumbered =>
      rcases eq_or_ne call s.started with rfl | distinct
      · simp at sent
      · exact .inl (by simpa [distinct] using sent)
  | subscribed => exact .inl sent
  | wrote => exact .inl sent
  | @enqueued _ cmd => cases cmd <;> exact .inl (by simpa [State.proceed] using sent)
  | @evicting _ cmd => cases cmd <;> exact .inl (by simpa [State.proceed] using sent)
  | @failed _ cmd =>
      cases cmd with
      | call =>
          simp only [State.fail, State.setPhase_reply, State.setReply_reply] at sent
          split_ifs at sent
          exact .inl sent
      | cancelCall => exact .inl sent
      | subscribe => exact .inl sent
      | write => exact .inl sent
  | degraded => exact .inl sent
  | @displaced index cmd =>
      exact .inl (dropped (discard_reply { s with
        evicted := s.evicted.eraseIdx index } cmd call) sent)
  | resolved => exact .inl (by simpa using sent)
  | abandoned => exact .inl (by simpa using sent)
  | cancelled => exact .inl (by simpa using sent)
  | refused => exact .inl (by simpa using sent)
  | requested => exact .inl (by simpa using sent)
  | handed => exact .inl sent
  | unlistened => exact .inl sent
  | ignored => exact .inl sent
  | dialed => exact .inl sent
  | redialing => exact .inl sent
  | greeted => exact .inl sent
  | welcomed => exact .inl sent
  | pinging => exact .inl sent
  | lost =>
      obtain ⟨-, -, gone, kept⟩ := dropTables_calls s call
      by_cases filed : ∃ id, s.pending.lookup id = some call
      · exact absurd (gone filed) (by simp [show (s.dropTables.calls call).reply = _ from sent])
      · push Not at filed
        exact .inl (kept filed ▸ sent)
  | @unsent id =>
      obtain ⟨-, -, told, untold⟩ := unsent_calls s id call
      by_cases filed : ∃ other, s.pending.lookup other = some call
      · rcases told filed with internal | gone
        · exact .inr (.inl (Reply.sent.inj (sent.symm.trans internal)))
        · exact absurd (sent.symm.trans gone) (by simp)
      · push Not at filed
        exact .inl (untold filed ▸ sent)
  | left => exact .inl (dropped (leave_calls s call).2.2 sent)
  | sent => exact .inl sent
  | @answered _ id answer _ parked =>
      rcases removePending_reply s id (.sent answer) call with same | ⟨found, told⟩
      · exact .inl (same ▸ sent)
      · obtain rfl := Reply.sent.inj (sent.symm.trans told)
        exact .inr (.inr ⟨parked, by simp [parked], id, found, rfl⟩)
  | declined => exact .inl ((endSub_calls s _ _).1 ▸ sent)
  | unmatched => exact .inl sent
  | @delivered _ _ sub seq update mode =>
      exact .inl ((deliver_calls s sub seq update mode).1 ▸ sent)
  | broken => exact .inl ((endSub_calls s _ _).1 ▸ sent)
  | pruning => exact .inl sent
  | took => exact .inl sent
  | filed => exact .inl (removed sent)
  | forgotten => exact .inl (dropped (discard_reply s (.call 0 "" [] _) call) sent)
  | cancelling => exact .inl (removed sent)
  | subscribing => exact .inl sent
  | writing => exact .inl sent
  | swept => exact .inl sent
  | spared => exact .inl sent
  | reclaimed => exact .inl (removed sent)
  | closed => exact .inl sent
  | @drained cmd rest =>
      exact .inl (dropped (discard_reply { s with queue := rest } cmd call) sent)
  | halted => exact .inl sent

/-- The request of a call is on its way out, or went out on this connection. -/
def Asked (s : State) (log : List Record) (id : UInt64) : Prop :=
  (∃ method params, s.engine = .sending (.request id method params)) ∨
    ∃ method params, .sent s.epoch (.request id method params) ∈ log

theorem asked_of {log : List Record} {id : UInt64} (asked : Asked s log id)
    (epoch : after.epoch = s.epoch)
    (sending : ∀ method params, s.engine = .sending (.request id method params) →
      after.engine = s.engine ∨ .sent s.epoch (.request id method params) ∈ emitted) :
    Asked after (log ++ emitted) id := by
  rcases asked with ⟨method, params, engine⟩ | ⟨method, params, mem⟩
  · rcases sending method params engine with same | mem
    · exact .inl ⟨method, params, same.trans engine⟩
    · exact .inr ⟨method, params, by simp [epoch, mem]⟩
  · exact .inr ⟨method, params, by simp [epoch, mem]⟩

theorem Took.asked (tables : Tables s) {log : List Record}
    (took : Took codec config platform s input after emitted)
    (all : ∀ id call, s.pending.lookup id = some call → Asked s log id) :
    ∀ id call, after.pending.lookup id = some call → Asked after (log ++ emitted) id := by
  have still {after : State} (pending : after.pending = s.pending) (epoch : after.epoch = s.epoch)
      (engine : after.engine = s.engine) (id : UInt64) (call : ℕ)
      (found : after.pending.lookup id = some call) : Asked after (log ++ emitted) id :=
    asked_of (all id call (pending ▸ found)) epoch fun _ _ _ => .inl engine
  have onward {after : State} (pending : ∀ {id call}, after.pending.lookup id = some call →
        s.pending.lookup id = some call) (epoch : after.epoch = s.epoch)
      (engine : ∀ id method params, s.engine ≠ .sending (.request id method params))
      (id : UInt64)
      (call : ℕ) (found : after.pending.lookup id = some call) :
      Asked after (log ++ emitted) id :=
    asked_of (all id call (pending found)) epoch fun _ _ sending => absurd sending (engine _ _ _)
  have empty {after : State} (pending : after.pending = ∅) (id : UInt64) (call : ℕ)
      (found : after.pending.lookup id = some call) : Asked after (log ++ emitted) id := by
    simp [pending] at found
  cases took with
  | called => exact still rfl rfl rfl
  | unnumbered => exact still rfl rfl rfl
  | subscribed => exact still rfl rfl rfl
  | wrote => exact still rfl rfl rfl
  | enqueued =>
      obtain ⟨calls, eq⟩ := State.proceed_eq _ _
      rw [eq]
      exact still rfl rfl rfl
  | evicting =>
      obtain ⟨calls, eq⟩ := State.proceed_eq _ _
      rw [eq]
      exact still rfl rfl rfl
  | failed =>
      obtain ⟨calls, streams, eq⟩ := State.fail_eq _ _
      rw [eq]
      exact still rfl rfl rfl
  | degraded => exact still rfl rfl rfl
  | displaced =>
      obtain ⟨calls, eq⟩ := State.discard_eq _ _
      rw [eq]
      exact still rfl rfl rfl
  | resolved => exact still rfl rfl rfl
  | abandoned => exact still rfl rfl rfl
  | cancelled => exact still rfl rfl rfl
  | refused => exact still rfl rfl rfl
  | requested => exact still rfl rfl rfl
  | handed => exact still rfl rfl rfl
  | unlistened => exact still rfl rfl rfl
  | ignored => exact still rfl rfl rfl
  | dialed dialing => exact empty (tables.vacant (by simp [dialing, Engine.Connected])).1
  | redialing => exact still rfl rfl rfl
  | greeted greeting => exact onward id rfl (by simp [greeting])
  | welcomed greeted => exact onward id rfl (by simp [greeted])
  | pinging parked => exact onward id rfl (by simp [parked])
  | lost => exact empty rfl
  | unsent => exact empty rfl
  | left => exact empty rfl
  | @sent message sending =>
      intro id call found
      refine asked_of (all id call found) rfl fun method params engine => .inr ?_
      rw [sending, Engine.sending.injEq] at engine
      simp [engine]
  | answered parked => exact onward (removed_pending _ _) (by simp) (by simp [parked])
  | declined =>
      obtain ⟨-, pending, engine, epoch⟩ := endSub_calls s _ _
      exact still pending epoch engine
  | unmatched => exact still rfl rfl rfl
  | delivered =>
      obtain ⟨-, pending, engine, epoch, -⟩ := deliver_calls s _ _ _ _
      exact still pending epoch engine
  | broken =>
      obtain ⟨-, pending, engine, epoch⟩ := endSub_calls s _ _
      exact still pending epoch engine
  | pruning parked => exact onward id rfl (by simp [parked])
  | took parked => exact onward id rfl (by simp [parked])
  | @filed id method params call holding =>
      intro key other found
      rcases eq_or_ne key id with rfl | distinct
      · exact .inl ⟨method, params, rfl⟩
      · have old : s.pending.lookup key = some other := by
          simp only [State.send, State.insertPending, AList.lookup_insert_ne distinct] at found
          exact removed_pending _ _ found
        exact asked_of (all key other old) (by simp [State.send, State.insertPending])
          fun _ _ sending => by simp [holding] at sending
  | forgotten holding => exact onward (fun found => found) rfl (by simp [holding])
  | cancelling holding =>
      exact onward (removed_pending _ _) (s.removePending_epoch _ _) (by simp [holding])
  | subscribing holding => exact onward id rfl (by simp [holding])
  | writing holding => exact onward id rfl (by simp [holding])
  | swept sweeping => exact onward id rfl (by simp [sweeping])
  | spared sweeping => exact onward id rfl (by simp [sweeping])
  | reclaimed sweeping =>
      exact onward (removed_pending _ _) (s.removePending_epoch _ _) (by simp [sweeping])
  | closed leaving => exact onward id rfl (by simp [leaving])
  | drained =>
      obtain ⟨calls, eq⟩ := State.discard_eq _ _
      rw [eq]
      exact still rfl rfl rfl
  | halted draining => exact onward id rfl (by simp [draining])

def Record.resolves (call : ℕ) : Record → Bool
  | .resolved other _ => other = call
  | _ => false

/-- A `Reply` with this id came over the connection its request was sent on. -/
def Answered (log : List Record) (id : UInt64) (result : CallReply) : Prop :=
  ∃ epoch method params before during after,
    log = before ++ .sent epoch (.request id method params) ::
      (during ++ .replied epoch id result :: after)

theorem Answered.append {log : List Record} {id : UInt64} {result : CallReply}
    (answered : Answered log id result) (more : List Record) :
    Answered (log ++ more) id result := by
  obtain ⟨epoch, method, params, before, during, after, rfl⟩ := answered
  exact ⟨epoch, method, params, before, during, after ++ more, by simp⟩

theorem answered_of_asked {log : List Record} {id : UInt64} {result : CallReply}
    (asked : Asked s log id) (parked : s.engine = .parked) :
    Answered (log ++ [.replied s.epoch id result]) id result := by
  rcases asked with ⟨method, params, engine⟩ | ⟨method, params, mem⟩
  · simp [parked] at engine
  · obtain ⟨before, during, rfl⟩ := List.append_of_mem mem
    exact ⟨s.epoch, method, params, before, during, [], by simp⟩

def Genuine (s : State) (log : List Record) (call : ℕ) (result : CallReply) : Prop :=
  result = .error .internal ∨ ∃ id, (s.calls call).id = some id ∧ Answered log id result

structure Traced (s : State) (log : List Record) : Prop where
  begun : Begun s
  asked : ∀ id call, s.pending.lookup id = some call → Asked s log id
  answered : ∀ {call result}, (s.calls call).reply = .sent result → Genuine s log call result
  told : ∀ {call result}, (s.calls call).phase = .resolved result →
    result = .error .internal ∨ (s.calls call).reply = .sent result
  unresolved : ∀ {call}, (∀ result, (s.calls call).phase ≠ .resolved result) →
    log.countP (Record.resolves call) = 0
  once : ∀ call, log.countP (Record.resolves call) ≤ 1
  genuine : ∀ {before after call result}, log = before ++ .resolved call result :: after →
    Genuine s before call result

theorem Genuine.later {log : List Record} {call : ℕ} {result : CallReply}
    (genuine : Genuine s log call result)
    (ids : ∀ id, (s.calls call).id = some id → (after.calls call).id = some id)
    (more : List Record) : Genuine after (log ++ more) call result :=
  genuine.imp_right fun ⟨id, has, answered⟩ => ⟨id, ids id has, answered.append more⟩

theorem Took.started_le (took : Took codec config platform s input after emitted) (ids : Ids s)
    (custody : Custody s) : s.started ≤ after.started := by
  rcases took.effect ids custody with numbers | ⟨made, lost, effect⟩
  · cases numbers with
    | call => exact Nat.le_succ _
    | refusal => exact Nat.le_succ _
    | subscription => exact le_rfl
  · exact effect.counters.2.1.ge

/-- Calls begun before a step, and the call it moves on. -/
theorem Turn.begun (turn : Turn s after emitted) (begun : Begun s)
    (more : s.started ≤ after.started) : Begun after := by
  intro call running
  cases turn with
  | none same => exact (begun call (same call ▸ running)).trans_le more
  | phase moved same below =>
      rcases eq_or_ne call moved with rfl | distinct
      · exact below
      · exact (begun call (same call distinct ▸ running)).trans_le more
  | resolution moved same below =>
      rcases eq_or_ne call moved with rfl | distinct
      · exact below
      · exact (begun call (same call distinct ▸ running)).trans_le more

theorem countP_of_quiet {call : ℕ} (quiet : ∀ call result, .resolved call result ∉ emitted) :
    emitted.countP (Record.resolves call) = 0 := by
  rw [List.countP_eq_zero]
  intro record mem
  cases record with
  | resolved other result => exact absurd mem (quiet other result)
  | _ => simp [Record.resolves]

theorem Turn.once (turn : Turn s after emitted) {log : List Record}
    (unresolved : ∀ {call}, (∀ result, (s.calls call).phase ≠ .resolved result) →
      log.countP (Record.resolves call) = 0)
    (once : ∀ call, log.countP (Record.resolves call) ≤ 1) (call : ℕ) :
    ((∀ result, (after.calls call).phase ≠ .resolved result) →
      (log ++ emitted).countP (Record.resolves call) = 0) ∧
      (log ++ emitted).countP (Record.resolves call) ≤ 1 := by
  rw [List.countP_append]
  cases turn with
  | none same quiet =>
      rw [countP_of_quiet quiet, same, Nat.add_zero]
      exact ⟨unresolved, once call⟩
  | phase moved same _ before _ quiet =>
      rw [countP_of_quiet quiet, Nat.add_zero]
      refine ⟨fun pending => ?_, once call⟩
      rcases eq_or_ne call moved with rfl | distinct
      · exact unresolved before
      · exact unresolved (same call distinct ▸ pending)
  | resolution moved same _ before resolved _ told =>
      rcases eq_or_ne call moved with rfl | distinct
      · refine ⟨fun pending => absurd resolved (pending _), ?_⟩
        simp [unresolved before, told, Record.resolves]
      · have foreign : emitted.countP (Record.resolves call) = 0 := by
          simp [told, Record.resolves, distinct.symm]
        rw [foreign, same call distinct, Nat.add_zero]
        exact ⟨unresolved, once call⟩

theorem Traced.took {log : List Record} (traced : Traced s log) (ids : Ids s) (custody : Custody s)
    (tables : Tables s) (took : Took codec config platform s input after emitted) :
    Traced after (log ++ emitted) := by
  have turn := took.turn ids custody traced.begun
  have more := took.started_le ids custody
  have keepsId : ∀ call id, (s.calls call).id = some id → (after.calls call).id = some id :=
    fun call id has => (took.keeps ids custody (ids.call_lt has).2).1.trans has
  constructor
  · exact turn.begun traced.begun more
  · exact took.asked tables traced.asked
  · intro call result sent
    rcases took.reply_sent sent with old | internal | ⟨parked, -, id, found, rfl⟩
    · exact (traced.answered old).later (keepsId call) emitted
    · exact .inl internal
    · exact .inr ⟨id, keepsId call id (ids.filed found),
        answered_of_asked (traced.asked id call found) parked⟩
  · intro call result resolved
    have still : call < s.started → (s.calls call).phase = .resolved result →
        result = .error .internal ∨ (after.calls call).reply = .sent result := by
      intro started already
      have kept := (took.keeps ids custody started).2 (custody.resolved already)
      rw [kept]
      exact traced.told already
    have old : (s.calls call).phase = .resolved result →
        result = .error .internal ∨ (after.calls call).reply = .sent result :=
      fun already => still (traced.begun call (by simp [already])) already
    cases turn with
    | none same => exact old (same call ▸ resolved)
    | phase moved same _ _ pending =>
        rcases eq_or_ne call moved with rfl | distinct
        · exact absurd resolved (pending _)
        · exact old (same call distinct ▸ resolved)
    | @resolution moved answer same _ _ ended source =>
        rcases eq_or_ne call moved with rfl | distinct
        · obtain rfl := Phase.resolved.inj (resolved.symm.trans ended)
          refine source.imp_right fun ⟨started, sent⟩ => ?_
          rw [(took.keeps ids custody started).2 (by simp [sent]), sent]
        · exact old (same call distinct ▸ resolved)
  · exact fun {call} => (turn.once traced.unresolved traced.once call).1
  · exact fun call => (turn.once traced.unresolved traced.once call).2
  · intro before tail call result split
    rcases split_append split with ⟨_, old, _⟩ | ⟨front, rfl, new⟩
    · simpa using (traced.genuine old).later (keepsId call) []
    · cases turn with
      | none _ quiet => exact absurd (by simp [new]) (quiet call result)
      | phase _ _ _ _ _ quiet => exact absurd (by simp [new]) (quiet call result)
      | @resolution moved answer _ _ _ _ source told =>
          rw [told] at new
          cases front with
          | nil =>
              simp only [List.nil_append, List.cons.injEq, Record.resolved.injEq] at new
              obtain ⟨⟨rfl, rfl⟩, -⟩ := new
              rw [List.append_nil]
              rcases source with internal | ⟨-, sent⟩
              · exact .inl internal
              · simpa using (traced.answered sent).later (keepsId moved) []
          | cons => simp at new

theorem traced_of_runs {allowed : State → Input → Prop} {log : List Record}
    (reached : Runs codec config platform allowed s log) : Traced s log := by
  refine reached.invariant Traced ?_ ?_
  · constructor <;> simp [Begun]
  · intro state log input after emitted reached _ stepped traced
    obtain ⟨ids, custody⟩ := custody_of_runs reached
    exact traced.took ids custody (tables_of_runs reached) (took_of_step stepped)

/-- The keys of the two tables stand for different ids. -/
theorem Ids.disjoint (ids : Ids s) {id : UInt64} {call : ℕ}
    (found : s.pending.lookup id = some call) : s.subs.lookup (subKey id) = none := by
  by_contra routed
  obtain ⟨stream, routed⟩ := Option.ne_none_iff_exists'.mp routed
  obtain ⟨other, has, same⟩ := ids.routed routed
  exact ids.apart (ids.filed found) (subKey_injective same ▸ has)

theorem Ids.unrouted (ids : Ids s) {id : UInt64} {call : ℕ} (has : (s.calls call).id = some id) :
    s.subs.lookup (subKey id) = none := by
  by_contra routed
  obtain ⟨stream, routed⟩ := Option.ne_none_iff_exists'.mp routed
  obtain ⟨other, owner, same⟩ := ids.routed routed
  exact ids.apart has (subKey_injective same ▸ owner)

theorem Ids.unfiled (ids : Ids s) {id : UInt64} {stream : ℕ}
    (has : (s.streams stream).id = some id) : s.pending.lookup id = none := by
  by_contra filed
  obtain ⟨call, filed⟩ := Option.ne_none_iff_exists'.mp filed
  exact ids.apart (ids.filed filed) has

/-- A frame read in the handshake ends the connection, whose tables are empty, or opens it. -/
theorem onGreeting_keeps (tables : Tables s) (greeted : s.engine = .greeted) (bytes : Bytes) :
    (s.onGreeting codec config bytes).calls = s.calls ∧
      (s.onGreeting codec config bytes).streams = s.streams ∧
      (s.onGreeting codec config bytes).pending = s.pending ∧
      (s.onGreeting codec config bytes).subs = s.subs := by
  obtain ⟨pending, subs, -⟩ := tables.vacant (by simp [greeted, Engine.Connected])
  unfold State.onGreeting
  split
  · exact ⟨rfl, rfl, rfl, rfl⟩
  · obtain ⟨engine, attempt, -, ended⟩ := disconnect_eq config s (by simp [greeted])
    rw [ended]
    refine ⟨funext fun call => ?_, rfl, pending.symm, subs.symm⟩
    exact (dropTables_calls s call).2.2.2 (by simp [pending])

theorem reply_touches_owner (ids : Ids s) (tables : Tables s) {bytes : Bytes} {id : UInt64}
    {result : CallReply} (decoded : codec.decodeOutbound bytes = .ok (.reply id result))
    (stepped : step codec config platform s (.inbound (some bytes)) = some (after, emitted)) :
    ((∃ call, (s.calls call).id = some id) →
      after.subs = s.subs ∧ after.streams = s.streams) ∧
    ((∃ stream, (s.streams stream).id = some id) →
      after.calls = s.calls ∧ after.pending = s.pending) := by
  simp only [step] at stepped
  by_cases parked : s.engine = .parked
  · rw [if_pos parked, Option.some.injEq, State.onInbound, decoded] at stepped
    obtain ⟨rfl, rfl⟩ := Prod.mk.inj stepped
    constructor
    · rintro ⟨call, has⟩
      unfold State.onReply
      split
      · exact ⟨s.removePending_subs _ _, s.removePending_streams _ _⟩
      · split
        · rw [State.endSub, ids.unrouted has]
          exact ⟨rfl, rfl⟩
        · exact ⟨rfl, rfl⟩
    · rintro ⟨stream, has⟩
      unfold State.onReply
      rw [ids.unfiled has]
      dsimp only
      split
      · exact ⟨(endSub_calls s _ _).1, (endSub_calls s _ _).2.1⟩
      · exact ⟨rfl, rfl⟩
  · rw [if_neg parked] at stepped
    simp only [Option.ite_none_right_eq_some, Option.some.injEq, Prod.mk.injEq] at stepped
    obtain ⟨greeted, rfl, rfl⟩ := stepped
    obtain ⟨calls, streams, pending, subs⟩ := onGreeting_keeps tables greeted bytes
    exact ⟨fun _ => ⟨subs, streams⟩, fun _ => ⟨calls, pending⟩⟩

/-- A reply that can only be `Internal`. -/
def Quits (reply : Reply) : Prop := ∀ result, reply = .sent result → result = .error .internal

theorem Took.quits (took : Took codec config platform s input after emitted)
    (exited : after.engine.Exited) {call : ℕ} (quits : Quits (s.calls call).reply) :
    Quits (after.calls call).reply := by
  intro result sent
  rcases took.reply_sent sent with old | internal | ⟨-, parked, -⟩
  · exact quits result old
  · exact internal
  · simp [parked, Engine.Exited] at exited

theorem Took.exited (took : Took codec config platform s input after emitted)
    (exited : s.engine.Exited) : after.engine.Exited := by
  cases took with
  | called => exact exited
  | unnumbered => exact exited
  | subscribed => exact exited
  | wrote => exact exited
  | enqueued =>
      obtain ⟨calls, eq⟩ := State.proceed_eq _ _
      exact eq ▸ exited
  | evicting =>
      obtain ⟨calls, eq⟩ := State.proceed_eq _ _
      exact eq ▸ exited
  | failed =>
      obtain ⟨calls, streams, eq⟩ := State.fail_eq _ _
      exact eq ▸ exited
  | degraded => exact exited
  | displaced =>
      obtain ⟨calls, eq⟩ := State.discard_eq _ _
      exact eq ▸ exited
  | resolved => exact exited
  | abandoned => exact exited
  | cancelled => exact exited
  | refused => exact exited
  | requested => exact exited
  | handed => exact exited
  | unlistened => exact exited
  | ignored => exact exited
  | dialed dialing => simp [dialing, Engine.Exited] at exited
  | redialing => exact exited
  | greeted greeting => simp [greeting, Engine.Exited] at exited
  | welcomed greeted => simp [greeted, Engine.Exited] at exited
  | pinging parked => simp [parked, Engine.Exited] at exited
  | lost _ running => exact absurd exited running
  | unsent sending => simp [sending, Engine.Exited] at exited
  | left running => exact absurd exited running
  | sent sending => simp [sending, Engine.Exited] at exited
  | answered parked => simp [parked, Engine.Exited] at exited
  | declined parked => simp [parked, Engine.Exited] at exited
  | unmatched => exact exited
  | delivered parked => simp [parked, Engine.Exited] at exited
  | broken parked => simp [parked, Engine.Exited] at exited
  | pruning parked => simp [parked, Engine.Exited] at exited
  | took parked => simp [parked, Engine.Exited] at exited
  | filed holding => simp [holding, Engine.Exited] at exited
  | forgotten holding => simp [holding, Engine.Exited] at exited
  | cancelling holding => simp [holding, Engine.Exited] at exited
  | subscribing holding => simp [holding, Engine.Exited] at exited
  | writing holding => simp [holding, Engine.Exited] at exited
  | swept sweeping => simp [sweeping, Engine.Exited] at exited
  | spared sweeping => simp [sweeping, Engine.Exited] at exited
  | reclaimed sweeping => simp [sweeping, Engine.Exited] at exited
  | closed => exact .inr (.inl rfl)
  | drained =>
      obtain ⟨calls, eq⟩ := State.discard_eq _ _
      exact eq ▸ exited
  | halted => exact .inr (.inr rfl)

theorem quits_of_exited {allowed : State → Input → Prop} (exited : s.engine.Exited)
    {last : State}
    {more : List Record} (reached : Reaches (step codec config platform) allowed s last more)
    {call : ℕ} (quits : Quits (s.calls call).reply) :
    last.engine.Exited ∧ Quits (last.calls call).reply := by
  refine reached.invariant
    (fun state _ => state.engine.Exited ∧ Quits (state.calls call).reply) ⟨exited, quits⟩ ?_
  rintro state log input after emitted _ _ stepped ⟨exited, quits⟩
  have took := took_of_step stepped
  exact ⟨took.exited exited, took.quits (took.exited exited) quits⟩

theorem used_of_stopped (custody : Custody s) (tables : Tables s) (stopped : s.engine = .stopped)
    (enqueuing : s.enqueuing = []) (evicted : s.evicted = []) (call : ℕ) :
    (s.calls call).reply ≠ .held := by
  intro held
  cases has : (s.calls call).id with
  | none => exact custody.unowned has held
  | some id =>
      have owed := custody.owed has
      have pending := (tables.vacant (by simp [stopped, Engine.Connected])).1
      have queue := tables.emptied stopped
      simp [held, State.copies, State.openings, State.commands, pending, queue, enqueuing, evicted,
        stopped, Engine.hand] at owed

theorem stops_of_draining (draining : s.engine = .draining) :
    ∃ last, replay (step codec config platform) s
      (List.replicate (s.queue.length + 1) .drain) = some (last, []) ∧
          last.engine = .stopped := by
  induction queue : s.queue generalizing s with
  | nil =>
      refine ⟨{ s with engine := .stopped }, ?_, rfl⟩
      simp [replay, step, draining, State.onDrain, queue]
  | cons cmd rest inductionHypothesis =>
      obtain ⟨calls, eq⟩ := State.discard_eq { s with queue := rest } cmd
      have next : ({ s with queue := rest, calls } : State).engine = .draining := draining
      obtain ⟨last, replayed, stopped⟩ := inductionHypothesis next rfl
      refine ⟨last, ?_, stopped⟩
      rw [List.length_cons, List.replicate_succ, replay]
      have stepped : step codec config platform s .drain =
          some ({ s with queue := rest, calls }, []) := by
        have drains : s.onDrain = { s with queue := rest }.discard cmd := by
          simp only [State.onDrain, queue]
        rw [step, if_pos draining, drains, eq]
      rw [stepped]
      simp [replayed]

theorem stops_of_leaving (leaving : s.engine = .leaving) :
    ∃ last, replay (step codec config platform) s
      (.closeQueue :: List.replicate (s.queue.length + 1) .drain) = some (last, []) ∧
        last.engine = .stopped := by
  obtain ⟨last, replayed, stopped⟩ := @stops_of_draining codec config platform
    { s with queueClosed := true, engine := .draining } rfl
  refine ⟨last, ?_, stopped⟩
  simp [replay, step, leaving, replayed]

/-- The senders of a call are queued, pending, or in the engine's hand. -/
def State.Holds (s : State) (call : ℕ) : Prop :=
  (∃ id method params, .call id method params call ∈ s.commands) ∨
    ∃ id, s.pending.lookup id = some call

structure Demultiplexed (codec : EnvelopeCodec) (config : ClientConfig) (platform : Platform)
    (s : State) (log : List Record) : Prop where
  once : ∀ call, log.countP (Record.resolves call) ≤ 1
  genuine : ∀ {before after call result}, log = before ++ .resolved call result :: after →
    Genuine s before call result
  disjoint : ∀ {id call}, s.pending.lookup id = some call → s.subs.lookup (subKey id) = none
  touched : ∀ {bytes id result after emitted},
    codec.decodeOutbound bytes = .ok (.reply id result) →
    step codec config platform s (.inbound (some bytes)) = some (after, emitted) →
    ((∃ call, (s.calls call).id = some id) →
      after.subs = s.subs ∧ after.streams = s.streams) ∧
    ((∃ stream, (s.streams stream).id = some id) →
      after.calls = s.calls ∧ after.pending = s.pending)
  /-- However the engine ends, once it has stopped and the handles are at rest. -/
  ended : ∀ {input after emitted last more call}, s.Holds call →
    step codec config platform s input = some (after, emitted) → after.engine.Exited →
    Reachable (step codec config platform) after last more → last.engine = .stopped →
    last.enqueuing = [] → last.evicted = [] →
    State.received (last.calls call).reply = some (.error .internal) ∧
      ∀ result, (last.calls call).phase = .resolved result → result = .error .internal
  stops : s.engine = .leaving → ∃ last, replay (step codec config platform) s
    (.closeQueue :: List.replicate (s.queue.length + 1) .drain) = some (last, []) ∧
      last.engine = .stopped

theorem held_of_holds (ids : Ids s) (custody : Custody s) {call : ℕ} (holds : s.Holds call) :
    (s.calls call).reply = .held := by
  rcases holds with ⟨id, method, params, mem⟩ | ⟨id, found⟩
  · exact custody.held_of_command ids mem
  · exact custody.held_of_filed ids found

theorem internal_of_ended {log : List Record}
    (reached : Reachable (step codec config platform) {} s log) {call : ℕ} (holds : s.Holds call)
    (stepped : step codec config platform s input = some (after, emitted))
    (exited : after.engine.Exited) {last : State} {more : List Record}
    (rest : Reachable (step codec config platform) after last more)
    (stopped : last.engine = .stopped) (enqueuing : last.enqueuing = [])
    (evicted : last.evicted = []) :
    State.received (last.calls call).reply = some (.error .internal) ∧
      ∀ result, (last.calls call).phase = .resolved result → result = .error .internal := by
  obtain ⟨ids, custody⟩ := custody_of_runs reached
  have held := held_of_holds ids custody holds
  have unanswered : Quits (s.calls call).reply := by simp [held, Quits]
  have quits := (took_of_step stepped).quits exited unanswered
  have whole := (reached.next trivial stepped).trans rest
  have told := (quits_of_exited exited rest quits).2
  have used := used_of_stopped (custody_of_runs whole).2 (tables_of_runs whole) stopped enqueuing
    evicted call
  constructor
  · cases reply : (last.calls call).reply with
    | held => exact absurd reply used
    | sent result => rw [State.received, told result reply]
    | dropped => rfl
  · intro result resolved
    exact ((traced_of_runs whole).told resolved).elim id (told result)

/-- Replies are told to the call they answer, once, and to no subscription. -/
theorem demultiplexed_of_reachable {log : List Record}
    (reached : Reachable (step codec config platform) {} s log) :
    Demultiplexed codec config platform s log := by
  obtain ⟨ids, custody⟩ := custody_of_runs reached
  have tables := tables_of_runs reached
  have traced := traced_of_runs reached
  exact ⟨traced.once, traced.genuine, ids.disjoint, reply_touches_owner ids tables,
    fun holds stepped exited rest => internal_of_ended reached holds stepped exited rest,
    stops_of_leaving⟩

def platform32 : Platform := ⟨2 ^ 32 - 1, by decide⟩

/-- One call is answered and one is pending when the engine ends. -/
theorem demultiplexed_of_lateReply :
    ∃ s log, Demultiplexed (Aimx.aimxCodec .reference) {} platform32 s log ∧
      log = [.dialed 1, .sent 1 (.request 1 "a" (utf8 "1")),
        .sent 1 (.request 2 "b" (utf8 "1")), .replied 1 1 (.ok (utf8 "7")),
        .replied 1 1 (.ok (utf8 "7")), .resolved 0 (.ok (utf8 "7")),
        .resolved 1 (.error .internal)] := by
  have replayed : (replay (step (Aimx.aimxCodec .reference) {} platform32) {}
      [.dial (.ok ()), .call "a" (utf8 "1"), .enqueue 0, .take, .act, .sent true,
        .call "b" (utf8 "1"), .enqueue 0, .take, .act, .sent true,
        .inbound (some (utf8 "\x7b\"t\":\"reply\",\"id\":1,\"ok\":7\x7d")),
        .inbound (some (utf8 "\x7b\"t\":\"reply\",\"id\":1,\"ok\":7\x7d")),
        .resolve 0, .stop, .resolve 1]).map Prod.snd =
      some [.dialed 1, .sent 1 (.request 1 "a" (utf8 "1")),
        .sent 1 (.request 2 "b" (utf8 "1")), .replied 1 1 (.ok (utf8 "7")),
        .replied 1 1 (.ok (utf8 "7")), .resolved 0 (.ok (utf8 "7")),
        .resolved 1 (.error .internal)] := by
    decide
  obtain ⟨⟨s, log⟩, run, same⟩ := Option.map_eq_some_iff.mp replayed
  exact ⟨s, log, demultiplexed_of_reachable (reachable_of_replay run), same⟩

end AimDb.Session.Client
