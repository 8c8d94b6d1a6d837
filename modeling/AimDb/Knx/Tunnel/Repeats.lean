import AimDb.Knx.Tunnel.Accounting
import AimDb.Knx.Tunnel.Timers
import AimDb.Transition.Monitor

/-!
# Repeats of a telegram

A telegram that is not acknowledged is sent again, frame and number unchanged, as
often as the configuration allows. The log says when each attempt was queued and what
ended the telegram; the call that ends the connection is logged like the others.
-/

namespace AimDb.Knx

open Transition Containers

inductive TelegramEvent
  | requested (seq : UInt8) (frame : Frame) (now : Millis)
  | repeated (seq : UInt8) (frame : Frame) (now : Millis)
  | acked (seq : UInt8)
  | failed (seq : UInt8)
  | evicted (seq : UInt8)
  | expired (seq : UInt8) (now : Millis)
  deriving DecidableEq, Repr

namespace TelegramEvent

def seq : TelegramEvent → UInt8
  | requested seq _ _ => seq
  | repeated seq _ _ => seq
  | acked seq => seq
  | failed seq => seq
  | evicted seq => seq
  | expired seq _ => seq

def given : TelegramEvent → Option UInt8
  | requested seq _ _ => some seq
  | _ => none

def sentAt : TelegramEvent → Option Millis
  | requested _ _ now => some now
  | repeated _ _ now => some now
  | _ => none

def isTimeout : TelegramEvent → Bool
  | evicted _ => true
  | expired _ _ => true
  | _ => false

end TelegramEvent

def commandTelegram (now : Millis) : Action → Option TelegramEvent
  | .ackTimeout seq => some (.evicted seq)
  | .send frame (some seq) => some (.requested seq frame now)
  | _ => none

def sweepTelegram (now : Millis) : Action → Option TelegramEvent
  | .ackTimeout seq => some (.expired seq now)
  | .send frame (some seq) => some (.repeated seq frame now)
  | _ => none

variable (pico : KnxPico)

/-- What the log records of a call that queued `queued`. -/
def telegramEvents (queued : List Action) : Call → List TelegramEvent
  | .handleDatagram data _ =>
      match pico.parseFrame data with
      | some (.tunnellingAck, body) => (pico.ackSeq body).toList.map .acked
      | _ => []
  | .handleCommand _ now => queued.filterMap (commandTelegram now)
  | .sendFailed seq => [.failed seq]
  | .poll now => queued.filterMap (sweepTelegram now)
  | _ => []

/-- A call on a connected engine, whether or not it ends the connection. -/
def telegramStep (engine : TunnelEngine) (call : Call) :
    Option (TunnelEngine × List TelegramEvent) :=
  let after := engine.call pico call
  if engine.isConnected then
    some (after, telegramEvents pico (after.actions.drop engine.actions.length) call)
  else none

/-- What the log knows of a telegram that is awaiting its ACK. -/
structure Attempts where
  frame : Frame
  sends : ℕ
  last : Millis

/-- A repeat has the first frame, comes late enough and is one of those allowed; a
timeout is reported once they are used up and the last has gone unanswered. -/
def discipline (retransmits : UInt8) (timeout : Millis) :
    Monitor (UInt8 → Option Attempts) TelegramEvent where
  track memory event :=
    match event with
    | .requested seq frame now => Function.update memory seq (some ⟨frame, 1, now⟩)
    | .repeated seq _ now => Function.update memory seq ((memory seq).map fun attempts =>
        { attempts with sends := attempts.sends + 1, last := now })
    | .acked seq => Function.update memory seq none
    | .failed seq => Function.update memory seq none
    | .evicted seq => Function.update memory seq none
    | .expired seq _ => Function.update memory seq none
  permits memory event :=
    match event with
    | .requested seq _ _ => memory seq = none
    | .repeated seq frame now =>
        ∃ attempts, memory seq = some attempts ∧ attempts.frame = frame ∧
        attempts.sends ≤ retransmits.toNat ∧ timeout < saturatingSub now attempts.last
    | .acked _ => True
    | .failed _ => True
    | .evicted seq => ∃ attempts, memory seq = some attempts
    | .expired seq now => ∃ attempts, memory seq = some attempts ∧
        attempts.sends = 1 + retransmits.toNat ∧ timeout < saturatingSub now attempts.last

/-- An entry of the pending table and what the log knows of it. -/
structure Tracked (retransmits : UInt8) (pending : PendingAck) (attempts : Attempts) : Prop where
  last : pending.sentAt = attempts.last
  started : 0 < attempts.sends
  sends : attempts.sends + pending.retriesLeft.toNat = 1 + retransmits.toNat
  frame : 0 < retransmits → pending.frame = attempts.frame

def Agrees (retransmits : UInt8) (table : PendingAcks)
    (memory : UInt8 → Option Attempts) : Prop :=
  ∀ seq, Option.Rel (Tracked retransmits) (table.get? seq) (memory seq)

/-- The table after the events of `log`, which keep the discipline. -/
structure Follows (retransmits : UInt8) (timeout : Millis) (before after : PendingAcks)
    (log : List TelegramEvent) : Prop where
  accepts : ∀ memory, Agrees retransmits before memory →
    (discipline retransmits timeout).Accepts memory log
  agrees : ∀ memory, Agrees retransmits before memory →
    Agrees retransmits after ((discipline retransmits timeout).remember memory log)

variable {retransmits : UInt8} {timeout : Millis}

theorem Agrees.update {table after : PendingAcks} {memory : UInt8 → Option Attempts}
    (agrees : Agrees retransmits table memory) {seq : UInt8} {attempts : Option Attempts}
    (others : ∀ other, other ≠ seq → after.get? other = table.get? other)
    (here : Option.Rel (Tracked retransmits) (after.get? seq) attempts) :
    Agrees retransmits after (Function.update memory seq attempts) := by
  intro other
  by_cases same : other = seq
  · rw [same, Function.update_self]
    exact here
  · rw [Function.update_of_ne same, others other same]
    exact agrees other

theorem Agrees.tracked {table : PendingAcks} {memory : UInt8 → Option Attempts}
    (agrees : Agrees retransmits table memory) {seq : UInt8} {pending : PendingAck}
    (found : table.get? seq = some pending) :
    ∃ attempts, memory seq = some attempts ∧ Tracked retransmits pending attempts := by
  have both := agrees seq
  rw [found] at both
  cases known : memory seq with
  | none =>
      rw [known] at both
      cases both
  | some attempts =>
      rw [known] at both
      cases both with
      | some tracked => exact ⟨attempts, rfl, tracked⟩

theorem Agrees.untracked {table : PendingAcks} {memory : UInt8 → Option Attempts}
    (agrees : Agrees retransmits table memory) {seq : UInt8} (fresh : table.get? seq = none) :
    memory seq = none := by
  have both := agrees seq
  rw [fresh] at both
  cases known : memory seq with
  | none => rfl
  | some attempts =>
      rw [known] at both
      cases both

namespace Follows

variable {before middle after : PendingAcks} {log more : List TelegramEvent} {seq : UInt8}
  {pending : PendingAck} {now : Millis}

theorem refl (table : PendingAcks) : Follows retransmits timeout table table [] :=
  ⟨fun _ _ => trivial, fun _ agrees => agrees⟩

theorem trans (first : Follows retransmits timeout before middle log)
    (second : Follows retransmits timeout middle after more) :
    Follows retransmits timeout before after (log ++ more) := by
  refine ⟨fun memory agrees => ?_, fun memory agrees => ?_⟩
  · rw [Monitor.accepts_append]
    exact ⟨first.accepts memory agrees, second.accepts _ (first.agrees memory agrees)⟩
  · rw [Monitor.remember_append]
    exact second.agrees _ (first.agrees memory agrees)

theorem ended {event : TelegramEvent}
    (track : ∀ memory, (discipline retransmits timeout).track memory event =
      Function.update memory seq none)
    (permits : ∀ memory, Agrees retransmits before memory →
      (discipline retransmits timeout).permits memory event) :
    Follows retransmits timeout before (before.remove seq) [event] := by
  refine ⟨fun memory agrees => ⟨permits memory agrees, trivial⟩, fun memory agrees => ?_⟩
  rw [Monitor.remember_cons, Monitor.remember_nil, track]
  refine agrees.update (fun other different => IndexMap.get?_remove_of_ne different) ?_
  rw [IndexMap.get?_remove_self]
  exact .none

theorem requested {frame : Frame} (fresh : seq ∉ before.keys)
    (grown : after.entries = before.entries ++ [(seq, pending)]) (sentAt : pending.sentAt = now)
    (left : pending.retriesLeft = retransmits)
    (isFrame : pending.frame = if 0 < retransmits then frame else []) :
    Follows retransmits timeout before after [.requested seq frame now] := by
  have held := IndexMap.get?_of_append fresh grown
  refine ⟨fun memory agrees => ⟨?_, trivial⟩, fun memory agrees => ?_⟩
  · exact agrees.untracked (IndexMap.get?_eq_none_iff.mpr fresh)
  · refine agrees.update (fun other different => by rw [held, if_neg different]) ?_
    rw [held, if_pos rfl]
    refine .some ⟨sentAt, Nat.one_pos, by rw [left], fun repeats => ?_⟩
    rw [isFrame, if_pos repeats]

theorem repeated (found : before.get? seq = some pending) (left : 0 < pending.retriesLeft)
    (late : timeout < saturatingSub now pending.sentAt) :
    Follows retransmits timeout before
      (before.modify seq fun pending =>
        { pending with retriesLeft := pending.retriesLeft - 1, sentAt := now })
      [.repeated seq pending.frame now] := by
  have one : 1 ≤ pending.retriesLeft.toNat := UInt8.lt_iff_toNat_lt.mp left
  refine ⟨fun memory agrees => ⟨?_, trivial⟩, fun memory agrees => ?_⟩
  · obtain ⟨attempts, known, tracked⟩ := agrees.tracked found
    have sends := tracked.sends
    have started := tracked.started
    have repeats : 0 < retransmits := by
      rw [UInt8.lt_iff_toNat_lt, UInt8.toNat_zero]
      omega
    exact ⟨attempts, known, (tracked.frame repeats).symm, by omega, tracked.last ▸ late⟩
  · obtain ⟨attempts, known, tracked⟩ := agrees.tracked found
    have sends := tracked.sends
    rw [Monitor.remember_cons, Monitor.remember_nil]
    refine agrees.update (fun other different => IndexMap.get?_modify_of_ne _ different) ?_
    rw [IndexMap.get?_modify_self _ found, known]
    refine .some ⟨rfl, Nat.succ_pos _, ?_, tracked.frame⟩
    have fewer : (pending.retriesLeft - 1).toNat = pending.retriesLeft.toNat - 1 :=
      UInt8.toNat_sub_of_le _ _ (UInt8.le_iff_toNat_le.mpr one)
    change attempts.sends + 1 + (pending.retriesLeft - 1).toNat = _
    rw [fewer]
    omega

end Follows

/-- A command whose number is free is tracked, after at most one reported eviction. -/
theorem PendingAcks.follows_track {table : PendingAcks} {seq : UInt8} {pending : PendingAck}
    {frame : Frame} {now : Millis} (fresh : seq ∉ table.keys) (sentAt : pending.sentAt = now)
    (left : pending.retriesLeft = retransmits)
    (isFrame : pending.frame = if 0 < retransmits then frame else []) :
    Follows retransmits timeout table (table.track seq pending).1
      (((table.track seq pending).2 ++ [Action.send frame (some seq)]).filterMap
        (commandTelegram now)) := by
  rw [track]
  rcases IndexMap.insert_of_not_mem pending fresh with
    ⟨full, refused⟩ | ⟨after, inserted, grown⟩
  · obtain ⟨⟨oldest, value⟩, isHead, isKey⟩ := head?_of_full full
    have held : oldest ∈ table.keys := isKey
    have freshLeft : seq ∉ (table.remove oldest).keys := fun mem =>
      fresh (IndexMap.mem_keys_remove.mp mem).1
    have room : ¬ pendingAckCapacity ≤ (table.remove oldest).entries.length := by
      have shorter := IndexMap.length_remove_of_mem held
      have bounded := table.bounded
      omega
    have evicted : Follows retransmits timeout table (table.remove oldest) [.evicted oldest] := by
      refine .ended (fun _ => rfl) fun memory agrees => ?_
      obtain ⟨pending, found⟩ := IndexMap.mem_keys_iff.mp held
      obtain ⟨attempts, known, -⟩ := agrees.tracked (IndexMap.get?_eq_some_iff.mpr found)
      exact ⟨attempts, known⟩
    rw [refused, isHead]
    rcases IndexMap.insert_of_not_mem pending freshLeft with
      ⟨stillFull, -⟩ | ⟨after, inserted, grown⟩
    · exact absurd stillFull room
    · change Follows retransmits timeout table
        (((table.remove oldest).insert seq pending).getD (table.remove oldest))
        ([.evicted oldest] ++ [.requested seq frame now])
      rw [inserted]
      exact evicted.trans (.requested freshLeft grown sentAt left isFrame)
  · rw [inserted]
    exact .requested fresh grown sentAt left isFrame

theorem Sweep.follows_expire (cfg : TunnelConfig) (now : Millis) (sweep : Sweep) {seq : UInt8}
    {table : PendingAcks}
    (follows : Follows cfg.ackRetransmits cfg.ackTimeout table sweep.pendingAcks
      (sweep.queued.filterMap (sweepTelegram now)))
    (late : ∀ pending, sweep.pendingAcks.get? seq = some pending →
      cfg.ackTimeout < saturatingSub now pending.sentAt) :
    Follows cfg.ackRetransmits cfg.ackTimeout table (sweep.expire cfg now seq).pendingAcks
      ((sweep.expire cfg now seq).queued.filterMap (sweepTelegram now)) := by
  rw [expire]
  cases found : sweep.pendingAcks.get? seq with
  | none => exact follows
  | some pending =>
      dsimp only
      split
      · next left =>
        rw [List.filterMap_append]
        exact follows.trans (.repeated found left (late pending found))
      · next none =>
        have zero : pending.retriesLeft.toNat = 0 := by
          rw [UInt8.lt_iff_toNat_lt, UInt8.toNat_zero] at none
          omega
        have reported : Follows cfg.ackRetransmits cfg.ackTimeout sweep.pendingAcks
            (sweep.pendingAcks.remove seq) [.expired seq now] := by
          refine .ended (fun _ => rfl) fun memory agrees => ?_
          obtain ⟨attempts, known, tracked⟩ := agrees.tracked found
          have sends := tracked.sends
          exact ⟨attempts, known, by omega, tracked.last ▸ late pending found⟩
        rw [List.filterMap_append]
        exact follows.trans reported

theorem Sweep.follows_foldl (cfg : TunnelConfig) (now : Millis) {table : PendingAcks}
    {seqs : List UInt8} (distinct : seqs.Nodup) (sweep : Sweep)
    (follows : Follows cfg.ackRetransmits cfg.ackTimeout table sweep.pendingAcks
      (sweep.queued.filterMap (sweepTelegram now)))
    (late : ∀ seq ∈ seqs, ∀ pending, sweep.pendingAcks.get? seq = some pending →
      cfg.ackTimeout < saturatingSub now pending.sentAt) :
    Follows cfg.ackRetransmits cfg.ackTimeout table
      (seqs.foldl (Sweep.expire cfg now) sweep).pendingAcks
      ((seqs.foldl (Sweep.expire cfg now) sweep).queued.filterMap (sweepTelegram now)) := by
  induction seqs generalizing sweep with
  | nil => exact follows
  | cons seq rest inductionHypothesis =>
      obtain ⟨fresh, distinctRest⟩ := List.nodup_cons.mp distinct
      refine inductionHypothesis distinctRest _
        (sweep.follows_expire cfg now follows (late seq List.mem_cons_self)) ?_
      intro other mem pending found
      have different : other ≠ seq := fun same => fresh (same ▸ mem)
      rw [(sweep.expire_spec cfg now seq).2 other different] at found
      exact late other (List.mem_cons_of_mem _ mem) pending found

theorem ChannelState.follows_sweepAcks (cfg : TunnelConfig) (now : Millis) (state : ChannelState) :
    Follows cfg.ackRetransmits cfg.ackTimeout state.pendingAcks
      (state.sweepAcks cfg now).1.pendingAcks
      ((state.sweepAcks cfg now).2.1.filterMap (sweepTelegram now)) := by
  rw [sweepAcks]
  split
  · have distinct : (state.expired cfg now).Nodup :=
      state.pendingAcks.distinct.sublist (List.filter_sublist.map _)
    refine Sweep.follows_foldl cfg now distinct { pendingAcks := state.pendingAcks } (.refl _) ?_
    intro seq mem pending found
    obtain ⟨entry, isExpired, isSeq⟩ := List.mem_map.mp mem
    obtain ⟨held, late⟩ := List.mem_filter.mp isExpired
    have same : (seq, pending) = entry :=
      List.inj_on_of_nodup_map state.pendingAcks.distinct (IndexMap.get?_eq_some_iff.mp found) held
        isSeq.symm
    rw [← same] at late
    exact of_decide_eq_true late
  · exact .refl _

theorem ChannelState.follows_receive (state : ChannelState) (data : List UInt8) (now : Millis)
    (queued : List Action) :
    Follows retransmits timeout state.pendingAcks (state.receive pico data).1.pendingAcks
      (telegramEvents pico queued (.handleDatagram data now)) := by
  rw [receive, telegramEvents]
  cases pico.parseFrame data with
  | none => exact .refl _
  | some frame =>
      obtain ⟨service, body⟩ := frame
      cases service with
      | tunnellingAck =>
          dsimp only
          cases pico.ackSeq body with
          | none => exact .refl _
          | some seq => exact .ended (fun _ => rfl) fun _ _ => trivial
      | tunnellingRequest =>
          dsimp only
          cases pico.parseTunnelingRequest body with
          | none => exact .refl _
          | some request =>
              dsimp only
              cases pico.parseTelegram request.2 <;> exact .refl _
      | connectionstateResponse =>
          dsimp only
          cases pico.parseConnectionStateResponse body with
          | none => exact .refl _
          | some ok => cases ok <;> exact .refl _
      | connectResponse => exact .refl _
      | other => exact .refl _

theorem ChannelState.keepAlive_unlogged (cfg : TunnelConfig) (now : Millis)
    (state : ChannelState) :
    (state.keepAlive pico cfg now).2.filterMap (sweepTelegram now) = [] := by
  rw [keepAlive]
  split <;> rfl

/-- The end of a connection queues nothing the log records. -/
theorem drop_handleSocketError (engine : TunnelEngine) (phase : Phase) (queued : List Action)
    (now : Millis) :
    (((engine.enter phase).queue queued).handleSocketError now).actions.drop
        engine.actions.length = queued ++ [.resetSocket] := by
  have appended : (((engine.enter phase).queue queued).handleSocketError now).actions =
      engine.actions ++ (queued ++ [.resetSocket]) := by
    cases phase <;>
      simp [TunnelEngine.handleSocketError, TunnelEngine.queue, TunnelEngine.enter]
  rw [appended, List.drop_left]

theorem poll_queued {engine : TunnelEngine} {state : ChannelState} (now : Millis)
    (phase : engine.phase = .connected state) :
    (state.overdue engine.cfg now = true ∧
      (engine.poll pico now).actions.drop engine.actions.length = [.resetSocket] ∧
      (engine.poll pico now).isConnected = false) ∨
    ∃ polled, polled = (state.keepAlive pico engine.cfg now).1.sweepAcks engine.cfg now ∧
      (engine.poll pico now).actions.drop engine.actions.length =
        (state.keepAlive pico engine.cfg now).2 ++ polled.2.1 ++
          (if polled.2.2 then [.resetSocket] else []) ∧
      (engine.poll pico now).phase = if polled.2.2 then
        .backoff (now + engine.cfg.reconnectBackoff) else .connected polled.1 := by
  simp only [TunnelEngine.poll, phase]
  split
  · next late =>
    refine .inl ⟨late, ?_, handleSocketError_ends _ _⟩
    simp [TunnelEngine.handleSocketError, TunnelEngine.queue, TunnelEngine.enter, phase]
  · refine .inr ⟨_, rfl, ?_⟩
    split
    · exact ⟨drop_handleSocketError .., rfl⟩
    · rw [List.append_nil]
      exact ⟨drop_queue .., rfl⟩

theorem telegramStep_follows {engine after : TunnelEngine} {call : Call}
    {log : List TelegramEvent} (free : SeqFree engine call)
    (stepped : telegramStep pico engine call = some (after, log)) :
    ∃ state table, engine.phase = .connected state ∧
      Follows engine.cfg.ackRetransmits engine.cfg.ackTimeout state.pendingAcks table log ∧
      ∀ state', after.phase = .connected state' → state'.pendingAcks = table := by
  rw [telegramStep] at stepped
  split at stepped
  · next connected =>
    obtain ⟨rfl, rfl⟩ := Prod.mk.inj (Option.some.inj stepped)
    obtain ⟨state, phase⟩ := isConnected_iff.mp connected
    cases call with
    | handleDatagram data now =>
        refine ⟨state, _, phase, state.follows_receive pico data now _, fun state' still => ?_⟩
        simp only [TunnelEngine.call, TunnelEngine.handleDatagram, phase] at still
        split at still
        · exact absurd still (handleSocketError_phase _ _ _)
        · rw [← Phase.connected.inj still]
    | handleCommand cmd now =>
        have seqFree : state.outboundSeq ∉ state.pendingAcks.keys := by
          simpa [SeqFree, phase] using free
        simp only [TunnelEngine.call, TunnelEngine.handleCommand, phase, telegramEvents, drop_queue]
        refine ⟨state, _, rfl, PendingAcks.follows_track seqFree rfl rfl rfl,
          fun state' still => ?_⟩
        rw [← Phase.connected.inj still]
    | sendFailed seq =>
        simp only [TunnelEngine.call, TunnelEngine.sendFailed, phase, telegramEvents]
        refine ⟨state, _, rfl, .ended (fun _ => rfl) fun _ _ => trivial, fun state' still => ?_⟩
        rw [← Phase.connected.inj still]
    | handleSocketError now =>
        exact ⟨state, _, phase, .refl _,
          fun state' still => absurd still (handleSocketError_phase _ _ _)⟩
    | poll now =>
        rw [telegramEvents, TunnelEngine.call]
        rcases poll_queued pico now phase with
          ⟨-, queued, gone⟩ | ⟨polled, isPolled, queued, next⟩
        · rw [queued]
          refine ⟨state, _, phase, .refl _, fun state' still => ?_⟩
          rw [isConnected_of_phase still] at gone
          cases gone
        · have sameTable := (keepAlive_spec pico engine.cfg now state).1
          have follows := (state.keepAlive pico engine.cfg now).1.follows_sweepAcks engine.cfg now
          rw [sameTable, ← isPolled] at follows
          have logged : ((engine.poll pico now).actions.drop engine.actions.length).filterMap
              (sweepTelegram now) = polled.2.1.filterMap (sweepTelegram now) := by
            rw [queued, List.filterMap_append, List.filterMap_append,
              state.keepAlive_unlogged pico engine.cfg now, List.nil_append]
            split <;> simp [sweepTelegram]
          rw [logged]
          refine ⟨state, _, phase, follows, fun state' still => ?_⟩
          rw [next] at still
          split at still
          · cases still
          · rw [← Phase.connected.inj still]
    | nextAction =>
        refine ⟨state, _, phase, .refl _, fun state' still => ?_⟩
        rw [Phase.connected.inj (phase.symm.trans still)]
    | setLocalEndpoint ep =>
        refine ⟨state, _, phase, .refl _, fun state' still => ?_⟩
        rw [Phase.connected.inj (phase.symm.trans still)]
  · cases stepped

section Log

variable {memory : UInt8 → Option Attempts} {seq : UInt8} {log front back : List TelegramEvent}
  {attempts : Attempts}

def sendsOf (seq : UInt8) (log : List TelegramEvent) : ℕ :=
  log.countP fun event => event.seq = seq && event.sentAt.isSome

def timeoutsOf (seq : UInt8) (log : List TelegramEvent) : ℕ :=
  log.countP fun event => event.seq = seq && event.isTimeout

def givenOf (log : List TelegramEvent) : List UInt8 := log.filterMap TelegramEvent.given

theorem track_of_ne {event : TelegramEvent} (other : event.seq ≠ seq) :
    (discipline retransmits timeout).track memory event seq = memory seq := by
  cases event <;> exact Function.update_of_ne (Ne.symm other) _ _

theorem track_self {event : TelegramEvent} (own : event.seq = seq)
    (permitted : (discipline retransmits timeout).permits memory event) :
    (∃ frame now, event = .requested seq frame now ∧ memory seq = none ∧
      (discipline retransmits timeout).track memory event seq = some ⟨frame, 1, now⟩) ∨
    (∃ now attempts, event = .repeated seq attempts.frame now ∧ memory seq = some attempts ∧
      attempts.sends ≤ retransmits.toNat ∧
      (discipline retransmits timeout).track memory event seq =
        some { attempts with sends := attempts.sends + 1, last := now }) ∨
    (event.sentAt = none ∧ (event.isTimeout = true → memory seq ≠ none) ∧
      (discipline retransmits timeout).track memory event seq = none) := by
  subst own
  cases event with
  | requested seq frame now =>
      exact .inl ⟨frame, now, rfl, permitted, Function.update_self ..⟩
  | repeated seq frame now =>
      obtain ⟨attempts, known, rfl, left, -⟩ := permitted
      refine .inr (.inl ⟨now, attempts, rfl, known, left, ?_⟩)
      change Function.update memory seq _ seq = _
      rw [Function.update_self, known]
      rfl
  | acked seq =>
      exact .inr (.inr ⟨rfl, fun timeout => (by cases timeout), Function.update_self ..⟩)
  | failed seq =>
      exact .inr (.inr ⟨rfl, fun timeout => (by cases timeout), Function.update_self ..⟩)
  | evicted seq =>
      obtain ⟨attempts, known⟩ := permitted
      exact .inr (.inr ⟨rfl, fun _ none => (by cases known.symm.trans none),
        Function.update_self ..⟩)
  | expired seq now =>
      obtain ⟨attempts, known, -⟩ := permitted
      exact .inr (.inr ⟨rfl, fun _ none => (by cases known.symm.trans none),
        Function.update_self ..⟩)

theorem not_mem_givenOf_cons {event : TelegramEvent} :
    seq ∉ givenOf (event :: log) ↔ event.given ≠ some seq ∧ seq ∉ givenOf log := by
  simp [givenOf, List.mem_filterMap, eq_comm]

theorem idle (unknown : memory seq = none) (ungiven : seq ∉ givenOf log)
    (accepted : (discipline retransmits timeout).Accepts memory log) :
    (discipline retransmits timeout).remember memory log seq = none ∧
      ∀ event ∈ log, event.seq = seq → event.sentAt = none ∧ event.isTimeout = false := by
  induction log generalizing memory with
  | nil => exact ⟨unknown, by simp⟩
  | cons event rest inductionHypothesis =>
      obtain ⟨other, later⟩ := not_mem_givenOf_cons.mp ungiven
      obtain ⟨permitted, accepted⟩ := accepted
      have still : (discipline retransmits timeout).track memory event seq = none ∧
          (event.seq = seq → event.sentAt = none ∧ event.isTimeout = false) := by
        by_cases own : event.seq = seq
        · rcases track_self own permitted with ⟨frame, now, rfl, -⟩ | ⟨_, _, -, known, -⟩ |
            ⟨unsent, timeout, after⟩
          · exact absurd rfl other
          · cases known.symm.trans unknown
          · exact ⟨after, fun _ =>
              ⟨unsent, Bool.eq_false_iff.mpr fun is => timeout is unknown⟩⟩
        · exact ⟨(track_of_ne own).trans unknown, fun same => absurd same own⟩
      obtain ⟨after, quiet⟩ := inductionHypothesis still.1 later accepted
      exact ⟨after, List.forall_mem_cons.mpr ⟨still.2, quiet⟩⟩

theorem idle_counts (unknown : memory seq = none) (ungiven : seq ∉ givenOf log)
    (accepted : (discipline retransmits timeout).Accepts memory log) :
    sendsOf seq log = 0 ∧ timeoutsOf seq log = 0 := by
  have quiet := (idle unknown ungiven accepted).2
  constructor <;> refine List.countP_eq_zero.mpr fun event mem => ?_
  · by_cases own : event.seq = seq
    · simp [(quiet event mem own).1]
    · simp [own]
  · by_cases own : event.seq = seq
    · simp [(quiet event mem own).2]
    · simp [own]

theorem sendsOf_cons_of_ne {event : TelegramEvent} (other : event.seq ≠ seq) :
    sendsOf seq (event :: log) = sendsOf seq log :=
  List.countP_cons_of_neg (by simp [other])

theorem timeoutsOf_cons_of_ne {event : TelegramEvent} (other : event.seq ≠ seq) :
    timeoutsOf seq (event :: log) = timeoutsOf seq log :=
  List.countP_cons_of_neg (by simp [other])

/-- A telegram that is awaiting its ACK is sent as often as is left to it, and
reported once at most. -/
theorem pending_counts (known : memory seq = some attempts) (ungiven : seq ∉ givenOf log)
    (room : attempts.sends ≤ 1 + retransmits.toNat)
    (accepted : (discipline retransmits timeout).Accepts memory log) :
    attempts.sends + sendsOf seq log ≤ 1 + retransmits.toNat ∧ timeoutsOf seq log ≤ 1 ∧
      ∀ last, (discipline retransmits timeout).remember memory log seq = some last →
        last.sends = attempts.sends + sendsOf seq log := by
  induction log generalizing memory attempts with
  | nil =>
      refine ⟨room, Nat.zero_le _, fun last isLast => ?_⟩
      rw [Option.some.inj (known.symm.trans isLast)]
      rfl
  | cons event rest inductionHypothesis =>
      obtain ⟨fresh, later⟩ := not_mem_givenOf_cons.mp ungiven
      obtain ⟨permitted, accepted⟩ := accepted
      by_cases own : event.seq = seq
      · rcases track_self own permitted with ⟨frame, now, rfl, -⟩ |
          ⟨now, held, rfl, isHeld, left, after⟩ | ⟨unsent, -, after⟩
        · exact absurd rfl fresh
        · obtain rfl := Option.some.inj (known.symm.trans isHeld)
          obtain ⟨sends, timeouts, last⟩ :=
            inductionHypothesis after later (by simp; omega) accepted
          have sent : sendsOf seq (.repeated seq attempts.frame now :: rest) =
              sendsOf seq rest + 1 := List.countP_cons_of_pos (by simp [TelegramEvent.seq,
                TelegramEvent.sentAt])
          have quiet : timeoutsOf seq (.repeated seq attempts.frame now :: rest) =
              timeoutsOf seq rest := List.countP_cons_of_neg (by simp [TelegramEvent.isTimeout])
          rw [sent, quiet]
          refine ⟨by simp at sends; omega, timeouts, fun final isFinal => ?_⟩
          have total := last final isFinal
          simp at total
          omega
        · obtain ⟨sends, timeouts⟩ := idle_counts after later accepted
          have none := (idle after later accepted).1
          have sent : sendsOf seq (event :: rest) = sendsOf seq rest :=
            List.countP_cons_of_neg (by simp [unsent])
          have reported : timeoutsOf seq (event :: rest) ≤ timeoutsOf seq rest + 1 := by
            rw [timeoutsOf, List.countP_cons, timeoutsOf]
            split <;> omega
          rw [sent, sends]
          refine ⟨room, by omega, fun final isFinal => ?_⟩
          cases none.symm.trans isFinal
      · rw [sendsOf_cons_of_ne own, timeoutsOf_cons_of_ne own]
        exact inductionHypothesis ((track_of_ne own).trans known) later room accepted

theorem requested_of_remember
    (accepted : (discipline retransmits timeout).Accepts memory log)
    (known : (discipline retransmits timeout).remember memory log seq = some attempts) :
    (∃ earlier, memory seq = some earlier ∧ earlier.frame = attempts.frame) ∨
      ∃ first, .requested seq attempts.frame first ∈ log := by
  induction log generalizing memory with
  | nil => exact .inl ⟨attempts, known, rfl⟩
  | cons event rest inductionHypothesis =>
      obtain ⟨permitted, accepted⟩ := accepted
      rcases inductionHypothesis accepted known with ⟨earlier, before, same⟩ | ⟨first, mem⟩
      · by_cases own : event.seq = seq
        · rcases track_self own permitted with ⟨frame, now, rfl, -, after⟩ |
            ⟨now, held, rfl, isHeld, -, after⟩ | ⟨-, -, after⟩
          · obtain rfl := Option.some.inj (after.symm.trans before)
            exact .inr ⟨now, by rw [← same]; exact List.mem_cons_self⟩
          · obtain rfl := Option.some.inj (after.symm.trans before)
            exact .inl ⟨held, isHeld, same⟩
          · cases after.symm.trans before
        · exact .inl ⟨earlier, (track_of_ne own).symm.trans before, same⟩
      · exact .inr ⟨first, List.mem_cons_of_mem _ mem⟩

/-- Nothing has happened to a telegram that is awaiting its ACK since its last attempt. -/
theorem attempt_of_remember
    (accepted : (discipline retransmits timeout).Accepts memory log)
    (known : (discipline retransmits timeout).remember memory log seq = some attempts) :
    (memory seq = some attempts ∧ ∀ event ∈ log, event.seq ≠ seq) ∨
      ∃ front attempt middle, log = front ++ attempt :: middle ∧ attempt.seq = seq ∧
        attempt.sentAt = some attempts.last ∧ ∀ event ∈ middle, event.seq ≠ seq := by
  induction log generalizing memory with
  | nil => exact .inl ⟨known, by simp⟩
  | cons event rest inductionHypothesis =>
      obtain ⟨permitted, accepted⟩ := accepted
      rcases inductionHypothesis accepted known with ⟨before, others⟩ |
        ⟨front, attempt, middle, rfl, found⟩
      · by_cases own : event.seq = seq
        · refine .inr ⟨[], event, rest, rfl, own, ?_, others⟩
          rcases track_self own permitted with ⟨frame, now, rfl, -, after⟩ |
            ⟨now, held, rfl, -, -, after⟩ | ⟨-, -, after⟩
          · obtain rfl := Option.some.inj (after.symm.trans before)
            rfl
          · obtain rfl := Option.some.inj (after.symm.trans before)
            rfl
          · cases after.symm.trans before
        · exact .inl ⟨(track_of_ne own).symm.trans before,
            List.forall_mem_cons.mpr ⟨own, others⟩⟩
      · exact .inr ⟨event :: front, attempt, middle, rfl, found⟩

theorem split_given (distinct : (givenOf log).Nodup) (given : seq ∈ givenOf log) :
    ∃ front frame now back, log = front ++ .requested seq frame now :: back ∧
      seq ∉ givenOf front ∧ seq ∉ givenOf back := by
  obtain ⟨event, mem, isSeq⟩ := List.mem_filterMap.mp given
  obtain ⟨front, back, rfl⟩ := List.append_of_mem mem
  cases event with
  | requested other frame now =>
      obtain rfl := Option.some.inj isSeq
      have parts : givenOf (front ++ .requested other frame now :: back) =
          givenOf front ++ other :: givenOf back := List.filterMap_append
      rw [parts, List.nodup_append] at distinct
      refine ⟨front, frame, now, back, rfl, fun mem => ?_, (List.nodup_cons.mp distinct.2.1).1⟩
      exact distinct.2.2 other mem other List.mem_cons_self rfl
  | _ => cases isSeq

end Log

def Action.isTimeout : Action → Bool
  | .ackTimeout _ => true
  | _ => false

/-- The sweep drops the connection for a reported timeout, if repeats are configured. -/
def Sweep.Decides (cfg : TunnelConfig) (sweep : Sweep) : Prop :=
  sweep.dropConnection = (sweep.queued.any Action.isTimeout && 0 < cfg.ackRetransmits)

theorem Sweep.Decides.expire {cfg : TunnelConfig} {sweep : Sweep} (decided : sweep.Decides cfg)
    (now : Millis) (seq : UInt8) : (sweep.expire cfg now seq).Decides cfg := by
  rw [Sweep.expire]
  split
  · exact decided
  · split
    · simpa [Decides, Action.isTimeout] using decided
    · rw [Decides] at decided ⊢
      simp [Action.isTimeout, decided]

theorem ChannelState.sweepAcks_decides (cfg : TunnelConfig) (now : Millis) (state : ChannelState) :
    (state.sweepAcks cfg now).2.2 =
      ((state.sweepAcks cfg now).2.1.any Action.isTimeout && 0 < cfg.ackRetransmits) := by
  rw [sweepAcks]
  split
  · have start : ({ pendingAcks := state.pendingAcks } : Sweep).Decides cfg := rfl
    change (state.sweep cfg now).Decides cfg
    rw [sweep]
    revert start
    generalize ({ pendingAcks := state.pendingAcks } : Sweep) = sweep
    generalize state.expired cfg now = seqs
    intro decided
    induction seqs generalizing sweep with
    | nil => exact decided
    | cons seq rest inductionHypothesis => exact inductionHypothesis _ (decided.expire now seq)
  · rfl

/-- What a poll that reports a timeout leaves behind. -/
def TearsDown (cfg : TunnelConfig) (after : TunnelEngine) (queued : List Action) : Prop :=
  if 0 < cfg.ackRetransmits then
    (∃ until', after.phase = .backoff until') ∧ .resetSocket ∈ queued
  else after.isConnected = true

theorem tearsDown_poll (engine : TunnelEngine) (now : Millis) {seq : UInt8}
    (reported : .ackTimeout seq ∈
      (engine.poll pico now).actions.drop engine.actions.length) :
    TearsDown engine.cfg (engine.poll pico now)
      ((engine.poll pico now).actions.drop engine.actions.length) := by
  cases phase : engine.phase with
  | connected state =>
      rcases poll_queued pico now phase with ⟨-, queued, -⟩ | ⟨polled, rfl, queued, next⟩
      · rw [queued] at reported
        simp at reported
      · have kept : .ackTimeout seq ∉ (state.keepAlive pico engine.cfg now).2 := by
          rw [ChannelState.keepAlive]
          split <;> simp
        have drops := (state.keepAlive pico engine.cfg now).1.sweepAcks_decides engine.cfg now
        generalize (state.keepAlive pico engine.cfg now).1.sweepAcks engine.cfg now = polled at *
        have swept : .ackTimeout seq ∈ polled.2.1 := by
          rw [queued, List.mem_append, List.mem_append] at reported
          rcases reported with (mem | mem) | mem
          · exact absurd mem kept
          · exact mem
          · split at mem <;> simp at mem
        have isReported : polled.2.1.any Action.isTimeout = true :=
          List.any_eq_true.mpr ⟨_, swept, rfl⟩
        rw [isReported, Bool.true_and] at drops
        rw [TearsDown]
        split
        · next repeats =>
          rw [drops, if_pos (by simpa using repeats)] at next queued
          exact ⟨⟨_, next⟩, by rw [queued]; simp⟩
        · next silent =>
          rw [drops, if_neg (by simpa using silent)] at next
          exact isConnected_of_phase next
  | backoff until' =>
      simp only [TunnelEngine.poll, phase] at reported
      split at reported <;> simp [TunnelEngine.queue, TunnelEngine.enter] at reported
  | connecting sentAt =>
      simp only [TunnelEngine.poll, phase] at reported
      split at reported <;> simp [TunnelEngine.queue, TunnelEngine.enter] at reported

/-- What a run within one connection keeps to. -/
structure Disciplined (cfg : TunnelConfig) (log : List TelegramEvent) : Prop where
  bounded : ∀ seq, sendsOf seq log ≤ 1 + cfg.ackRetransmits.toNat
  identical : ∀ before seq frame now after, log = before ++ .repeated seq frame now :: after →
    ∃ first, .requested seq frame first ∈ before
  silent : ∀ before seq after, log = before ++ .acked seq :: after → seq ∈ givenOf before →
    sendsOf seq after = 0
  once : ∀ seq, timeoutsOf seq log ≤ 1
  /-- The sweep reports a timeout after the last attempt has gone unanswered. -/
  late : ∀ before seq now after, log = before ++ .expired seq now :: after →
    sendsOf seq before = 1 + cfg.ackRetransmits.toNat ∧
      ∃ front attempt middle last, before = front ++ attempt :: middle ∧ attempt.seq = seq ∧
        attempt.sentAt = some last ∧ (∀ event ∈ middle, event.seq ≠ seq) ∧
        cfg.ackTimeout < saturatingSub now last

theorem disciplined_of_accepts {cfg : TunnelConfig} {log : List TelegramEvent}
    (distinct : (givenOf log).Nodup)
    (accepted : (discipline cfg.ackRetransmits cfg.ackTimeout).Accepts (fun _ => none) log) :
    Disciplined cfg log := by
  have counts (seq : UInt8) {log : List TelegramEvent} (distinct : (givenOf log).Nodup)
      (accepted : (discipline cfg.ackRetransmits cfg.ackTimeout).Accepts (fun _ => none) log) :
      sendsOf seq log ≤ 1 + cfg.ackRetransmits.toNat ∧ timeoutsOf seq log ≤ 1 ∧
        ∀ last, (discipline cfg.ackRetransmits cfg.ackTimeout).remember (fun _ => none) log seq =
          some last → last.sends = sendsOf seq log := by
    by_cases given : seq ∈ givenOf log
    · obtain ⟨front, frame, now, back, rfl, before, later⟩ := split_given distinct given
      obtain ⟨acceptedFront, permitted, acceptedBack⟩ := Monitor.accepts_append.mp accepted
      obtain ⟨noSends, noTimeouts⟩ := idle_counts rfl before acceptedFront
      obtain ⟨sends, timeouts, last⟩ := pending_counts (Function.update_self ..) later
        (Nat.le_add_right 1 _) acceptedBack
      have sent : sendsOf seq (front ++ .requested seq frame now :: back) =
          sendsOf seq front + (1 + sendsOf seq back) := by
        rw [sendsOf, List.countP_append, List.countP_cons_of_pos (by simp [TelegramEvent.seq,
          TelegramEvent.sentAt]), Nat.add_comm 1]
        rfl
      have reported : timeoutsOf seq (front ++ .requested seq frame now :: back) =
          timeoutsOf seq front + timeoutsOf seq back := by
        rw [timeoutsOf, List.countP_append, List.countP_cons_of_neg (by simp
          [TelegramEvent.isTimeout])]
        rfl
      rw [sent, reported, noSends, noTimeouts, Nat.zero_add, Nat.zero_add, Monitor.remember_append]
      exact ⟨sends, timeouts, last⟩
    · obtain ⟨sends, timeouts⟩ := idle_counts rfl given accepted
      rw [sends, timeouts]
      refine ⟨Nat.zero_le _, Nat.zero_le _, fun last isLast => ?_⟩
      cases (idle rfl given accepted).1.symm.trans isLast
  constructor
  · exact fun seq => (counts seq distinct accepted).1
  · intro before seq frame now after split
    rw [split] at accepted
    obtain ⟨acceptedBefore, ⟨attempts, known, rfl, -⟩, -⟩ :=
      Monitor.accepts_append.mp accepted
    rcases requested_of_remember acceptedBefore known with ⟨_, held, -⟩ | requested
    · cases held
    · exact requested
  · intro before seq after split given
    rw [split] at accepted distinct
    obtain ⟨-, -, acceptedAfter⟩ := Monitor.accepts_append.mp accepted
    have parts : givenOf (before ++ .acked seq :: after) = givenOf before ++ givenOf after :=
      List.filterMap_append
    rw [parts, List.nodup_append] at distinct
    have later : seq ∉ givenOf after := fun mem => distinct.2.2 seq given seq mem rfl
    exact (idle_counts (Function.update_self ..) later acceptedAfter).1
  · exact fun seq => (counts seq distinct accepted).2.1
  · intro before seq now after split
    rw [split] at accepted distinct
    obtain ⟨acceptedBefore, ⟨attempts, known, sends, late⟩, -⟩ :=
      Monitor.accepts_append.mp accepted
    have parts : givenOf (before ++ .expired seq now :: after) = givenOf before ++ givenOf after :=
      List.filterMap_append
    rw [parts, List.nodup_append] at distinct
    refine ⟨?_, ?_⟩
    · rw [← (counts seq distinct.1 acceptedBefore).2.2 attempts known, sends]
    · rcases attempt_of_remember acceptedBefore known with ⟨held, -⟩ |
        ⟨front, attempt, middle, split, isSeq, sentAt, others⟩
      · cases held
      · exact ⟨front, attempt, middle, attempts.last, split, isSeq, sentAt, others, late⟩

theorem given_of_command {engine after : TunnelEngine} {cmd : GroupWrite} {now : Millis}
    {emitted : List TelegramEvent} {state : ChannelState} (phase : engine.phase = .connected state)
    (stepped : telegramStep pico engine (.handleCommand cmd now) = some (after, emitted)) :
    state.outboundSeq ∈ givenOf emitted := by
  rw [telegramStep, isConnected_of_phase phase, if_pos rfl] at stepped
  obtain ⟨rfl, rfl⟩ := Prod.mk.inj (Option.some.inj stepped)
  simp only [TunnelEngine.call, TunnelEngine.handleCommand, phase, telegramEvents, drop_queue,
    List.filterMap_append, givenOf]
  exact List.mem_append_right _ List.mem_cons_self

/-- What a run has kept to, and what its log knows of the connection it is in. -/
structure Regular (start engine : TunnelEngine) (log : List TelegramEvent) : Prop where
  retransmits : engine.cfg.ackRetransmits = start.cfg.ackRetransmits
  timeout : engine.cfg.ackTimeout = start.cfg.ackTimeout
  accepted : (discipline start.cfg.ackRetransmits start.cfg.ackTimeout).Accepts
    (fun _ => none) log
  agrees : ∀ state, engine.phase = .connected state →
    Agrees start.cfg.ackRetransmits state.pendingAcks
      ((discipline start.cfg.ackRetransmits start.cfg.ackTimeout).remember (fun _ => none) log)

theorem Regular.next {start engine after : TunnelEngine} {log emitted : List TelegramEvent}
    {call : Call} (regular : Regular start engine log)
    (distinct : (givenOf (log ++ emitted)).Nodup)
    (stepped : telegramStep pico engine call = some (after, emitted)) :
    Regular start after (log ++ emitted) := by
  have free : SeqFree engine call := by
    unfold SeqFree
    split
    · next state phase =>
      intro mem
      obtain ⟨pending, found⟩ := IndexMap.mem_keys_iff.mp mem
      obtain ⟨attempts, known, -⟩ :=
        (regular.agrees state phase).tracked (IndexMap.get?_eq_some_iff.mpr found)
      rcases requested_of_remember regular.accepted known with
        ⟨_, held, -⟩ | ⟨first, requested⟩
      · cases held
      · have earlier : state.outboundSeq ∈ givenOf log :=
          List.mem_filterMap.mpr ⟨_, requested, rfl⟩
        have again := given_of_command pico phase stepped
        rw [givenOf, List.filterMap_append, List.nodup_append] at distinct
        exact distinct.2.2 _ earlier _ again rfl
    · trivial
  obtain ⟨state, table, phase, follows, next⟩ := telegramStep_follows pico free stepped
  have agrees := regular.agrees state phase
  rw [regular.retransmits, regular.timeout] at follows
  have same : after = engine.call pico call := by
    rw [telegramStep, isConnected_of_phase phase, if_pos rfl] at stepped
    exact (Prod.mk.inj (Option.some.inj stepped)).1.symm
  obtain ⟨ep, cfg⟩ := call_cfg pico engine call
  constructor
  · rw [same, cfg]
    exact regular.retransmits
  · rw [same, cfg]
    exact regular.timeout
  · exact Monitor.accepts_append.mpr ⟨regular.accepted, follows.accepts _ agrees⟩
  · intro state' still
    rw [next state' still, Monitor.remember_append]
    exact follows.agrees _ agrees

theorem regular_of_run {start engine : TunnelEngine} {log : List TelegramEvent}
    (established : start.Established)
    (reached : Reachable (telegramStep pico) start engine log)
    (distinct : (givenOf log).Nodup) : Regular start engine log := by
  revert distinct
  refine reached.invariant (fun engine log => (givenOf log).Nodup →
    Regular start engine log) ?_ ?_
  · intro _
    obtain ⟨channelId, now, phase⟩ := established
    refine ⟨rfl, rfl, trivial, fun state isState seq => ?_⟩
    obtain rfl := Phase.connected.inj (phase.symm.trans isState)
    exact .none
  · intro engine log call after emitted _ _ stepped inductionHypothesis distinct
    have earlier : (givenOf log).Nodup := by
      rw [givenOf, List.filterMap_append, List.nodup_append] at distinct
      exact distinct.1
    exact (inductionHypothesis earlier).next pico distinct stepped

/-- In a run within one connection that gives no number out twice, telegrams are repeated
and reported as the configuration says, and a reported timeout ends the connection exactly
if repeats are configured. -/
theorem retransmission {start engine : TunnelEngine} {log : List TelegramEvent}
    (established : start.Established)
    (reached : Reachable (telegramStep pico) start engine log)
    (distinct : (givenOf log).Nodup) :
    Disciplined start.cfg log ∧
      ∀ now seq, .ackTimeout seq ∈ (engine.poll pico now).actions.drop engine.actions.length →
        TearsDown start.cfg (engine.poll pico now)
          ((engine.poll pico now).actions.drop engine.actions.length) := by
  have regular := regular_of_run pico established reached distinct
  refine ⟨disciplined_of_accepts distinct regular.accepted, fun now seq reported => ?_⟩
  have tears := tearsDown_poll pico engine now reported
  rwa [TearsDown, regular.retransmits] at tears

def repeating : TunnelEngine := ⟨{}, .connected (.new 7 0 {}), []⟩

/-- A telegram that is never acknowledged, up to the poll that gives it up. -/
theorem retransmission_unanswered :
    ∃ engine frame, Reachable (telegramStep reference) repeating engine
        [.requested 0 frame 10, .repeated 0 frame 4000] ∧
      Disciplined {} [.requested 0 frame 10, .repeated 0 frame 4000] ∧
      .ackTimeout 0 ∈ (engine.poll reference 8000).actions.drop engine.actions.length ∧
      TearsDown {} (engine.poll reference 8000)
        ((engine.poll reference 8000).actions.drop engine.actions.length) := by
  have runs : (replay (telegramStep reference) repeating
      [.handleCommand switchOn 10, .poll 4000]).any (fun run =>
        run.2 = [.requested 0 (reference.buildTunnelingRequest 7 0
            (buildGroupWriteCemi 0x0A03 [1])) 10,
          .repeated 0 (reference.buildTunnelingRequest 7 0
            (buildGroupWriteCemi 0x0A03 [1])) 4000] &&
        ((run.1.poll reference 8000).actions.drop run.1.actions.length).contains
          (.ackTimeout 0)) = true := by decide
  obtain ⟨⟨engine, log⟩, replayed, holds⟩ := Option.any_eq_true .. |>.mp runs
  obtain ⟨isLog, reported⟩ := Bool.and_eq_true .. |>.mp holds
  obtain rfl := of_decide_eq_true isLog
  have mem := List.contains_iff_mem.mp reported
  have reached := reachable_of_replay replayed
  have held := retransmission reference ⟨7, 0, rfl⟩ reached (by decide)
  exact ⟨engine, _, reached, held.1, mem, held.2 8000 0 mem⟩

end AimDb.Knx
