import AimDb.Knx.Tunnel
import AimDb.Transition.Runs

/-!
# The timers of the tunnel

A poll before the next deadline does nothing. A poll at a deadline leaves the next
one in the future, unless a deadline it arms passes the end of the clock. A transport
that polls at every deadline keeps a silent connection for a keepalive interval and a
response timeout at most.
-/

namespace AimDb.Knx

open Transition Containers

variable (pico : KnxPico)

theorem size_eq : UInt64.size = 18446744073709551616 := rfl

theorem lt_add_iff {now interval : Millis} (positive : 0 < interval) :
    now < now + interval ↔ now.toNat + interval.toNat < UInt64.size := by
  have bound := now.toNat_lt_size
  have short := interval.toNat_lt_size
  rw [UInt64.lt_iff_toNat_lt] at positive ⊢
  rw [UInt64.toNat_add]
  have zero : (0 : UInt64).toNat = 0 := rfl
  rw [zero] at positive
  change now.toNat < (now.toNat + interval.toNat) % UInt64.size ↔ _
  by_cases fits : now.toNat + interval.toNat < UInt64.size
  · rw [Nat.mod_eq_of_lt fits]
    omega
  · rw [Nat.mod_eq_sub_mod (by omega), Nat.mod_eq_of_lt (by omega)]
    omega

theorem toNat_saturatingAdd (a b : Millis) :
    (saturatingAdd a b).toNat = min (a.toNat + b.toNat) (UInt64.size - 1) := by
  rw [saturatingAdd]
  split
  · next fits =>
    rw [UInt64.toNat_add, Nat.mod_eq_of_lt fits, Nat.min_eq_left (Nat.le_sub_one_of_lt fits)]
  · next tooLong =>
    rw [Nat.min_eq_right (by rw [size_eq] at tooLong ⊢; omega)]
    rfl

theorem lt_saturatingAdd_iff {now interval : Millis} (positive : 0 < interval) :
    now < saturatingAdd now interval ↔ now.toNat + 1 < UInt64.size := by
  rw [UInt64.lt_iff_toNat_lt] at positive ⊢
  have zero : (0 : UInt64).toNat = 0 := rfl
  rw [zero] at positive
  rw [toNat_saturatingAdd, size_eq]
  omega

theorem toNat_add_le (a b : Millis) : (a + b).toNat ≤ a.toNat + b.toNat := by
  rw [UInt64.toNat_add]
  exact Nat.mod_le _ _

structure TunnelConfig.Positive (cfg : TunnelConfig) : Prop where
  connectTimeout : 0 < cfg.connectTimeout
  ackSweep : 0 < cfg.ackSweep
  heartbeat : 0 < cfg.heartbeat
  heartbeatResponseTimeout : 0 < cfg.heartbeatResponseTimeout
  reconnectBackoff : 0 < cfg.reconnectBackoff

theorem lt_min_iff' {now a b : Millis} : now < min a b ↔ now < a ∧ now < b := by
  change now < (if a ≤ b then a else b) ↔ _
  simp only [UInt64.lt_iff_toNat_lt, UInt64.le_iff_toNat_le]
  split <;> omega

theorem toNat_min_le (a b : Millis) :
    (min a b).toNat ≤ a.toNat ∧ (min a b).toNat ≤ b.toNat := by
  change (if a ≤ b then a else b).toNat ≤ _ ∧ (if a ≤ b then a else b).toNat ≤ _
  simp only [UInt64.le_iff_toNat_le]
  split <;> omega

theorem lt_nextDeadline_connected {engine : TunnelEngine} {state : ChannelState} {now : Millis}
    (phase : engine.phase = .connected state) :
    now < engine.nextDeadline ↔ now < state.nextHeartbeat ∧ now < state.nextAckSweep ∧
      ∀ sentAt ∈ state.heartbeatPendingSince,
        now < saturatingAdd sentAt engine.cfg.heartbeatResponseTimeout := by
  rw [TunnelEngine.nextDeadline, phase]
  dsimp only
  cases state.heartbeatPendingSince with
  | none => simp [lt_min_iff']
  | some sentAt => simp [lt_min_iff', and_assoc]

theorem not_overdue_iff {cfg : TunnelConfig} {now : Millis} {state : ChannelState} :
    state.overdue cfg now = false ↔ ∀ sentAt ∈ state.heartbeatPendingSince,
      now < saturatingAdd sentAt cfg.heartbeatResponseTimeout := by
  rw [ChannelState.overdue]
  cases state.heartbeatPendingSince <;> simp

/-- A poll before the next deadline changes nothing and queues nothing. -/
theorem poll_quiet (engine : TunnelEngine) {now : Millis} (early : now < engine.nextDeadline) :
    engine.poll pico now = engine := by
  obtain ⟨cfg, phase, actions⟩ := engine
  cases phase with
  | backoff until' => exact if_neg (UInt64.not_le.mpr early)
  | connecting sentAt => exact if_neg (UInt64.not_le.mpr early)
  | connected state =>
      obtain ⟨heartbeat, sweep, response⟩ := (lt_nextDeadline_connected rfl).mp early
      have answered := not_overdue_iff.mpr response
      have kept : state.keepAlive pico cfg now = (state, []) := if_neg (UInt64.not_le.mpr heartbeat)
      have swept : state.sweepAcks cfg now = (state, [], false) := if_neg (UInt64.not_le.mpr sweep)
      simp [TunnelEngine.poll, answered, kept, swept, TunnelEngine.enter, TunnelEngine.queue]

/-- Whether the sweep finds a telegram whose repeats are used up and gives the
connection up for it. -/
def ChannelState.givesUp (cfg : TunnelConfig) (now : Millis) (state : ChannelState) : Bool :=
  state.nextAckSweep ≤ now && 0 < cfg.ackRetransmits && state.pendingAcks.entries.any fun entry =>
    cfg.ackTimeout < saturatingSub now entry.2.sentAt && entry.2.retriesLeft = 0

/-- Whether the repeats of a telegram are used up. -/
def Exhausted (table : PendingAcks) (seq : UInt8) : Bool :=
  (table.get? seq).any fun pending => pending.retriesLeft = 0

/-- One round of the sweep gives up for the telegram it is at, and leaves the others alone. -/
theorem Sweep.expire_spec (cfg : TunnelConfig) (now : Millis) (sweep : Sweep) (seq : UInt8) :
    (sweep.expire cfg now seq).dropConnection =
        (sweep.dropConnection || (Exhausted sweep.pendingAcks seq && 0 < cfg.ackRetransmits)) ∧
      ∀ other, other ≠ seq →
        (sweep.expire cfg now seq).pendingAcks.get? other = sweep.pendingAcks.get? other := by
  rw [expire, Exhausted]
  cases found : sweep.pendingAcks.get? seq with
  | none => exact ⟨by simp, fun _ _ => rfl⟩
  | some pending =>
      dsimp only
      split
      · next left =>
        have some : ¬ pending.retriesLeft = 0 := fun zero => by simp [zero] at left
        exact ⟨by simp [some], fun other different => IndexMap.get?_modify_of_ne _ different⟩
      · next none =>
        have zero : pending.retriesLeft = 0 := by
          rw [← UInt8.toNat_inj]
          simpa [UInt8.lt_iff_toNat_lt] using none
        exact ⟨by simp [zero], fun other different => IndexMap.get?_remove_of_ne different⟩

theorem Sweep.foldl_dropConnection (cfg : TunnelConfig) (now : Millis) (table : PendingAcks)
    {seqs : List UInt8} (distinct : seqs.Nodup) (sweep : Sweep)
    (same : ∀ seq ∈ seqs, sweep.pendingAcks.get? seq = table.get? seq) :
    (seqs.foldl (Sweep.expire cfg now) sweep).dropConnection =
      (sweep.dropConnection || seqs.any fun seq =>
          Exhausted table seq && 0 < cfg.ackRetransmits) := by
  induction seqs generalizing sweep with
  | nil => simp
  | cons seq rest inductionHypothesis =>
      obtain ⟨fresh, distinctRest⟩ := List.nodup_cons.mp distinct
      obtain ⟨drops, others⟩ := sweep.expire_spec cfg now seq
      have unchanged : ∀ other ∈ rest,
          (sweep.expire cfg now seq).pendingAcks.get? other = table.get? other := by
        intro other mem
        rw [others other fun isSeq => fresh (isSeq ▸ mem)]
        exact same other (List.mem_cons_of_mem _ mem)
      have head : Exhausted sweep.pendingAcks seq = Exhausted table seq := by
        rw [Exhausted, same seq List.mem_cons_self, Exhausted]
      rw [List.foldl_cons, inductionHypothesis distinctRest _ unchanged, drops, head, List.any_cons,
        Bool.or_assoc]

theorem exhausted_of_mem {table : PendingAcks} {entry : UInt8 × PendingAck}
    (mem : entry ∈ table.entries) :
    Exhausted table entry.1 = decide (entry.2.retriesLeft = 0) := by
  rw [Exhausted, IndexMap.get?_eq_some_iff.mpr mem]
  rfl

/-- The sweep gives the connection up exactly when it finds such a telegram. -/
theorem ChannelState.sweepAcks_drops (cfg : TunnelConfig) (now : Millis) (state : ChannelState) :
    (state.sweepAcks cfg now).2.2 = state.givesUp cfg now := by
  rw [sweepAcks, givesUp]
  split
  · next due =>
    have distinct : (state.expired cfg now).Nodup :=
      state.pendingAcks.distinct.sublist (List.filter_sublist.map _)
    have drops := Sweep.foldl_dropConnection cfg now state.pendingAcks distinct
      { pendingAcks := state.pendingAcks } fun _ _ => rfl
    change (state.sweep cfg now).dropConnection = _
    rw [sweep, drops, expired, List.any_map, List.any_filter, Bool.false_or, Bool.eq_iff_iff]
    simp only [List.any_eq_true, Bool.and_eq_true, Function.comp_apply, decide_eq_true_eq, due,
      true_and]
    constructor
    · rintro ⟨entry, mem, late, exhausted, repeats⟩
      rw [exhausted_of_mem mem, decide_eq_true_eq] at exhausted
      exact ⟨repeats, entry, mem, late, exhausted⟩
    · rintro ⟨repeats, entry, mem, late, exhausted⟩
      refine ⟨entry, mem, late, ?_, repeats⟩
      rw [exhausted_of_mem mem, decide_eq_true_eq]
      exact exhausted
  · next early => simp [early]

/-- Every deadline that a poll arms, and that is still armed after it, is on the clock. -/
def TunnelEngine.PollFits (engine : TunnelEngine) (now : Millis) : Prop :=
  let fits (interval : Millis) := now.toNat + interval.toNat < UInt64.size
  match engine.phase with
  | .backoff until' => until' ≤ now → fits 1
  | .connecting sentAt =>
      saturatingAdd sentAt engine.cfg.connectTimeout ≤ now → fits engine.cfg.reconnectBackoff
  | .connected state =>
      if state.overdue engine.cfg now || state.givesUp engine.cfg now then
        fits engine.cfg.reconnectBackoff
      else
        (state.nextHeartbeat ≤ now → fits engine.cfg.heartbeat) ∧
          (state.nextAckSweep ≤ now → fits engine.cfg.ackSweep)

theorem keepAlive_spec (cfg : TunnelConfig) (now : Millis) (state : ChannelState) :
    let after := (state.keepAlive pico cfg now).1
    after.pendingAcks = state.pendingAcks ∧ after.nextAckSweep = state.nextAckSweep ∧
      after.nextHeartbeat = (if state.nextHeartbeat ≤ now then now + cfg.heartbeat
        else state.nextHeartbeat) ∧
      after.heartbeatPendingSince = (if state.nextHeartbeat ≤ now then
        some (state.heartbeatPendingSince.getD now) else state.heartbeatPendingSince) := by
  rw [ChannelState.keepAlive]
  split
  · cases state.heartbeatPendingSince <;> exact ⟨rfl, rfl, rfl, rfl⟩
  · exact ⟨rfl, rfl, rfl, rfl⟩

theorem sweepAcks_spec (cfg : TunnelConfig) (now : Millis) (state : ChannelState) :
    let after := (state.sweepAcks cfg now).1
    after.nextHeartbeat = state.nextHeartbeat ∧
      after.heartbeatPendingSince = state.heartbeatPendingSince ∧
      after.nextAckSweep = (if state.nextAckSweep ≤ now then now + cfg.ackSweep
        else state.nextAckSweep) := by
  rw [ChannelState.sweepAcks]
  split
  · exact ⟨rfl, rfl, rfl⟩
  · exact ⟨rfl, rfl, rfl⟩

def ChannelState.polled (cfg : TunnelConfig) (now : Millis) (state : ChannelState) : ChannelState :=
  ((state.keepAlive pico cfg now).1.sweepAcks cfg now).1

theorem givesUp_congr {cfg : TunnelConfig} {now : Millis} {first second : ChannelState}
    (acks : first.pendingAcks = second.pendingAcks)
    (sweep : first.nextAckSweep = second.nextAckSweep) :
    first.givesUp cfg now = second.givesUp cfg now := by
  rw [ChannelState.givesUp, acks, sweep, ChannelState.givesUp]

theorem poll_connected {engine : TunnelEngine} {state : ChannelState} (now : Millis)
    (phase : engine.phase = .connected state) :
    (engine.poll pico now).cfg = engine.cfg ∧
      (engine.poll pico now).phase =
        if state.overdue engine.cfg now || state.givesUp engine.cfg now then
          .backoff (now + engine.cfg.reconnectBackoff)
        else .connected (state.polled pico engine.cfg now) := by
  obtain ⟨acks, sweep, -, -⟩ := keepAlive_spec pico engine.cfg now state
  have drops := ((state.keepAlive pico engine.cfg now).1).sweepAcks_drops engine.cfg now
  rw [givesUp_congr acks sweep] at drops
  simp only [TunnelEngine.poll, phase, drops]
  cases state.overdue engine.cfg now with
  | true => simp [TunnelEngine.handleSocketError, TunnelEngine.queue, TunnelEngine.enter, phase]
  | false =>
      cases state.givesUp engine.cfg now with
      | true => simp [TunnelEngine.handleSocketError, TunnelEngine.queue, TunnelEngine.enter]
      | false => exact ⟨rfl, rfl⟩

theorem lt_armed_iff {now deadline interval : Millis} (positive : 0 < interval) :
    (now < if deadline ≤ now then now + interval else deadline) ↔
      (deadline ≤ now → now.toNat + interval.toNat < UInt64.size) := by
  split
  · next due => simp [lt_add_iff positive, due]
  · next early => simp [UInt64.not_le.mp early, early]

theorem poll_later (engine : TunnelEngine) (positive : engine.cfg.Positive) (now : Millis) :
    now < (engine.poll pico now).nextDeadline ↔ engine.PollFits now := by
  rw [TunnelEngine.PollFits]
  cases phase : engine.phase with
  | backoff until' =>
      simp only [TunnelEngine.poll, phase]
      split
      · next due =>
        change now < saturatingAdd now engine.cfg.connectTimeout ↔ _
        rw [lt_saturatingAdd_iff positive.connectTimeout]
        exact ⟨fun fits _ => fits, fun fits => fits due⟩
      · next early =>
        have later : now < engine.nextDeadline := by
          rw [TunnelEngine.nextDeadline, phase]
          exact UInt64.not_le.mp early
        exact ⟨fun _ due => absurd due early, fun _ => later⟩
  | connecting sentAt =>
      simp only [TunnelEngine.poll, phase]
      split
      · next due =>
        change now < now + engine.cfg.reconnectBackoff ↔ _
        rw [lt_add_iff positive.reconnectBackoff]
        exact ⟨fun fits _ => fits, fun fits => fits due⟩
      · next early =>
        have later : now < engine.nextDeadline := by
          rw [TunnelEngine.nextDeadline, phase]
          exact UInt64.not_le.mp early
        exact ⟨fun _ due => absurd due early, fun _ => later⟩
  | connected state =>
      obtain ⟨cfg, after⟩ := poll_connected pico now phase
      dsimp only
      split
      · next ends =>
        rw [if_pos ends] at after
        rw [TunnelEngine.nextDeadline, after]
        exact lt_add_iff positive.reconnectBackoff
      · next stands =>
        rw [if_neg stands] at after
        obtain ⟨acks, sweep, heartbeat, pending⟩ := keepAlive_spec pico engine.cfg now state
        obtain ⟨heartbeat', pending', sweep'⟩ :=
          sweepAcks_spec engine.cfg now (state.keepAlive pico engine.cfg now).1
        rw [lt_nextDeadline_connected after, cfg, ChannelState.polled, heartbeat', pending', sweep',
          heartbeat, pending, sweep, lt_armed_iff positive.heartbeat,
          lt_armed_iff positive.ackSweep]
        have answered : state.overdue engine.cfg now = false := by
          simp only [Bool.or_eq_true, not_or, Bool.not_eq_true] at stands
          exact stands.1
        have response := not_overdue_iff.mp answered
        refine ⟨fun later => ⟨later.1, later.2.1⟩, fun fits => ⟨fits.1, fits.2, ?_⟩⟩
        intro sentAt isSent
        split at isSent
        · next due =>
          cases since : state.heartbeatPendingSince with
          | none =>
              rw [since] at isSent
              obtain rfl : now = sentAt := Option.some.inj isSent
              rw [lt_saturatingAdd_iff positive.heartbeatResponseTimeout]
              have room := fits.1 due
              have some := positive.heartbeat
              rw [UInt64.lt_iff_toNat_lt] at some
              exact Nat.lt_of_le_of_lt (Nat.add_le_add_left some _) room
          | some earlier =>
              rw [since] at isSent
              obtain rfl : earlier = sentAt := Option.some.inj isSent
              exact response earlier since
        · exact response sentAt isSent

def Call.time : Call → Option Millis
  | .handleDatagram _ now => some now
  | .handleCommand _ now => some now
  | .handleSocketError now => some now
  | .poll now => some now
  | _ => none

def KnxPico.stateOk (data : List UInt8) : Bool :=
  match pico.parseFrame data with
  | some (.connectionstateResponse, body) => (pico.parseConnectionStateResponse body).getD false
  | _ => false

/-- An engine, the time of the last call, and the later of the handshake and the last
OK response. -/
structure Clocked where
  engine : TunnelEngine
  now : Millis
  lastOk : Millis

def Clocked.answered (clocked : Clocked) : Call → Bool
  | .handleDatagram data _ =>
      match clocked.engine.phase with
      | .backoff _ => false
      | .connecting _ => (pico.connectResponse data).any fun response => response.2 = 0
      | .connected _ => pico.stateOk data
  | _ => false

def Clocked.after (clocked : Clocked) (call : Call) : Clocked :=
  let now := call.time.getD clocked.now
  ⟨clocked.engine.call pico call, now, if clocked.answered pico call then now
    else clocked.lastOk⟩

/-- A bound on the time of a call is decided at that time, not over the whole clock. -/
instance (priority := high) {holds : Millis → Prop} [DecidablePred holds] (time : Option Millis) :
    Decidable (∀ now ∈ time, holds now) := Option.decidableForallMem time

def clockedStep (clocked : Clocked) (call : Call) : Option (Clocked × List Call) :=
  if ∀ now ∈ call.time, clocked.now ≤ now then some (clocked.after pico call, [call])
  else none

def Clocked.new (cfg : TunnelConfig) (now : Millis) : Clocked := ⟨.new cfg now, now, now⟩

/-- The transport polls at every deadline: no call is later than the next one. -/
def Timely (clocked : Clocked) (call : Call) : Prop :=
  ∀ now ∈ call.time, now ≤ clocked.engine.nextDeadline

instance (clocked : Clocked) (call : Call) : Decidable (Timely clocked call) :=
  inferInstanceAs (Decidable (∀ now ∈ call.time, now ≤ clocked.engine.nextDeadline))

theorem receive_heartbeat (state : ChannelState) (data : List UInt8) :
    (state.receive pico data).1.nextHeartbeat = state.nextHeartbeat ∧
      (state.receive pico data).1.heartbeatPendingSince =
        bif pico.stateOk data then none else state.heartbeatPendingSince := by
  rw [ChannelState.receive, KnxPico.stateOk]
  cases pico.parseFrame data with
  | none => exact ⟨rfl, rfl⟩
  | some frame =>
      obtain ⟨service, body⟩ := frame
      cases service with
      | tunnellingAck =>
          dsimp only
          cases pico.ackSeq body <;> exact ⟨rfl, rfl⟩
      | tunnellingRequest =>
          dsimp only
          cases pico.parseTunnelingRequest body with
          | none => exact ⟨rfl, rfl⟩
          | some request =>
              dsimp only
              cases pico.parseTelegram request.2 <;> exact ⟨rfl, rfl⟩
      | connectionstateResponse =>
          dsimp only
          cases pico.parseConnectionStateResponse body with
          | none => exact ⟨rfl, rfl⟩
          | some ok => cases ok <;> exact ⟨rfl, rfl⟩
      | connectResponse => exact ⟨rfl, rfl⟩
      | other => exact ⟨rfl, rfl⟩

theorem handleSocketError_phase (engine : TunnelEngine) (now : Millis) (state : ChannelState) :
    (engine.handleSocketError now).phase ≠ .connected state := by
  obtain ⟨cfg, phase, actions⟩ := engine
  cases phase <;> exact fun same => by cases same

/-- Calls other than polls leave the keepalive alone, but for an OK response. -/
theorem call_heartbeat {clocked : Clocked} {state state' : ChannelState} {call : Call}
    (phase : clocked.engine.phase = .connected state)
    (phase' : (clocked.engine.call pico call).phase = .connected state')
    (noPoll : ∀ now, call ≠ .poll now) :
    state'.nextHeartbeat = state.nextHeartbeat ∧
      state'.heartbeatPendingSince =
        bif clocked.answered pico call then none else state.heartbeatPendingSince := by
  cases call with
  | handleDatagram data now =>
      simp only [TunnelEngine.call, TunnelEngine.handleDatagram, phase] at phase'
      split at phase'
      · exact absurd phase' (handleSocketError_phase _ _ _)
      · obtain rfl := Phase.connected.inj phase'
        simp only [Clocked.answered, phase]
        exact receive_heartbeat pico state data
  | handleCommand cmd now =>
      simp only [TunnelEngine.call, TunnelEngine.handleCommand, phase] at phase'
      obtain rfl := Phase.connected.inj phase'
      exact ⟨rfl, rfl⟩
  | sendFailed seq =>
      simp only [TunnelEngine.call, TunnelEngine.sendFailed, phase] at phase'
      obtain rfl := Phase.connected.inj phase'
      exact ⟨rfl, rfl⟩
  | handleSocketError now => exact absurd phase' (handleSocketError_phase _ _ _)
  | poll now => exact absurd rfl (noPoll now)
  | nextAction =>
      obtain rfl := Phase.connected.inj (phase.symm.trans phase')
      exact ⟨rfl, rfl⟩
  | setLocalEndpoint ep =>
      obtain rfl := Phase.connected.inj (phase.symm.trans phase')
      exact ⟨rfl, rfl⟩

theorem call_establishes {clocked : Clocked} {state : ChannelState} {call : Call}
    (phase : ∀ state, clocked.engine.phase ≠ .connected state)
    (phase' : (clocked.engine.call pico call).phase = .connected state) :
    ∃ data now channelId, call = .handleDatagram data now ∧
      clocked.answered pico call = true ∧
      state = .new channelId now clocked.engine.cfg := by
  obtain ⟨⟨cfg, before, actions⟩, time, lastOk⟩ := clocked
  cases before with
  | connected state => exact absurd rfl (phase state)
  | backoff until' =>
      cases call with
      | poll now =>
          simp only [TunnelEngine.call, TunnelEngine.poll] at phase'
          split at phase' <;> cases phase'
      | _ => cases phase'
  | connecting sentAt =>
      cases call with
      | handleDatagram data now =>
          simp only [TunnelEngine.call, TunnelEngine.handleDatagram] at phase'
          cases response : pico.connectResponse data with
          | none => simp [response] at phase'
          | some answer =>
              obtain ⟨channelId, status⟩ := answer
              simp only [response] at phase'
              split at phase'
              · next ok =>
                refine ⟨data, now, channelId, rfl, ?_, (Phase.connected.inj phase').symm⟩
                simp [Clocked.answered, response, ok]
              · cases phase'
      | poll now =>
          simp only [TunnelEngine.call, TunnelEngine.poll] at phase'
          split at phase' <;> cases phase'
      | _ => cases phase'

theorem handleSocketError_cfg (engine : TunnelEngine) (now : Millis) :
    (engine.handleSocketError now).cfg = engine.cfg := by
  obtain ⟨cfg, phase, actions⟩ := engine
  cases phase <;> rfl

theorem poll_cfg (engine : TunnelEngine) (now : Millis) :
    (engine.poll pico now).cfg = engine.cfg := by
  cases phase : engine.phase with
  | backoff until' =>
      simp only [TunnelEngine.poll, phase]
      split <;> rfl
  | connecting sentAt =>
      simp only [TunnelEngine.poll, phase]
      split <;> rfl
  | connected state => exact (poll_connected pico now phase).1

theorem handleDatagram_cfg (engine : TunnelEngine) (data : List UInt8) (now : Millis) :
    (engine.handleDatagram pico data now).cfg = engine.cfg := by
  rw [TunnelEngine.handleDatagram]
  split
  · rfl
  · split
    · split <;> rfl
    · rfl
  · dsimp only
    split
    · rw [handleSocketError_cfg]
      rfl
    · rfl

theorem call_cfg (engine : TunnelEngine) (call : Call) :
    ∃ ep, (engine.call pico call).cfg = { engine.cfg with localEndpoint := ep } := by
  cases call with
  | handleDatagram data now => exact ⟨_, handleDatagram_cfg pico engine data now⟩
  | handleCommand cmd now =>
      refine ⟨engine.cfg.localEndpoint, ?_⟩
      rw [TunnelEngine.call, TunnelEngine.handleCommand]
      split <;> rfl
  | sendFailed seq =>
      refine ⟨engine.cfg.localEndpoint, ?_⟩
      rw [TunnelEngine.call, TunnelEngine.sendFailed]
      split <;> rfl
  | handleSocketError now => exact ⟨_, handleSocketError_cfg engine now⟩
  | poll now => exact ⟨_, poll_cfg pico engine now⟩
  | nextAction => exact ⟨_, rfl⟩
  | setLocalEndpoint ep => exact ⟨ep, rfl⟩

/-- The bound on a connection that hears nothing. -/
def Clocked.patience (clocked : Clocked) : ℕ :=
  clocked.lastOk.toNat + clocked.engine.cfg.heartbeat.toNat +
    clocked.engine.cfg.heartbeatResponseTimeout.toNat

/-- How the keepalive of a connection stands to the last response. -/
structure Alive (clocked : Clocked) (state : ChannelState) : Prop where
  armed : state.nextHeartbeat.toNat ≤ clocked.now.toNat + clocked.engine.cfg.heartbeat.toNat
  silent : state.heartbeatPendingSince = none →
    state.nextHeartbeat.toNat ≤ clocked.lastOk.toNat + clocked.engine.cfg.heartbeat.toNat
  waiting : ∀ sentAt ∈ state.heartbeatPendingSince,
    sentAt.toNat ≤ clocked.lastOk.toNat + clocked.engine.cfg.heartbeat.toNat
  recent : clocked.now.toNat ≤ clocked.patience

theorem Alive.nextDeadline_le {clocked : Clocked} {state : ChannelState}
    (alive : Alive clocked state) (phase : clocked.engine.phase = .connected state) :
    clocked.engine.nextDeadline.toNat ≤ clocked.patience := by
  rw [TunnelEngine.nextDeadline, phase, Clocked.patience]
  dsimp only
  cases since : state.heartbeatPendingSince with
  | none =>
      have heartbeat := (toNat_min_le state.nextHeartbeat state.nextAckSweep).1
      have silent := alive.silent since
      dsimp only
      omega
  | some sentAt =>
      have response := (toNat_min_le (min state.nextHeartbeat state.nextAckSweep)
        (saturatingAdd sentAt clocked.engine.cfg.heartbeatResponseTimeout)).2
      have sum := toNat_saturatingAdd sentAt clocked.engine.cfg.heartbeatResponseTimeout
      have waiting := alive.waiting sentAt since
      dsimp only
      omega

theorem nextDeadline_le_nextHeartbeat {engine : TunnelEngine} {state : ChannelState}
    (phase : engine.phase = .connected state) :
    engine.nextDeadline.toNat ≤ state.nextHeartbeat.toNat := by
  have first := (toNat_min_le state.nextHeartbeat state.nextAckSweep).1
  rw [TunnelEngine.nextDeadline, phase]
  dsimp only
  cases state.heartbeatPendingSince with
  | none => exact first
  | some sentAt => exact Nat.le_trans (toNat_min_le _ _).1 first

theorem polled_heartbeat (cfg : TunnelConfig) (now : Millis) (state : ChannelState) :
    (state.polled pico cfg now).nextHeartbeat =
        (if state.nextHeartbeat ≤ now then now + cfg.heartbeat else state.nextHeartbeat) ∧
      (state.polled pico cfg now).heartbeatPendingSince =
        (if state.nextHeartbeat ≤ now then some (state.heartbeatPendingSince.getD now)
          else state.heartbeatPendingSince) := by
  obtain ⟨-, -, heartbeat, pending⟩ := keepAlive_spec pico cfg now state
  obtain ⟨heartbeat', pending', -⟩ := sweepAcks_spec cfg now (state.keepAlive pico cfg now).1
  exact ⟨heartbeat'.trans heartbeat, pending'.trans pending⟩

theorem alive_new {clocked : Clocked} {call : Call} {channelId : UInt8} {data : List UInt8}
    {now : Millis} (isCall : call = .handleDatagram data now)
    (answered : clocked.answered pico call = true) :
    Alive (clocked.after pico call) (.new channelId now clocked.engine.cfg) := by
  subst isCall
  have cfg : (clocked.after pico (.handleDatagram data now)).engine.cfg = clocked.engine.cfg :=
    handleDatagram_cfg pico clocked.engine data now
  have time : (clocked.after pico (.handleDatagram data now)).now = now := rfl
  have ok : (clocked.after pico (.handleDatagram data now)).lastOk = now := if_pos answered
  have heartbeat := toNat_add_le now clocked.engine.cfg.heartbeat
  constructor
  · rw [cfg, time]
    exact heartbeat
  · intro _
    rw [cfg, ok]
    exact heartbeat
  · exact fun sentAt isSent => by cases isSent
  · rw [Clocked.patience, time, ok]
    omega

theorem Alive.next {clocked : Clocked} {state state' : ChannelState} {call : Call}
    (alive : Alive clocked state) (phase : clocked.engine.phase = .connected state)
    (phase' : (clocked.engine.call pico call).phase = .connected state')
    (forward : ∀ now ∈ call.time, clocked.now ≤ now) (timely : Timely clocked call) :
    Alive (clocked.after pico call) state' := by
  obtain ⟨ep, cfg⟩ := call_cfg pico clocked.engine call
  have heartbeatCfg : (clocked.after pico call).engine.cfg.heartbeat =
      clocked.engine.cfg.heartbeat := by
    change (clocked.engine.call pico call).cfg.heartbeat = _
    rw [cfg]
  have responseCfg : (clocked.after pico call).engine.cfg.heartbeatResponseTimeout =
      clocked.engine.cfg.heartbeatResponseTimeout := by
    change (clocked.engine.call pico call).cfg.heartbeatResponseTimeout = _
    rw [cfg]
  have bound := alive.nextDeadline_le phase
  -- the call comes after the one before it, and no later than the deadline
  have later : clocked.now.toNat ≤ (clocked.after pico call).now.toNat ∧
      (clocked.after pico call).now.toNat ≤ clocked.patience := by
    cases time : call.time with
    | none =>
        rw [Clocked.after, time]
        exact ⟨Nat.le_refl _, alive.recent⟩
    | some now =>
        rw [Clocked.after, time]
        exact ⟨UInt64.le_iff_toNat_le.mp (forward now time),
          Nat.le_trans (UInt64.le_iff_toNat_le.mp (timely now time)) bound⟩
  have recent : (clocked.after pico call).now.toNat ≤ (clocked.after pico call).patience := by
    rw [Clocked.patience, heartbeatCfg, responseCfg]
    cases answered : clocked.answered pico call with
    | true =>
        have ok : (clocked.after pico call).lastOk = (clocked.after pico call).now :=
          if_pos answered
        rw [ok]
        omega
    | false =>
        have ok : (clocked.after pico call).lastOk = clocked.lastOk := if_neg (by simp [answered])
        rw [ok]
        exact later.2
  by_cases polls : ∃ now, call = .poll now
  · obtain ⟨now, rfl⟩ := polls
    have ok : (clocked.after pico (.poll now)).lastOk = clocked.lastOk := rfl
    have time : (clocked.after pico (.poll now)).now = now := rfl
    have stands := (poll_connected pico now phase).2.symm.trans phase'
    split at stands
    · cases stands
    · obtain rfl := Phase.connected.inj stands
      obtain ⟨nextHeartbeat, pendingSince⟩ := polled_heartbeat pico clocked.engine.cfg now state
      have due := nextDeadline_le_nextHeartbeat phase
      have timelyNow := UInt64.le_iff_toNat_le.mp (timely now rfl)
      have wrapped := toNat_add_le now clocked.engine.cfg.heartbeat
      have armed := alive.armed
      rw [time] at later
      refine ⟨?_, ?_, ?_, recent⟩
      · rw [nextHeartbeat, heartbeatCfg, time]
        split <;> omega
      · rw [pendingSince, nextHeartbeat, heartbeatCfg, ok]
        split
        · exact fun none => by cases none
        · exact alive.silent
      · rw [pendingSince, heartbeatCfg, ok]
        intro sentAt isSent
        split at isSent
        · cases since : state.heartbeatPendingSince with
          | none =>
              -- the keepalive went out at its deadline, which is counted from the last response
              obtain rfl : now = sentAt := by simpa [since] using isSent
              have silent := alive.silent since
              omega
          | some earlier =>
              obtain rfl : earlier = sentAt := by simpa [since] using isSent
              exact alive.waiting earlier since
        · exact alive.waiting sentAt isSent
  · obtain ⟨nextHeartbeat, pendingSince⟩ :=
      call_heartbeat pico phase phase' fun now same => polls ⟨now, same⟩
    have armed := alive.armed
    refine ⟨?_, ?_, ?_, recent⟩
    · rw [nextHeartbeat, heartbeatCfg]
      omega
    · intro none
      rw [nextHeartbeat, heartbeatCfg]
      cases answered : clocked.answered pico call with
      | true =>
          have ok : (clocked.after pico call).lastOk = (clocked.after pico call).now :=
            if_pos answered
          rw [ok]
          omega
      | false =>
          have ok : (clocked.after pico call).lastOk = clocked.lastOk := if_neg (by simp [answered])
          rw [answered] at pendingSince
          rw [ok]
          exact alive.silent (pendingSince.symm.trans none)
    · intro sentAt isSent
      rw [heartbeatCfg]
      cases answered : clocked.answered pico call with
      | true =>
          rw [pendingSince, answered] at isSent
          cases isSent
      | false =>
          have ok : (clocked.after pico call).lastOk = clocked.lastOk := if_neg (by simp [answered])
          rw [pendingSince, answered] at isSent
          rw [ok]
          exact alive.waiting sentAt isSent

theorem alive_of_timely {cfg : TunnelConfig} {start : Millis} {clocked : Clocked} {log : List Call}
    (reached : Reaches (clockedStep pico) Timely (.new cfg start) clocked log)
    {state : ChannelState} (phase : clocked.engine.phase = .connected state) :
    Alive clocked state := by
  refine reached.invariant
    (fun clocked _ => ∀ state, clocked.engine.phase = .connected state → Alive clocked state)
    (fun state isState => by cases isState) ?_ state phase
  intro before log call after emitted _ timely stepped alive state' phase'
  rw [clockedStep] at stepped
  split at stepped
  · next forward =>
    obtain ⟨rfl, -⟩ := Prod.mk.inj (Option.some.inj stepped)
    by_cases connected : ∃ state, before.engine.phase = .connected state
    · obtain ⟨state, phase⟩ := connected
      exact (alive state phase).next pico phase phase' forward timely
    · have apart : ∀ state, before.engine.phase ≠ .connected state :=
        fun state phase => connected ⟨state, phase⟩
      obtain ⟨data, now, channelId, isCall, answered, rfl⟩ := call_establishes pico apart phase'
      exact alive_new pico isCall answered
  · cases stepped

structure TimerContract (clocked : Clocked) : Prop where
  quiet : ∀ now < clocked.engine.nextDeadline, clocked.engine.poll pico now = clocked.engine
  later : ∀ now, clocked.now ≤ now →
    (now < (clocked.engine.poll pico now).nextDeadline ↔ clocked.engine.PollFits now)

theorem cfg_of_reached {cfg : TunnelConfig} {start : Millis}
    {allowed : Clocked → Call → Prop} {clocked : Clocked} {log : List Call}
    (reached : Reaches (clockedStep pico) allowed (.new cfg start) clocked log) :
    ∃ ep, clocked.engine.cfg = { cfg with localEndpoint := ep } := by
  refine reached.invariant
    (fun clocked _ => ∃ ep, clocked.engine.cfg = { cfg with localEndpoint := ep })
    ⟨cfg.localEndpoint, rfl⟩ ?_
  intro before log call after emitted _ _ stepped same
  rw [clockedStep] at stepped
  split at stepped
  · obtain ⟨rfl, -⟩ := Prod.mk.inj (Option.some.inj stepped)
    obtain ⟨ep, isCfg⟩ := same
    obtain ⟨ep', cfg'⟩ := call_cfg pico before.engine call
    exact ⟨ep', by rw [Clocked.after, cfg', isCfg]⟩
  · cases stepped

theorem timerContract {cfg : TunnelConfig} (positive : cfg.Positive) (start : Millis) :
    (∀ clocked log, Reachable (clockedStep pico) (.new cfg start) clocked log →
      TimerContract pico clocked) ∧
    ∀ clocked log, Reaches (clockedStep pico) Timely (.new cfg start) clocked log →
      clocked.engine.isConnected = true →
      clocked.now.toNat ≤ clocked.lastOk.toNat + cfg.heartbeat.toNat +
          cfg.heartbeatResponseTimeout.toNat ∧
        clocked.engine.nextDeadline.toNat ≤ clocked.lastOk.toNat + cfg.heartbeat.toNat +
          cfg.heartbeatResponseTimeout.toNat := by
  constructor
  · intro clocked log reached
    obtain ⟨ep, same⟩ := cfg_of_reached pico reached
    have stillPositive : clocked.engine.cfg.Positive := by
      rw [same]
      exact ⟨positive.connectTimeout, positive.ackSweep, positive.heartbeat,
        positive.heartbeatResponseTimeout, positive.reconnectBackoff⟩
    exact ⟨fun now early => poll_quiet pico clocked.engine early,
      fun now _ => poll_later pico clocked.engine stillPositive now⟩
  · intro clocked log reached connected
    obtain ⟨ep, same⟩ := cfg_of_reached pico reached
    obtain ⟨state, phase⟩ := isConnected_iff.mp connected
    have alive := alive_of_timely pico reached phase
    have recent := alive.recent
    have deadline := alive.nextDeadline_le phase
    rw [Clocked.patience, same] at recent deadline
    exact ⟨recent, deadline⟩

def connectResponse (channelId status : UInt8) : Frame :=
  frameOf (serviceCode .connectResponse)
    [channelId, status, 0x08, 0x01, 0, 0, 0, 0, 0, 0, 0x04, 0x04, 0x02, 0x00]

theorem defaultPositive : ({} : TunnelConfig).Positive :=
  ⟨by decide, by decide, by decide, by decide, by decide⟩

/-- The default configuration from time 0: connected at 20, the deadline is the sweep. -/
theorem timerContract_default :
    ∃ clocked, clocked.engine.nextDeadline = 520 ∧ TimerContract reference clocked ∧
      clocked.now.toNat ≤ clocked.lastOk.toNat + 55000 + 10000 := by
  have replayed : (replay (clockedStep reference) (.new {} 0)
      [.poll 0, .handleDatagram (connectResponse 7 0) 20]).map
        (fun reached => (reached.1.engine.nextDeadline, reached.1.engine.isConnected)) =
      some (520, true) := by decide
  obtain ⟨⟨clocked, log⟩, replayed, facts⟩ := Option.map_eq_some_iff.mp replayed
  obtain ⟨deadline, connected⟩ := Prod.mk.inj facts
  obtain ⟨contract, alive⟩ := timerContract reference defaultPositive 0
  have permits : Permits (clockedStep reference) Timely (.new {} 0)
      [.poll 0, .handleDatagram (connectResponse 7 0) 20] := by decide
  have recent := (alive clocked log (Reaches.start.replay permits replayed) connected).1
  have heartbeat : ({} : TunnelConfig).heartbeat.toNat = 55000 := by decide
  have response : ({} : TunnelConfig).heartbeatResponseTimeout.toNat = 10000 := by decide
  rw [heartbeat, response] at recent
  exact ⟨clocked, deadline, contract clocked log (reachable_of_replay replayed), recent⟩

/-- A transport whose epoch puts the handshake 20 seconds before the end of the clock. -/
theorem not_later_at_end :
    ∃ clocked log, Reachable (clockedStep reference)
        (.new {} 18446744073709531616) clocked log ∧
      ¬ ∀ now, clocked.now ≤ now →
        now < (clocked.engine.poll reference now).nextDeadline := by
  have replayed : (replay (clockedStep reference) (.new {} 18446744073709531616)
      [.poll 18446744073709531616,
        .handleDatagram (connectResponse 7 0) 18446744073709531616]).map
        (fun reached => (reached.1.now,
          (reached.1.engine.poll reference reached.1.now).nextDeadline)) =
      some (18446744073709531616, 35000) := by decide
  obtain ⟨⟨clocked, log⟩, replayed, facts⟩ := Option.map_eq_some_iff.mp replayed
  obtain ⟨time, deadline⟩ := Prod.mk.inj facts
  refine ⟨clocked, log, reachable_of_replay replayed, fun later => ?_⟩
  have ahead := later clocked.now (UInt64.le_refl _)
  rw [deadline, time] at ahead
  exact absurd ahead (by decide)

end AimDb.Knx
