import AimDb.Knx.Tunnel
import AimDb.Transition.Runs
import AimDb.Transition.Monitor
import Mathlib.Data.Finset.Basic

/-!
# Acknowledgement accounting

Within one connection the log records which telegrams were accepted and what ended
their tracking: an acknowledgement, a failed send or a reported timeout. As long as
no command is given a sequence number that is still tracked, the pending table holds
exactly the telegrams that none of the three has ended.
-/

namespace AimDb.Knx

open Transition Containers

inductive AckEvent
  | sent (seq : UInt8)
  | acked (seq : UInt8)
  | failed (seq : UInt8)
  | timedOut (seq : UInt8)
  deriving DecidableEq, Repr

def AckEvent.Ends (seq : UInt8) : AckEvent → Prop
  | .sent _ => False
  | .acked other => other = seq
  | .failed other => other = seq
  | .timedOut other => other = seq

instance (seq : UInt8) : DecidablePred (AckEvent.Ends seq) := fun event => by
  cases event <;> unfold AckEvent.Ends <;> infer_instance

def timeoutEvent : Action → Option AckEvent
  | .ackTimeout seq => some (.timedOut seq)
  | _ => none

/-- What a command queues: its own request and the report of an eviction. -/
def commandEvent : Action → Option AckEvent
  | .ackTimeout seq => some (.timedOut seq)
  | .send _ (some seq) => some (.sent seq)
  | _ => none

variable (pico : KnxPico)

/-- What the log records of a call that queued `actions`. -/
def callEvents (actions : List Action) : Call → List AckEvent
  | .handleDatagram data _ =>
      match pico.parseFrame data with
      | some (.tunnellingAck, body) =>
          match pico.ackSeq body with
          | some seq => [.acked seq]
          | none => []
      | _ => []
  | .handleCommand _ _ => actions.filterMap commandEvent
  | .sendFailed seq => [.failed seq]
  | .poll _ => actions.filterMap timeoutEvent
  | _ => []

def connectionStep (engine : TunnelEngine) (call : Call) :
    Option (TunnelEngine × List AckEvent) :=
  let after := engine.call pico call
  if engine.isConnected && after.isConnected then
    some (after, callEvents pico (after.actions.drop engine.actions.length) call)
  else none

/-- A command is given a sequence number that is not tracked. -/
def SeqFree (engine : TunnelEngine) (call : Call) : Prop :=
  match call, engine.phase with
  | .handleCommand _ _, .connected state => state.outboundSeq ∉ state.pendingAcks.keys
  | _, _ => True

instance (engine : TunnelEngine) (call : Call) : Decidable (SeqFree engine call) := by
  unfold SeqFree
  split <;> infer_instance

def TunnelEngine.Established (engine : TunnelEngine) : Prop :=
  ∃ channelId now, engine.phase = .connected (.new channelId now engine.cfg)

def TunnelEngine.Tracks (engine : TunnelEngine) (seq : UInt8) : Prop :=
  ∃ state, engine.phase = .connected state ∧ seq ∈ state.pendingAcks.keys

/-- Remembers the telegrams that nothing has ended; a number is given out again only
after its telegram ended, and a timeout ends a telegram. -/
def ledger : Monitor (Finset UInt8) AckEvent where
  track outstanding event :=
    match event with
    | .sent seq => insert seq outstanding
    | .acked seq => outstanding.erase seq
    | .failed seq => outstanding.erase seq
    | .timedOut seq => outstanding.erase seq
  permits outstanding event :=
    match event with
    | .sent seq => seq ∉ outstanding
    | .timedOut seq => seq ∈ outstanding
    | _ => True

/-- The table after the events of `log`, which the ledger accepts. -/
structure Keeps (before after : PendingAcks) (log : List AckEvent) : Prop where
  accepts : ∀ outstanding : Finset UInt8,
    (∀ seq, seq ∈ before.keys ↔ seq ∈ outstanding) →
    ledger.Accepts outstanding log
  keys : ∀ outstanding : Finset UInt8, (∀ seq, seq ∈ before.keys ↔ seq ∈ outstanding) →
    ∀ seq, seq ∈ after.keys ↔ seq ∈ ledger.remember outstanding log

namespace Keeps

variable {before middle after : PendingAcks} {log more : List AckEvent} {seq : UInt8}

theorem refl (table : PendingAcks) : Keeps table table [] :=
  ⟨fun _ _ => trivial, fun _ same => same⟩

theorem trans (first : Keeps before middle log) (second : Keeps middle after more) :
    Keeps before after (log ++ more) := by
  refine ⟨fun outstanding same => ?_, fun outstanding same => ?_⟩
  · rw [Monitor.accepts_append]
    exact ⟨first.accepts _ same, second.accepts _ (first.keys _ same)⟩
  · rw [Monitor.remember_append]
    exact second.keys _ (first.keys _ same)

theorem removed {event : AckEvent} (ends : event.Ends seq)
    (known : event = .timedOut seq → seq ∈ before.keys) :
    Keeps before (before.remove seq) [event] := by
  have erases (outstanding : Finset UInt8) : ledger.track outstanding event =
      outstanding.erase seq := by
    cases event with
    | sent other => exact ends.elim
    | acked other => rw [show other = seq from ends]; rfl
    | failed other => rw [show other = seq from ends]; rfl
    | timedOut other => rw [show other = seq from ends]; rfl
  refine ⟨fun outstanding same => ⟨?_, trivial⟩, fun outstanding same other => ?_⟩
  · cases event with
    | sent other => exact ends.elim
    | acked other => trivial
    | failed other => trivial
    | timedOut other =>
        obtain rfl : other = seq := ends
        exact (same other).mp (known rfl)
  · rw [Monitor.remember_cons, Monitor.remember_nil, erases, IndexMap.mem_keys_remove,
      Finset.mem_erase, same other, and_comm]

theorem added {value : PendingAck} (fresh : seq ∉ before.keys)
    (grown : after.entries = before.entries ++ [(seq, value)]) :
    Keeps before after [.sent seq] := by
  refine ⟨fun outstanding same => ⟨?_, trivial⟩, fun outstanding same other => ?_⟩
  · exact fun mem => fresh ((same seq).mpr mem)
  · have keys : after.keys = before.keys ++ [seq] := by
      rw [IndexMap.keys, grown, List.map_append]
      rfl
    rw [keys, List.mem_append, List.mem_singleton, same other]
    exact (or_comm.trans Finset.mem_insert.symm)

end Keeps

theorem head?_of_full {table : PendingAcks} (full : pendingAckCapacity ≤ table.entries.length) :
    ∃ entry, table.entries.head? = some entry ∧ entry.1 ∈ table.keys := by
  cases slots : table.entries with
  | nil =>
      rw [slots] at full
      exact absurd full (by decide)
  | cons entry rest =>
      refine ⟨entry, rfl, ?_⟩
      rw [IndexMap.keys, slots]
      exact List.mem_cons_self

/-- A command whose number is free is tracked, after at most one reported eviction. -/
theorem PendingAcks.keeps_track {table : PendingAcks} {seq : UInt8} (fresh : seq ∉ table.keys)
    (pending : PendingAck) :
    Keeps table (table.track seq pending).1
      ((table.track seq pending).2.filterMap commandEvent ++ [.sent seq]) := by
  rw [track]
  rcases IndexMap.insert_of_not_mem pending fresh with
    ⟨full, refused⟩ | ⟨after, inserted, grown⟩
  · obtain ⟨⟨oldest, value⟩, isHead, isKey⟩ := head?_of_full full
    have held : oldest ∈ table.keys := isKey
    have freshLeft : seq ∉ (table.remove oldest).keys := fun mem =>
      fresh (IndexMap.mem_keys_remove.mp mem).1
    have room : ¬ pendingAckCapacity ≤ (table.remove oldest).entries.length := by
      have shorter := IndexMap.length_remove_of_mem held
      have bounded := table.bounded
      omega
    rw [refused, isHead]
    have evicted : Keeps table (table.remove oldest) [.timedOut oldest] :=
      Keeps.removed rfl fun _ => held
    rcases IndexMap.insert_of_not_mem pending freshLeft with
      ⟨stillFull, -⟩ | ⟨after, inserted, grown⟩
    · exact absurd stillFull room
    · change Keeps table (((table.remove oldest).insert seq pending).getD (table.remove oldest))
        ([.timedOut oldest] ++ [.sent seq])
      rw [inserted]
      exact evicted.trans (.added freshLeft grown)
  · rw [inserted]
    exact .added fresh grown

/-- An expired entry stays tracked while it is repeated, and is reported when it is not. -/
theorem Sweep.keeps_expire (cfg : TunnelConfig) (now : Millis) (sweep : Sweep) (seq : UInt8)
    {table : PendingAcks}
    (kept : Keeps table sweep.pendingAcks (sweep.queued.filterMap timeoutEvent)) :
    Keeps table (sweep.expire cfg now seq).pendingAcks
      ((sweep.expire cfg now seq).queued.filterMap timeoutEvent) := by
  rw [expire]
  split
  · exact kept
  · next pending found =>
    split
    · have silent :
          (sweep.queued ++ [Action.send pending.frame (some seq)]).filterMap timeoutEvent =
            sweep.queued.filterMap timeoutEvent := by
        rw [List.filterMap_append]
        exact List.append_nil _
      rw [silent]
      refine ⟨kept.accepts, fun outstanding same other => ?_⟩
      rw [IndexMap.keys_modify]
      exact kept.keys outstanding same other
    · have reported : Keeps sweep.pendingAcks (sweep.pendingAcks.remove seq) [.timedOut seq] :=
        Keeps.removed rfl fun _ => IndexMap.mem_keys_of_get? found
      rw [List.filterMap_append]
      exact kept.trans reported

theorem ChannelState.keeps_sweep (cfg : TunnelConfig) (now : Millis) (state : ChannelState) :
    Keeps state.pendingAcks (state.sweep cfg now).pendingAcks
      ((state.sweep cfg now).queued.filterMap timeoutEvent) := by
  rw [sweep]
  generalize state.expired cfg now = seqs
  have kept : Keeps state.pendingAcks (Sweep.mk state.pendingAcks [] false).pendingAcks
      ((Sweep.mk state.pendingAcks [] false).queued.filterMap timeoutEvent) := .refl _
  revert kept
  generalize Sweep.mk state.pendingAcks [] false = sweep
  intro kept
  induction seqs generalizing sweep with
  | nil => exact kept
  | cons seq rest inductionHypothesis =>
      exact inductionHypothesis _ (sweep.keeps_expire cfg now seq kept)

theorem ChannelState.keeps_receive (state : ChannelState) (data : List UInt8) (now : Millis)
    (actions : List Action) :
    Keeps state.pendingAcks (state.receive pico data).1.pendingAcks
      (callEvents pico actions (.handleDatagram data now)) := by
  rw [receive, callEvents]
  cases pico.parseFrame data with
  | none => exact .refl _
  | some frame =>
      obtain ⟨service, body⟩ := frame
      cases service with
      | tunnellingAck =>
          dsimp only
          cases pico.ackSeq body with
          | none => exact .refl _
          | some seq => exact .removed rfl (by simp)
      | tunnellingRequest =>
          dsimp only
          cases pico.parseTunnelingRequest body with
          | none => exact .refl _
          | some request =>
              dsimp only
              cases pico.parseTelegram request.2 <;> exact .refl _
      | connectionstateResponse =>
          dsimp only
          cases pico.parseConnectionStateResponse body with
          | none => exact .refl _
          | some ok => cases ok <;> exact .refl _
      | connectResponse => exact .refl _
      | other => exact .refl _

theorem ChannelState.keeps_sweepAcks (cfg : TunnelConfig) (now : Millis) (state : ChannelState) :
    Keeps state.pendingAcks (state.sweepAcks cfg now).1.pendingAcks
      ((state.sweepAcks cfg now).2.1.filterMap timeoutEvent) := by
  rw [sweepAcks]
  split
  · exact state.keeps_sweep cfg now
  · exact .refl _

theorem ChannelState.keepAlive_quiet (cfg : TunnelConfig) (now : Millis) (state : ChannelState) :
    (state.keepAlive pico cfg now).1.pendingAcks = state.pendingAcks ∧
      (state.keepAlive pico cfg now).2.filterMap timeoutEvent = [] := by
  rw [keepAlive]
  split <;> exact ⟨rfl, rfl⟩

theorem handleSocketError_ends (engine : TunnelEngine) (now : Millis) :
    (engine.handleSocketError now).isConnected = false := by
  rw [TunnelEngine.handleSocketError]
  cases phase : engine.phase <;>
    simp [TunnelEngine.queue, TunnelEngine.enter, TunnelEngine.isConnected, phase]

theorem drop_queue (engine : TunnelEngine) (phase : Phase) (actions : List Action) :
    ((engine.enter phase).queue actions).actions.drop engine.actions.length = actions :=
  List.drop_left

theorem connectionStep_keeps {engine after : TunnelEngine} {call : Call} {log : List AckEvent}
    (free : SeqFree engine call) (stepped : connectionStep pico engine call = some (after, log)) :
    ∃ state state', engine.phase = .connected state ∧ after.phase = .connected state' ∧
      Keeps state.pendingAcks state'.pendingAcks log := by
  rw [connectionStep] at stepped
  split at stepped
  · next both =>
    obtain ⟨rfl, rfl⟩ := Prod.mk.inj (Option.some.inj stepped)
    rw [Bool.and_eq_true] at both
    obtain ⟨connected, still⟩ := both
    obtain ⟨state, phase⟩ := isConnected_iff.mp connected
    refine ⟨state, ?_⟩
    cases call with
    | handleDatagram data now =>
        have kept := state.keeps_receive pico data now
          (((engine.call pico (.handleDatagram data now)).actions).drop engine.actions.length)
        simp only [TunnelEngine.call, TunnelEngine.handleDatagram, phase] at still kept ⊢
        split at still
        · rw [handleSocketError_ends] at still
          cases still
        · next stays =>
          rw [if_neg stays] at kept ⊢
          exact ⟨_, trivial, rfl, kept⟩
    | handleCommand cmd now =>
        have seqFree : state.outboundSeq ∉ state.pendingAcks.keys := by
          simpa [SeqFree, phase] using free
        simp only [TunnelEngine.call, TunnelEngine.handleCommand, phase, callEvents, drop_queue,
          List.filterMap_append]
        exact ⟨_, trivial, rfl, PendingAcks.keeps_track seqFree _⟩
    | sendFailed seq =>
        simp only [TunnelEngine.call, TunnelEngine.sendFailed, phase, callEvents]
        exact ⟨_, trivial, rfl, .removed rfl (by simp)⟩
    | handleSocketError now =>
        rw [TunnelEngine.call, handleSocketError_ends] at still
        cases still
    | poll now =>
        simp only [TunnelEngine.call, TunnelEngine.poll, phase, callEvents] at still ⊢
        split at still
        · rw [handleSocketError_ends] at still
          cases still
        · next answered =>
          rw [if_neg answered]
          obtain ⟨sameTable, quiet⟩ := state.keepAlive_quiet pico engine.cfg now
          split at still
          · rw [handleSocketError_ends] at still
            cases still
          · next stays =>
            have kept := (state.keepAlive pico engine.cfg now).1.keeps_sweepAcks engine.cfg now
            rw [sameTable] at kept
            rw [if_neg stays, drop_queue, List.filterMap_append, quiet, List.nil_append]
            exact ⟨_, trivial, rfl, kept⟩
    | nextAction => exact ⟨state, phase, phase, .refl _⟩
    | setLocalEndpoint ep => exact ⟨state, phase, phase, .refl _⟩
  · cases stepped

/-- The pending table and the ledger of the log agree, and the ledger accepts the log. -/
structure Balanced (engine : TunnelEngine) (log : List AckEvent) : Prop where
  accepted : ledger.Accepts ∅ log
  tracks : ∀ seq, engine.Tracks seq ↔ seq ∈ ledger.remember ∅ log

theorem balanced {start engine : TunnelEngine} {log : List AckEvent}
    (established : start.Established)
    (reached : Reaches (connectionStep pico) SeqFree start engine log) :
    Balanced engine log := by
  refine reached.invariant Balanced ?_ ?_
  · obtain ⟨channelId, now, phase⟩ := established
    refine ⟨trivial, fun seq => ⟨?_, fun mem => absurd mem (Finset.notMem_empty seq)⟩⟩
    rintro ⟨state, isState, mem⟩
    obtain rfl := Phase.connected.inj (phase.symm.trans isState)
    cases mem
  · intro engine log call after emitted _ free stepped balance
    obtain ⟨state, state', phase, phase', kept⟩ := connectionStep_keeps pico free stepped
    have same : ∀ seq, seq ∈ state.pendingAcks.keys ↔ seq ∈ ledger.remember ∅ log := by
      intro seq
      rw [← balance.tracks seq]
      constructor
      · exact fun mem => ⟨state, phase, mem⟩
      · rintro ⟨other, isOther, mem⟩
        obtain rfl := Phase.connected.inj (phase.symm.trans isOther)
        exact mem
    refine ⟨Monitor.accepts_append.mpr ⟨balance.accepted, kept.accepts _ same⟩,
      fun seq => ?_⟩
    rw [Monitor.remember_append, ← kept.keys _ same seq]
    constructor
    · rintro ⟨other, isOther, mem⟩
      obtain rfl := Phase.connected.inj (phase'.symm.trans isOther)
      exact mem
    · exact fun mem => ⟨state', phase', mem⟩

section Ledger

variable {outstanding : Finset UInt8} {seq : UInt8} {log : List AckEvent}

theorem mem_remember_of_open (mem : seq ∈ outstanding)
    (stays : ∀ event ∈ log, ¬ event.Ends seq) :
    seq ∈ ledger.remember outstanding log := by
  induction log generalizing outstanding with
  | nil => exact mem
  | cons event rest inductionHypothesis =>
      rw [List.forall_mem_cons] at stays
      refine inductionHypothesis ?_ stays.2
      cases event with
      | sent other => exact Finset.mem_insert_of_mem mem
      | acked other => exact Finset.mem_erase.mpr ⟨fun same => stays.1 same.symm, mem⟩
      | failed other => exact Finset.mem_erase.mpr ⟨fun same => stays.1 same.symm, mem⟩
      | timedOut other => exact Finset.mem_erase.mpr ⟨fun same => stays.1 same.symm, mem⟩

theorem not_mem_remember_of_unsent (absent : seq ∉ outstanding) (unsent : .sent seq ∉ log) :
    seq ∉ ledger.remember outstanding log := by
  induction log generalizing outstanding with
  | nil => exact absent
  | cons event rest inductionHypothesis =>
      obtain ⟨different, later⟩ := List.ne_and_not_mem_of_not_mem_cons unsent
      refine inductionHypothesis ?_ later
      cases event with
      | sent other =>
          intro mem
          rcases Finset.mem_insert.mp mem with same | mem
          · exact different (congrArg _ same)
          · exact absent mem
      | acked other => exact fun mem => absent (Finset.mem_of_mem_erase mem)
      | failed other => exact fun mem => absent (Finset.mem_of_mem_erase mem)
      | timedOut other => exact fun mem => absent (Finset.mem_of_mem_erase mem)

theorem not_mem_track_of_ends {event : AckEvent} (ends : event.Ends seq) :
    seq ∉ ledger.track outstanding event := by
  cases event with
  | sent other => exact ends.elim
  | acked other => rw [show other = seq from ends]; exact Finset.notMem_erase seq outstanding
  | failed other => rw [show other = seq from ends]; exact Finset.notMem_erase seq outstanding
  | timedOut other => rw [show other = seq from ends]; exact Finset.notMem_erase seq outstanding

/-- A number that is outstanding was given out, and nothing has ended it since. -/
theorem sent_of_mem_remember (mem : seq ∈ ledger.remember outstanding log) :
    (seq ∈ outstanding ∧ ∀ event ∈ log, ¬ event.Ends seq) ∨
      ∃ front middle, log = front ++ .sent seq :: middle ∧
      ∀ event ∈ middle, ¬ event.Ends seq := by
  induction log generalizing outstanding with
  | nil => exact .inl ⟨mem, by simp⟩
  | cons event rest inductionHypothesis =>
      rcases inductionHypothesis mem with ⟨held, stays⟩ | ⟨front, middle, split, stays⟩
      · by_cases isSent : event = .sent seq
        · exact .inr ⟨[], rest, by rw [isSent]; rfl, stays⟩
        · have lasts : ¬ event.Ends seq := fun ends => not_mem_track_of_ends ends held
          refine .inl ⟨?_, List.forall_mem_cons.mpr ⟨lasts, stays⟩⟩
          by_contra absent
          have unsent : .sent seq ∉ [event] := by simpa using fun same => isSent same.symm
          exact not_mem_remember_of_unsent absent unsent held
      · exact .inr ⟨event :: front, middle, by rw [split]; rfl, stays⟩

end Ledger

structure Accounts (engine : TunnelEngine) (log : List AckEvent) : Prop where
  tracked : ∀ before seq after, log = before ++ .sent seq :: after →
    (∀ event ∈ after, ¬ event.Ends seq) → engine.Tracks seq
  untracked : ∀ before event seq after, log = before ++ event :: after → event.Ends seq →
    .sent seq ∉ after → ¬ engine.Tracks seq
  kept : ∀ before seq middle after,
    log = before ++ .sent seq :: (middle ++ .sent seq :: after) →
    ∃ event ∈ middle, event.Ends seq
  /-- A timeout is reported of a telegram that nothing else has ended. -/
  timedOut : ∀ before seq after, log = before ++ .timedOut seq :: after →
    ∃ front middle, before = front ++ .sent seq :: middle ∧
    ∀ event ∈ middle, ¬ event.Ends seq

theorem Balanced.permits {engine : TunnelEngine} {log before after : List AckEvent}
    {event : AckEvent} (balance : Balanced engine log) (split : log = before ++ event :: after) :
    ledger.permits (ledger.remember ∅ before) event := by
  have accepted := balance.accepted
  rw [split, Monitor.accepts_append] at accepted
  exact accepted.2.1

/-- In a connection whose commands are all given a number that is not tracked, every
telegram is accounted for. -/
theorem accounts {start engine : TunnelEngine} {log : List AckEvent}
    (established : start.Established)
    (reached : Reaches (connectionStep pico) SeqFree start engine log) :
    Accounts engine log := by
  have balance := balanced pico established reached
  have given (outstanding : Finset UInt8) (seq : UInt8) :
      seq ∈ ledger.track outstanding (.sent seq) := Finset.mem_insert_self seq outstanding
  constructor
  · intro before seq after split stays
    rw [balance.tracks, split, Monitor.remember_append, Monitor.remember_cons]
    exact mem_remember_of_open (given _ seq) stays
  · intro before event seq after split ends unsent
    rw [balance.tracks, split, Monitor.remember_append, Monitor.remember_cons]
    exact not_mem_remember_of_unsent (not_mem_track_of_ends ends) unsent
  · intro before seq middle after split
    have reordered : log = (before ++ .sent seq :: middle) ++ .sent seq :: after := by
      rw [split, List.append_assoc]
      rfl
    have free := balance.permits reordered
    by_contra none
    push Not at none
    apply free
    rw [Monitor.remember_append, Monitor.remember_cons]
    exact mem_remember_of_open (given _ seq) none
  · intro before seq after split
    rcases sent_of_mem_remember (balance.permits split) with ⟨mem, -⟩ | sent
    · exact absurd mem (Finset.notMem_empty seq)
    · exact sent

theorem handleCommand_logged {engine : TunnelEngine} {cmd : GroupWrite} {now : Millis}
    (taken : (engine.handleCommand pico cmd now).1 = true) :
    ∃ state evicted, engine.phase = .connected state ∧
      (connectionStep pico engine (.handleCommand cmd now)).map Prod.snd =
        some (evicted ++ [.sent state.outboundSeq]) := by
  rw [TunnelEngine.handleCommand] at taken
  split at taken
  · next state phase =>
    have still : (engine.handleCommand pico cmd now).2.isConnected = true := by
      simp only [TunnelEngine.handleCommand, phase]
      rfl
    have logged : (connectionStep pico engine (.handleCommand cmd now)).map Prod.snd =
        some (((engine.handleCommand pico cmd now).2.actions.drop
          engine.actions.length).filterMap commandEvent) := by
      rw [connectionStep, isConnected_of_phase phase, TunnelEngine.call, still]
      rfl
    simp only [TunnelEngine.handleCommand, phase, drop_queue, List.filterMap_append] at logged
    exact ⟨state, _, phase, logged⟩
  · cases taken

def established : TunnelEngine :=
  ⟨{ ackRetransmits := 0 }, .connected (.new 7 0 { ackRetransmits := 0 }), []⟩

def switchOn : GroupWrite := ⟨0x0A03, [1], by decide⟩

def ackFrame (seq : UInt8) : Frame :=
  frameOf (serviceCode .tunnellingAck) [0x04, 7, seq, 0x00, 0x00]

/-- Two commands, of which the first is acknowledged and the second reported. -/
def twoCommands : List Call :=
  [.handleCommand switchOn 10, .handleCommand switchOn 20, .handleDatagram (ackFrame 0) 30,
    .poll 4000]

theorem accounts_twoCommands :
    ∃ engine, Reaches (connectionStep reference) SeqFree established engine
        [.sent 0, .sent 1, .acked 0, .timedOut 1] ∧
      Accounts engine [.sent 0, .sent 1, .acked 0, .timedOut 1] := by
  have replayed : (replay (connectionStep reference) established twoCommands).map Prod.snd =
      some [.sent 0, .sent 1, .acked 0, .timedOut 1] := by decide
  have permits : Permits (connectionStep reference) SeqFree established twoCommands := by
    decide
  obtain ⟨⟨engine, log⟩, replayed, rfl⟩ := Option.map_eq_some_iff.mp replayed
  have reached := Reaches.start.replay permits replayed
  exact ⟨engine, reached, accounts reference ⟨7, 0, rfl⟩ reached⟩

/-- The telegram with number 0 stays unanswered while 255 others are acknowledged. -/
def wrapAround : List Call :=
  .handleCommand switchOn 1 ::
    ((List.range 255).flatMap fun i =>
      [.handleCommand switchOn 1, .nextAction,
        .handleDatagram (ackFrame (UInt8.ofNat (i + 1))) 1]) ++
    [.handleCommand switchOn 1]

theorem overwritten_wrapAround :
    ∃ engine log, Reachable (connectionStep reference) established engine log ∧
      ¬ Accounts engine log := by
  have replayed : (replay (connectionStep reference) established wrapAround).map Prod.snd =
      some (.sent 0 :: (((List.range 255).flatMap fun i =>
        [.sent (UInt8.ofNat (i + 1)), .acked (UInt8.ofNat (i + 1))]) ++ [.sent 0])) := by
    decide +kernel
  obtain ⟨⟨engine, log⟩, replayed, isLog⟩ := Option.map_eq_some_iff.mp replayed
  refine ⟨engine, log, reachable_of_replay replayed, fun account => ?_⟩
  obtain ⟨event, mem, ends⟩ := account.kept [] 0 _ [] isLog
  revert event
  decide +kernel

end AimDb.Knx
