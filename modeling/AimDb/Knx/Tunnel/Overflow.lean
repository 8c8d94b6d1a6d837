import AimDb.Knx.Tunnel.Repeats

/-!
# Overflow of the pending table

A full table makes room by giving up the telegram in its first slot. That is the one
sent first as long as no removal has moved a newer telegram there: the table fills a
freed slot with its last entry.
-/

namespace AimDb.Knx

open Transition Containers

variable (pico : KnxPico)

/-- The telegrams that are awaiting their ACK, first sent first. -/
def arrange (order : List UInt8) : TelegramEvent → List UInt8
  | .requested seq _ _ => order.erase seq ++ [seq]
  | .repeated _ _ _ => order
  | .acked seq => order.erase seq
  | .failed seq => order.erase seq
  | .evicted seq => order.erase seq
  | .expired seq _ => order.erase seq

def awaiting (log : List TelegramEvent) : List UInt8 := log.foldl arrange []

/-- An engine beside the order in which its telegrams were sent. -/
structure Watched where
  engine : TunnelEngine
  order : List UInt8

def Watched.step (watched : Watched) (call : Call) : Option (Watched × List TelegramEvent) :=
  (telegramStep pico watched.engine call).map fun (after, emitted) =>
    (⟨after, emitted.foldl arrange watched.order⟩, emitted)

/-- The telegrams that a call takes out of the table of a connection it keeps, in turn. -/
def leaving (engine : TunnelEngine) (call : Call) : List UInt8 :=
  match engine.phase with
  | .connected state =>
      match call with
      | .handleDatagram data _ =>
          match pico.parseFrame data with
          | some (.tunnellingAck, body) => (pico.ackSeq body).toList
          | _ => []
      | .handleCommand _ _ =>
          if pendingAckCapacity ≤ state.pendingAcks.entries.length then
            state.pendingAcks.keys.head?.toList
          else []
      | .sendFailed seq => [seq]
      | .poll now =>
          if state.overdue engine.cfg now || state.givesUp engine.cfg now then []
          else if state.nextAckSweep ≤ now then
            (state.expired engine.cfg now).filter (Exhausted state.pendingAcks)
          else []
      | _ => []
  | _ => []

def FirstSlotStays (order slots : List UInt8) : List UInt8 → Prop
  | [] => True
  | seq :: rest =>
      (slots.head? = some seq → slots.tail.getLast? = (order.erase seq).head?) ∧
        FirstSlotStays (order.erase seq) (swapErase seq slots) rest

instance FirstSlotStays.decidable : ∀ (order slots leaving : List UInt8),
    Decidable (FirstSlotStays order slots leaving)
  | _, _, [] => isTrue trivial
  | order, slots, seq :: rest =>
      have := FirstSlotStays.decidable (order.erase seq) (swapErase seq slots) rest
      inferInstanceAs (Decidable ((_ → _) ∧ _))

def TunnelEngine.slots (engine : TunnelEngine) : List UInt8 :=
  match engine.phase with
  | .connected state => state.pendingAcks.keys
  | _ => []

/-- No number is given out that is tracked, and the first slot is left only to the oldest. -/
def Orderly (watched : Watched) (call : Call) : Prop :=
  SeqFree watched.engine call ∧
    FirstSlotStays watched.order watched.engine.slots (leaving pico watched.engine call)

instance (watched : Watched) (call : Call) : Decidable (Orderly pico watched call) :=
  inferInstanceAs (Decidable (_ ∧ _))

/-- The table holds the telegrams that are awaiting their ACK, the oldest in the first slot. -/
structure OldestFirst (order slots : List UInt8) : Prop where
  distinct : slots.Nodup
  perm : slots.Perm order
  first : slots.head? = order.head?

namespace OldestFirst

variable {order slots : List UInt8} {seq : UInt8}

theorem mem_iff (held : OldestFirst order slots) : seq ∈ order ↔ seq ∈ slots :=
  held.perm.mem_iff.symm

theorem head?_erase (held : OldestFirst order slots) (other : slots.head? ≠ some seq) :
    (order.erase seq).head? = slots.head? := by
  rw [held.first] at other ⊢
  cases order with
  | nil => rfl
  | cons oldest rest =>
      rw [List.head?_cons, ne_eq, Option.some.injEq] at other
      rw [List.erase_cons_tail (by simpa using other)]
      rfl

/-- A removal leaves the oldest first exactly if the last slot may take the first one's place. -/
theorem erase_iff (held : OldestFirst order slots) :
    OldestFirst (order.erase seq) (swapErase seq slots) ↔
      (slots.head? = some seq → slots.tail.getLast? = (order.erase seq).head?) := by
  have perm : (swapErase seq slots).Perm (order.erase seq) :=
    (swapErase_perm seq slots).trans (held.perm.erase seq)
  have distinct : (swapErase seq slots).Nodup :=
    (swapErase_perm seq slots).nodup_iff.mpr (held.distinct.erase seq)
  constructor
  · intro left isFirst
    have first := left.first
    rwa [head?_swapErase, if_pos isFirst] at first
  · intro stays
    refine ⟨distinct, perm, ?_⟩
    rw [head?_swapErase]
    split
    · next isFirst => exact stays isFirst
    · next other => exact (held.head?_erase other).symm

theorem erase_all (held : OldestFirst order slots) {leaving : List UInt8}
    (stays : FirstSlotStays order slots leaving) :
    OldestFirst (leaving.foldl List.erase order)
      (leaving.foldl (fun slots seq => swapErase seq slots)
      slots) := by
  induction leaving generalizing order slots with
  | nil => exact held
  | cons seq rest inductionHypothesis =>
      exact inductionHypothesis (held.erase_iff.mpr stays.1) stays.2

theorem append (held : OldestFirst order slots) (fresh : seq ∉ slots) :
    OldestFirst (order.erase seq ++ [seq]) (slots ++ [seq]) := by
  rw [List.erase_of_not_mem fun mem => fresh (held.mem_iff.mp mem)]
  refine ⟨?_, held.perm.append_right [seq], ?_⟩
  · rw [List.nodup_append]
    refine ⟨held.distinct, List.nodup_singleton seq, fun other mem last isLast => ?_⟩
    rw [List.mem_singleton.mp isLast]
    exact fun same => fresh (same ▸ mem)
  · rw [List.head?_append, List.head?_append, held.first]

end OldestFirst

/-- What a call does to the slots and to the order, when nothing joins the table. -/
structure Leaves (order slots after : List UInt8) (emitted : List TelegramEvent)
    (leaving : List UInt8) : Prop where
  slots : after = leaving.foldl (fun slots seq => swapErase seq slots) slots
  order : emitted.foldl arrange order = leaving.foldl List.erase order

theorem Sweep.leaves_foldl (cfg : TunnelConfig) (now : Millis) (table : PendingAcks)
    {seqs : List UInt8} (distinct : seqs.Nodup) (sweep : Sweep)
    (same : ∀ seq ∈ seqs, sweep.pendingAcks.get? seq = table.get? seq)
    {order slots left : List UInt8}
    (leaves : Leaves order slots sweep.pendingAcks.keys
      (sweep.queued.filterMap (sweepTelegram now)) left) :
    Leaves order slots (seqs.foldl (Sweep.expire cfg now) sweep).pendingAcks.keys
      ((seqs.foldl (Sweep.expire cfg now) sweep).queued.filterMap (sweepTelegram now))
      (left ++ seqs.filter (Exhausted table)) := by
  induction seqs generalizing sweep left with
  | nil => simpa using leaves
  | cons seq rest inductionHypothesis =>
      obtain ⟨fresh, distinctRest⟩ := List.nodup_cons.mp distinct
      have unchanged : ∀ other ∈ rest,
          (sweep.expire cfg now seq).pendingAcks.get? other = table.get? other := by
        intro other mem
        rw [(sweep.expire_spec cfg now seq).2 other fun isSeq => fresh (isSeq ▸ mem)]
        exact same other (List.mem_cons_of_mem _ mem)
      have here := same seq List.mem_cons_self
      rw [List.foldl_cons, List.filter_cons]
      cases found : sweep.pendingAcks.get? seq with
      | none =>
          have expired : sweep.expire cfg now seq = sweep := by rw [expire, found]
          have kept : Exhausted table seq = false := by rw [Exhausted, ← here, found]; rfl
          rw [kept, if_neg Bool.false_ne_true]
          refine inductionHypothesis distinctRest _ unchanged ?_
          rwa [expired]
      | some pending =>
          by_cases repeats : 0 < pending.retriesLeft
          · have expired : sweep.expire cfg now seq =
                { sweep with
                  pendingAcks := sweep.pendingAcks.modify seq fun pending =>
                    { pending with retriesLeft := pending.retriesLeft - 1, sentAt := now }
                  queued := sweep.queued ++ [.send pending.frame (some seq)] } := by
              rw [expire, found]
              exact if_pos repeats
            have kept : Exhausted table seq = false := by
              rw [Exhausted, ← here, found, Option.any_some, decide_eq_false_iff_not]
              intro zero
              rw [zero] at repeats
              cases repeats
            rw [kept, if_neg Bool.false_ne_true]
            refine inductionHypothesis distinctRest _ unchanged ?_
            rw [expired, IndexMap.keys_modify, List.filterMap_append]
            exact ⟨leaves.slots, by rw [List.foldl_append, leaves.order]; rfl⟩
          · have expired : sweep.expire cfg now seq =
                { pendingAcks := sweep.pendingAcks.remove seq
                  queued := sweep.queued ++ [.ackTimeout seq]
                  dropConnection := sweep.dropConnection || 0 < cfg.ackRetransmits } := by
              rw [expire, found]
              exact if_neg repeats
            have taken : Exhausted table seq = true := by
              rw [Exhausted, ← here, found, Option.any_some, decide_eq_true_eq,
                ← UInt8.toNat_inj]
              simpa [UInt8.lt_iff_toNat_lt] using repeats
            rw [taken, if_pos rfl, ← List.singleton_append, ← List.append_assoc]
            refine inductionHypothesis distinctRest _ unchanged ?_
            rw [expired, IndexMap.keys_remove, List.filterMap_append]
            refine ⟨?_, ?_⟩
            · rw [List.foldl_append, ← leaves.slots]
              rfl
            · rw [List.foldl_append, List.foldl_append, leaves.order]
              rfl

theorem ChannelState.leaves_receive (state : ChannelState) (data : List UInt8) (now : Millis)
    (queued : List Action) (order : List UInt8) :
    Leaves order state.pendingAcks.keys (state.receive pico data).1.pendingAcks.keys
      (telegramEvents pico queued (.handleDatagram data now))
      (match pico.parseFrame data with
        | some (.tunnellingAck, body) => (pico.ackSeq body).toList
        | _ => []) := by
  have same : Leaves order state.pendingAcks.keys state.pendingAcks.keys [] [] := ⟨rfl, rfl⟩
  rw [receive, telegramEvents]
  cases pico.parseFrame data with
  | none => exact same
  | some frame =>
      obtain ⟨service, body⟩ := frame
      cases service with
      | tunnellingAck =>
          dsimp only
          cases pico.ackSeq body with
          | none => exact same
          | some seq => exact ⟨IndexMap.keys_remove, rfl⟩
      | tunnellingRequest =>
          dsimp only
          cases pico.parseTunnelingRequest body with
          | none => exact same
          | some request =>
              dsimp only
              cases pico.parseTelegram request.2 <;> exact same
      | connectionstateResponse =>
          dsimp only
          cases pico.parseConnectionStateResponse body with
          | none => exact same
          | some ok => cases ok <;> exact same
      | connectResponse => exact same
      | other => exact same

theorem ChannelState.leaves_sweepAcks (cfg : TunnelConfig) (now : Millis) (state : ChannelState)
    (order : List UInt8) :
    Leaves order state.pendingAcks.keys (state.sweepAcks cfg now).1.pendingAcks.keys
      ((state.sweepAcks cfg now).2.1.filterMap (sweepTelegram now))
      (if state.nextAckSweep ≤ now then
        (state.expired cfg now).filter (Exhausted state.pendingAcks)
      else []) := by
  rw [sweepAcks]
  split
  · have distinct : (state.expired cfg now).Nodup :=
      state.pendingAcks.distinct.sublist (List.filter_sublist.map _)
    have start : Leaves order state.pendingAcks.keys state.pendingAcks.keys [] [] := ⟨rfl, rfl⟩
    exact Sweep.leaves_foldl cfg now state.pendingAcks distinct { pendingAcks := state.pendingAcks }
      (fun _ _ => rfl) start
  · exact ⟨rfl, rfl⟩

/-- A command whose number is free takes a slot, the first one's if none is free. -/
theorem PendingAcks.track_spec {table : PendingAcks} {seq : UInt8} (fresh : seq ∉ table.keys)
    (pending : PendingAck) :
    (table.entries.length < pendingAckCapacity ∧ (table.track seq pending).2 = [] ∧
      (table.track seq pending).1.entries = table.entries ++ [(seq, pending)]) ∨
    ∃ oldest, table.keys.head? = some oldest ∧ pendingAckCapacity ≤ table.entries.length ∧
      (table.track seq pending).2 = [.ackTimeout oldest] ∧
      (table.track seq pending).1.entries = (table.remove oldest).entries ++ [(seq, pending)] := by
  rw [track]
  rcases IndexMap.insert_of_not_mem pending fresh with
    ⟨full, refused⟩ | ⟨after, inserted, grown⟩
  · obtain ⟨⟨oldest, value⟩, isHead, isKey⟩ := head?_of_full full
    have held : oldest ∈ table.keys := isKey
    have freshLeft : seq ∉ (table.remove oldest).keys := fun mem =>
      fresh (IndexMap.mem_keys_remove.mp mem).1
    have room : ¬ pendingAckCapacity ≤ (table.remove oldest).entries.length := by
      have shorter := IndexMap.length_remove_of_mem held
      have bounded := table.bounded
      omega
    have first : table.keys.head? = some oldest := by
      rw [IndexMap.keys, List.head?_map, isHead]
      rfl
    rcases IndexMap.insert_of_not_mem pending freshLeft with
      ⟨stillFull, -⟩ | ⟨after, inserted, grown⟩
    · exact absurd stillFull room
    · refine .inr ⟨oldest, first, full, ?_⟩
      rw [refused, isHead]
      dsimp only
      rw [inserted]
      exact ⟨rfl, grown⟩
  · rw [inserted]
    have room : table.entries.length < pendingAckCapacity := by
      have bounded := after.bounded
      rw [grown, List.length_append] at bounded
      exact bounded
    exact .inl ⟨room, rfl, grown⟩

theorem keys_of_append {before after : PendingAcks} {seq : UInt8} {pending : PendingAck}
    (grown : after.entries = before.entries ++ [(seq, pending)]) :
    after.keys = before.keys ++ [seq] := by
  rw [IndexMap.keys, grown, List.map_append]
  rfl

theorem OldestFirst.next {watched : Watched} {call : Call} {after : TunnelEngine}
    {emitted : List TelegramEvent} {state state' : ChannelState}
    (held : OldestFirst watched.order state.pendingAcks.keys)
    (phase : watched.engine.phase = .connected state) (still : after.phase = .connected state')
    (orderly : Orderly pico watched call)
    (stepped : telegramStep pico watched.engine call = some (after, emitted)) :
    OldestFirst (emitted.foldl arrange watched.order) state'.pendingAcks.keys := by
  obtain ⟨free, stays⟩ := orderly
  rw [TunnelEngine.slots, phase, leaving, phase] at stays
  have only {leaving : List UInt8}
      (leaves : Leaves watched.order state.pendingAcks.keys state'.pendingAcks.keys emitted leaving)
      (stays : FirstSlotStays watched.order state.pendingAcks.keys leaving) :
      OldestFirst (emitted.foldl arrange watched.order) state'.pendingAcks.keys := by
    rw [leaves.order, leaves.slots]
    exact held.erase_all stays
  rw [telegramStep, isConnected_of_phase phase, if_pos rfl] at stepped
  obtain ⟨rfl, rfl⟩ := Prod.mk.inj (Option.some.inj stepped)
  cases call with
  | handleDatagram data now =>
      refine only ?_ stays
      have leaves := state.leaves_receive pico data now
        ((watched.engine.call pico (.handleDatagram data now)).actions.drop
          watched.engine.actions.length) watched.order
      simp only [TunnelEngine.call, TunnelEngine.handleDatagram, phase] at still
      split at still
      · exact absurd still (handleSocketError_phase _ _ _)
      · rw [← Phase.connected.inj still]
        exact leaves
  | handleCommand cmd now =>
      have fresh : state.outboundSeq ∉ state.pendingAcks.keys := by
        simpa [SeqFree, phase] using free
      simp only [TunnelEngine.call, TunnelEngine.handleCommand, phase, telegramEvents, drop_queue]
        at still ⊢
      rw [← Phase.connected.inj still]
      dsimp only at stays ⊢
      rcases PendingAcks.track_spec fresh _ with ⟨room, none, grown⟩ |
        ⟨oldest, isFirst, full, evicted, grown⟩
      · rw [keys_of_append grown, none]
        exact held.append fresh
      · rw [if_pos full, isFirst] at stays
        have left := held.erase_all stays
        rw [keys_of_append grown, evicted, IndexMap.keys_remove]
        refine left.append fun mem => fresh ?_
        exact List.mem_of_mem_erase ((swapErase_perm oldest _).mem_iff.mp mem)
  | sendFailed seq =>
      refine only ?_ stays
      simp only [TunnelEngine.call, TunnelEngine.sendFailed, phase] at still
      rw [← Phase.connected.inj still]
      exact ⟨IndexMap.keys_remove, rfl⟩
  | handleSocketError now => exact absurd still (handleSocketError_phase _ _ _)
  | poll now =>
      dsimp only at stays
      have outcome := (poll_connected pico now phase).2
      rw [TunnelEngine.call] at still
      rw [still] at outcome
      split at outcome
      · cases outcome
      · next going =>
        rw [if_neg going] at stays
        obtain ⟨acks, sweep, -, -⟩ := keepAlive_spec pico watched.engine.cfg now state
        have leaves := (state.keepAlive pico watched.engine.cfg now).1.leaves_sweepAcks
          watched.engine.cfg now watched.order
        have expired : (state.keepAlive pico watched.engine.cfg now).1.expired watched.engine.cfg
            now = state.expired watched.engine.cfg now := by
          rw [ChannelState.expired, acks, ChannelState.expired]
        rw [acks, sweep, expired] at leaves
        have polled : state' = state.polled pico watched.engine.cfg now :=
          Phase.connected.inj outcome
        refine only ?_ stays
        rw [polled]
        rcases poll_queued pico now phase with ⟨late, -⟩ | ⟨polled, rfl, queued, -⟩
        · rw [late, Bool.true_or] at going
          exact absurd rfl going
        · rw [telegramEvents, TunnelEngine.call, queued, List.filterMap_append,
            List.filterMap_append,
            state.keepAlive_unlogged pico watched.engine.cfg now, List.nil_append]
          have silent : (if ((state.keepAlive pico watched.engine.cfg now).1.sweepAcks
              watched.engine.cfg now).2.2 then [Action.resetSocket] else []).filterMap
              (sweepTelegram now) = [] := by
            split <;> rfl
          rw [silent, List.append_nil]
          exact leaves
  | nextAction =>
      obtain rfl := Phase.connected.inj (phase.symm.trans still)
      exact held
  | setLocalEndpoint ep =>
      obtain rfl := Phase.connected.inj (phase.symm.trans still)
      exact held

/-- In a state with a full table the command reports and gives up the telegram sent first,
and keeps the others. -/
def EvictsOldest (engine : TunnelEngine) (log : List TelegramEvent) (cmd : GroupWrite)
    (now : Millis) : Prop :=
  ∀ state, engine.phase = .connected state →
    state.pendingAcks.entries.length = pendingAckCapacity →
    ∃ oldest rest frame state', awaiting log = oldest :: rest ∧
      (engine.handleCommand pico cmd now).2.actions =
        engine.actions ++ [.ackTimeout oldest, .send frame (some state.outboundSeq)] ∧
      (engine.handleCommand pico cmd now).2.phase = .connected state' ∧
      state'.pendingAcks.keys.Perm (rest ++ [state.outboundSeq]) ∧
      ∀ seq ∈ rest, state'.pendingAcks.get? seq = state.pendingAcks.get? seq

theorem handleCommand_spec {engine : TunnelEngine} {state : ChannelState} (cmd : GroupWrite)
    (now : Millis) (phase : engine.phase = .connected state) :
    ∃ pending frame state',
      (engine.handleCommand pico cmd now).2.actions = engine.actions ++
        ((state.pendingAcks.track state.outboundSeq pending).2 ++
          [.send frame (some state.outboundSeq)]) ∧
      (engine.handleCommand pico cmd now).2.phase = .connected state' ∧
      state'.pendingAcks = (state.pendingAcks.track state.outboundSeq pending).1 := by
  simp only [TunnelEngine.handleCommand, phase]
  exact ⟨_, _, _, rfl, rfl, rfl⟩

theorem OldestFirst.evicts {engine : TunnelEngine} {log : List TelegramEvent} {cmd : GroupWrite}
    {now : Millis} (free : SeqFree engine (.handleCommand cmd now))
    (held : ∀ state, engine.phase = .connected state →
      OldestFirst (awaiting log) state.pendingAcks.keys) :
        EvictsOldest pico engine log cmd now := by
  intro state phase full
  have fresh : state.outboundSeq ∉ state.pendingAcks.keys := by simpa [SeqFree, phase] using free
  have oldestFirst := held state phase
  obtain ⟨pending, frame, state', queued, still, table⟩ := handleCommand_spec pico cmd now phase
  rcases PendingAcks.track_spec fresh pending with ⟨room, -, -⟩ |
    ⟨oldest, isFirst, -, evicted, grown⟩
  · rw [full] at room
    exact absurd room (Nat.lt_irrefl _)
  · rw [oldestFirst.first] at isFirst
    cases order : awaiting log with
    | nil =>
        rw [order] at isFirst
        cases isFirst
    | cons first rest =>
        rw [order] at isFirst oldestFirst
        obtain rfl := Option.some.inj isFirst
        refine ⟨first, rest, frame, state', rfl, by rw [queued, evicted]; rfl, still, ?_, ?_⟩
        · rw [table, keys_of_append grown, IndexMap.keys_remove]
          refine List.Perm.append_right _ ((swapErase_perm first _).trans ?_)
          have left := oldestFirst.perm.erase first
          rwa [List.erase_cons_head] at left
        · intro seq mem
          have distinct := oldestFirst.perm.nodup_iff.mp oldestFirst.distinct
          have different : seq ≠ first :=
            fun same => (List.nodup_cons.mp distinct).1 (same ▸ mem)
          have known : seq ∈ state.pendingAcks.keys :=
            oldestFirst.mem_iff.mp (List.mem_cons_of_mem _ mem)
          have freshLeft : state.outboundSeq ∉ (state.pendingAcks.remove first).keys := fun mem =>
            fresh (IndexMap.mem_keys_remove.mp mem).1
          have other : seq ≠ state.outboundSeq := fun same => fresh (same ▸ known)
          rw [table, IndexMap.get?_of_append freshLeft grown, if_neg other,
            IndexMap.get?_remove_of_ne different]

/-- As long as the first slot is left only to the oldest telegram, an overflow evicts that one. -/
theorem evictsOldest_of_orderly {start : TunnelEngine} {watched : Watched}
    {log : List TelegramEvent} (established : start.Established)
    (reached : Reaches (Watched.step pico) (Orderly pico) ⟨start, []⟩ watched log)
    {cmd : GroupWrite} {now : Millis} (free : SeqFree watched.engine (.handleCommand cmd now)) :
    EvictsOldest pico watched.engine log cmd now := by
  have kept : watched.order = awaiting log ∧
    ∀ state, watched.engine.phase = .connected state →
      OldestFirst watched.order state.pendingAcks.keys := by
    refine reached.invariant (fun watched log => watched.order = awaiting log ∧
      ∀ state, watched.engine.phase = .connected state →
        OldestFirst watched.order state.pendingAcks.keys) ?_ ?_
    · obtain ⟨channelId, now, phase⟩ := established
      refine ⟨rfl, fun state isState => ?_⟩
      obtain rfl := Phase.connected.inj (phase.symm.trans isState)
      exact ⟨List.nodup_nil, .nil, rfl⟩
    · intro watched log call after emitted _ orderly stepped inductionHypothesis
      obtain ⟨ordered, held⟩ := inductionHypothesis
      obtain ⟨outcome, moved, same⟩ := Option.map_eq_some_iff.mp stepped
      obtain ⟨rfl, rfl⟩ := Prod.mk.inj same
      refine ⟨by rw [awaiting, List.foldl_append, ordered]; rfl, fun state' still => ?_⟩
      obtain ⟨state, -, phase, -⟩ := telegramStep_follows pico orderly.1 moved
      exact (held state phase).next pico phase still orderly moved
  refine OldestFirst.evicts pico free fun state phase => ?_
  rw [← kept.1]
  exact kept.2 state phase

def burst : List Call := List.replicate 16 (.handleCommand switchOn 10)

theorem evictsOldest_burst :
    ∃ watched log, Reaches (Watched.step reference) (Orderly reference)
      ⟨established, []⟩ watched
        log ∧ watched.engine.slots.length = pendingAckCapacity ∧
      EvictsOldest reference watched.engine log switchOn 20 := by
  have runs : (replay (Watched.step reference) ⟨established, []⟩ burst).any (fun run =>
      run.1.engine.slots.length = pendingAckCapacity &&
        SeqFree run.1.engine (.handleCommand switchOn 20)) = true := by decide
  have permits : Permits (Watched.step reference) (Orderly reference)
      ⟨established, []⟩ burst := by
    decide
  obtain ⟨⟨watched, log⟩, replayed, holds⟩ := Option.any_eq_true .. |>.mp runs
  obtain ⟨full, free⟩ := Bool.and_eq_true .. |>.mp holds
  have reached := Reaches.start.replay permits replayed
  exact ⟨watched, log, reached, of_decide_eq_true full, evictsOldest_of_orderly reference
    ⟨7, 0, rfl⟩ reached (of_decide_eq_true free)⟩

/-- The first of sixteen telegrams is acknowledged, and a seventeenth fills the table. -/
def refilled : List Call :=
  burst ++ [.handleDatagram (ackFrame 0) 20, .handleCommand switchOn 20]

theorem newer_evicted :
    ∃ engine log, Reachable (telegramStep reference) established engine log ∧
      SeqFree engine (.handleCommand switchOn 30) ∧
      ¬ EvictsOldest reference engine log switchOn 30 := by
  have runs : (replay (telegramStep reference) established refilled).any (fun run =>
      (awaiting run.2).head? = some 1 && run.1.isConnected &&
        (run.1.slots.length = pendingAckCapacity &&
          SeqFree run.1 (.handleCommand switchOn 30)) &&
        ((run.1.handleCommand reference switchOn 30).2.actions.drop
          run.1.actions.length).contains (.ackTimeout 15)) = true := by decide
  obtain ⟨⟨engine, log⟩, replayed, holds⟩ := Option.any_eq_true .. |>.mp runs
  simp only [Bool.and_eq_true, decide_eq_true_eq, List.contains_iff_mem] at holds
  obtain ⟨⟨⟨oldest, connected⟩, full, free⟩, reported⟩ := holds
  refine ⟨engine, log, reachable_of_replay replayed, free, fun evicts => ?_⟩
  obtain ⟨state, phase⟩ := isConnected_iff.mp connected
  have slots : engine.slots = state.pendingAcks.keys := by rw [TunnelEngine.slots, phase]
  rw [slots, IndexMap.keys, List.length_map] at full
  obtain ⟨first, rest, frame, _, isFirst, queued, -⟩ := evicts state phase full
  rw [isFirst] at oldest
  rw [queued, List.drop_left, Option.some.inj oldest] at reported
  simp at reported

end AimDb.Knx
