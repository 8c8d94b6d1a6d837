import AimDb.Session.Server
import AimDb.Transition.Monitor

/-!
# What one step of a session can do

Every invariant of the session is proved from `Took`, which lists the branches
of a step with their guards, the state after and the records they leave.
-/

namespace AimDb.Session.Server

open AimDb.Json AimDb.Transition

variable {codec : EnvelopeCodec} {config : SessionConfig}

def said (codec : EnvelopeCodec) (frames : List (Option ℕ × Outbound)) : List Record :=
  (frames.filter fun frame => encodes codec frame.2).map fun frame => .sent frame.1 frame.2

theorem said_encoded {frame : Outbound} (encoded : encodes codec frame = true)
    (origin : Option ℕ) (rest : List (Option ℕ × Outbound)) :
    said codec ((origin, frame) :: rest) = .sent origin frame :: said codec rest := by
  simp [said, encoded]

theorem said_skipped {frame : Outbound} (skipped : ¬ encodes codec frame = true)
    (origin : Option ℕ) (rest : List (Option ℕ × Outbound)) :
    said codec ((origin, frame) :: rest) = said codec rest := by
  simp [said, skipped]

variable (codec) in
theorem transmit_cases (origin : Option ℕ) (frame : Outbound) (sends : List Bool) :
    (transmit codec origin frame sends).alive = true ∧
        (transmit codec origin frame sends).records = said codec [(origin, frame)] ∨
      (transmit codec origin frame sends).alive = false ∧
        (transmit codec origin frame sends).records = [.failed frame] := by
  by_cases encoded : encodes codec frame = true
  · rcases sends with _ | ⟨_ | _, rest⟩
    · exact .inl (by simp [transmit, said, encoded])
    · exact .inr (by simp [transmit, encoded])
    · exact .inl (by simp [transmit, said, encoded])
  · exact .inl (by simp [transmit, said, encoded])

inductive Sent (codec : EnvelopeCodec) (frames : List (Option ℕ × Outbound)) :
    Bool → List Record → Prop
  | whole : Sent codec frames true (said codec frames)
  | cut {front rest : List (Option ℕ × Outbound)} {origin : Option ℕ} {frame : Outbound} :
      frames = front ++ (origin, frame) :: rest →
      Sent codec frames false (said codec front ++ [.failed frame])

variable (codec) in
theorem sent_transmit (origin : Option ℕ) (frame : Outbound) (sends : List Bool) :
    Sent codec [(origin, frame)] (transmit codec origin frame sends).alive
      (transmit codec origin frame sends).records := by
  rcases transmit_cases codec origin frame sends with ⟨alive, records⟩ | ⟨alive, records⟩
  · rw [alive, records]
    exact .whole
  · rw [alive, records]
    exact @Sent.cut _ _ [] _ _ _ rfl

theorem said_cons (frame : Option ℕ × Outbound) (rest : List (Option ℕ × Outbound)) :
    said codec (frame :: rest) = said codec [frame] ++ said codec rest := by
  simp only [said, ← List.map_append, ← List.filter_append, List.singleton_append]

theorem Sent.cons {frames : List (Option ℕ × Outbound)} {alive : Bool} {records : List Record}
    (frame : Option ℕ × Outbound) (sent : Sent codec frames alive records) :
    Sent codec (frame :: frames) alive (said codec [frame] ++ records) := by
  cases sent with
  | whole =>
      rw [← said_cons]
      exact .whole
  | @cut front _ _ _ split =>
      rw [← List.append_assoc, ← said_cons]
      exact .cut (by rw [split, List.cons_append])

variable (codec) in
theorem sent_transmitAll (frames : List (Option ℕ × Outbound)) (sends : List Bool) :
    Sent codec frames (transmitAll codec frames sends).alive
      (transmitAll codec frames sends).records := by
  induction frames generalizing sends with
  | nil => exact .whole
  | cons frame rest inductionHypothesis =>
      rw [transmitAll]
      rcases transmit_cases codec frame.1 frame.2 sends with
        ⟨alive, records⟩ | ⟨alive, records⟩
      · simp only [alive, if_true, records]
        exact (inductionHypothesis _).cons frame
      · simp only [alive, Bool.false_eq_true, if_false, records]
        exact @Sent.cut _ _ [] _ _ _ rfl

theorem Sent.single {origin : Option ℕ} {frame : Outbound} {alive : Bool} {records : List Record}
    (sent : Sent codec [(origin, frame)] alive records) :
    encodes codec frame = true ∧ records = [.sent origin frame] ∨
      encodes codec frame = false ∧ records = [] ∨
      alive = false ∧ records = [.failed frame] := by
  cases sent with
  | whole =>
      by_cases encoded : encodes codec frame = true
      · exact .inl ⟨encoded, said_encoded encoded origin []⟩
      · exact .inr (.inl ⟨by simpa using encoded, said_skipped encoded origin []⟩)
  | @cut front rest _ _ split =>
      cases front with
      | nil =>
          rw [List.nil_append, List.cons.injEq, Prod.mk.injEq] at split
          obtain ⟨⟨rfl, rfl⟩, -⟩ := split
          exact .inr (.inr ⟨rfl, rfl⟩)
      | cons first front => simp at split

theorem said_append (front rest : List (Option ℕ × Outbound)) :
    said codec (front ++ rest) = said codec front ++ said codec rest := by
  simp only [said, List.filter_append, List.map_append]

theorem Sent.front {frames : List (Option ℕ × Outbound)} {alive : Bool} {records : List Record}
    (sent : Sent codec frames alive records) :
    ∃ front rest failed, frames = front ++ rest ∧ records = said codec front ++ failed ∧
      ∀ record ∈ failed, ∃ frame, record = .failed frame := by
  cases sent with
  | whole => exact ⟨frames, [], [], by simp, by simp, by simp⟩
  | @cut front rest origin frame split =>
      exact ⟨front, (origin, frame) :: rest, [.failed frame], split, rfl, by simp⟩

theorem Sent.record {frames : List (Option ℕ × Outbound)} {alive : Bool} {records : List Record}
    (sent : Sent codec frames alive records) :
    ∀ record ∈ records, (∃ origin frame, record = .sent origin frame) ∨
      ∃ frame, record = .failed frame := by
  obtain ⟨front, rest, failed, -, rfl, fails⟩ := sent.front
  intro record mem
  rcases List.mem_append.mp mem with said | failing
  · obtain ⟨frame, -, rfl⟩ := List.mem_map.mp said
    exact .inl ⟨_, _, rfl⟩
  · exact .inr (fails record failing)

theorem accepts_sent {Memory : Type*} {monitor : Monitor Memory Record} {memory : Memory}
    (ignores : ∀ memory frame, monitor.permits memory (.failed frame) ∧
      monitor.track memory (.failed frame) = memory)
    {frames : List (Option ℕ × Outbound)} {alive : Bool} {records : List Record}
    (accepts : monitor.Accepts memory (said codec frames))
    (sent : Sent codec frames alive records) : monitor.Accepts memory records := by
  obtain ⟨front, rest, failed, rfl, rfl, fails⟩ := sent.front
  rw [said_append, Monitor.accepts_append] at accepts
  refine Monitor.accepts_append.mpr ⟨accepts.1, Monitor.accepts_of_quiet ?_ ?_⟩
  · intro record mem
    obtain ⟨frame, rfl⟩ := fails record mem
    exact (ignores _ frame).2
  · intro record mem
    obtain ⟨frame, rfl⟩ := fails record mem
    exact (ignores _ frame).1

theorem opening_frames {s : State} {sub : String} {snapshots : List Snapshot} :
    ∀ frame ∈ s.opening config sub snapshots, frame.1 = some s.nextGeneration ∧
      (frame.2 = .subscribed sub ∨
        ∃ seq last topic ts data, frame.2 = .snapshot sub seq last topic ts data) := by
  have bursts : ∀ (snapshots : List Snapshot) (seq : UInt64),
    ∀ frame ∈ burst sub seq snapshots,
      ∃ seq last topic ts data, frame = .snapshot sub seq last topic ts data := by
    intro snapshots
    induction snapshots with
    | nil => simp [burst]
    | cons snapshot snapshots inductionHypothesis =>
        intro seq
        rw [burst, List.forall_mem_cons]
        exact ⟨⟨_, _, _, _, _, rfl⟩, inductionHypothesis (seq + 1)⟩
  intro frame mem
  obtain ⟨inner, inner_mem, rfl⟩ := List.mem_map.mp mem
  refine ⟨rfl, ?_⟩
  rcases List.mem_append.mp inner_mem with ack | snapshot
  · split at ack
    · exact .inl (List.mem_singleton.mp ack)
    · simp at ack
  · exact .inr (bursts snapshots 0 inner snapshot)

def Record.Plain : Record → Prop
  | .sent none (.reply _ _) | .sent none .pong | .failed _ => True
  | _ => False

variable (codec) in
theorem plain_transmit (frame : Outbound) (plain : Record.Plain (.sent none frame))
    (sends : List Bool) :
    ∀ record ∈ (transmit codec none frame sends).records, record.Plain := by
  rcases transmit_cases codec none frame sends with ⟨-, records⟩ | ⟨-, records⟩
  · rw [records]
    intro record mem
    simp only [said, List.mem_map, List.mem_filter, List.mem_singleton] at mem
    obtain ⟨_, ⟨rfl, -⟩, rfl⟩ := mem
    exact plain
  · rw [records]
    intro record mem
    obtain rfl := List.mem_singleton.mp mem
    trivial

/-- The branches of a step: what it needs, the state after, the records. -/
inductive Took (codec : EnvelopeCodec) (config : SessionConfig) (s : State) :
    Input → State → List Record → Prop
  | plain {input : Input} {greeted closed : Bool} {records : List Record} :
      (∀ record ∈ records, record.Plain) →
      Took codec config s input { s with greeted, closed } records
  | reset {bytes : Bytes} {answer : SessionAnswer} {sends : List Bool} {closed : Bool}
      {records : List Record} :
      (∀ record ∈ records, record.Plain) →
      Took codec config s (.frame bytes answer sends)
        { s with subs := [], cancels := ∅, funnel := [], greeted := true, closed }
        (.reset :: records)
  | accepted {bytes : Bytes} {answer : SessionAnswer} {sends : List Bool} {id : UInt64}
      {topic : String} {records : List Record} :
      codec.decode bytes = .ok (.subscribe id topic) → s.admits config (subKey id) = true →
      answer.subscribe = .ok () →
      Sent codec (s.opening config (subKey id) answer.snapshots) true records →
      Took codec config s (.frame bytes answer sends)
        (s.register (subKey id) answer.snapshots)
        (.accepted (subKey id) s.nextGeneration answer.snapshots.length :: records)
  | interrupted {bytes : Bytes} {answer : SessionAnswer} {sends : List Bool} {id : UInt64}
      {topic : String} {records : List Record} :
      codec.decode bytes = .ok (.subscribe id topic) → s.admits config (subKey id) = true →
      answer.subscribe = .ok () →
      Sent codec (s.opening config (subKey id) answer.snapshots) false records →
      Took codec config s (.frame bytes answer sends) (s.stay false)
        (.accepted (subKey id) s.nextGeneration answer.snapshots.length :: records)
  | unsubscribed {bytes : Bytes} {answer : SessionAnswer} {sends : List Bool} {sub : String}
      {handle : CancelHandle} :
      s.cancels.lookup sub = some handle →
      Took codec config s (.frame bytes answer sends) { s with cancels := s.cancels.erase sub }
        [.ended sub handle.generation]
  | event {sends : List Bool} {queued : Queued} {rest : List Queued} {alive : Bool}
      {records : List Record} :
      s.funnel = queued :: rest →
      Sent codec [(some queued.origin, queued.event.frame)] alive records →
      Took codec config s (.event sends) ({ s with funnel := rest }.stay alive) records
  | foreign {index : ℕ} {sends : List Bool} {pump : Pump} {exhausted : Bool} :
      s.subs[index]? = some pump → pump.ended = some exhausted → pump.owns s.cancels = false →
      Took codec config s (.drained index sends) { s with subs := s.subs.eraseIdx index }
        [.drained pump.subId pump.generation exhausted]
  | pruned {index : ℕ} {sends : List Bool} {pump : Pump} :
      s.subs[index]? = some pump → pump.ended = some false → pump.owns s.cancels = true →
      Took codec config s (.drained index sends)
        { s with subs := s.subs.eraseIdx index, cancels := s.cancels.erase pump.subId }
        [.drained pump.subId pump.generation false, .ended pump.subId pump.generation]
  | lastWord {index : ℕ} {sends : List Bool} {pump : Pump} {flush reply : List Record} :
      s.subs[index]? = some pump → pump.ended = some true → pump.owns s.cancels = true →
      Sent codec (flushed s.funnel) true flush →
      (reply = [] ∧ parseU64 pump.subId = none ∨
        ∃ id alive, parseU64 pump.subId = some id ∧
          Sent codec [(some pump.generation, .reply id (.error .internal))] alive reply) →
      Took codec config s (.drained index sends)
        { s with
          subs := s.subs.eraseIdx index, cancels := s.cancels.erase pump.subId, funnel := [],
          closed := false }
        (.drained pump.subId pump.generation true :: .ended pump.subId pump.generation ::
          (flush ++ reply))
  | silenced {index : ℕ} {sends : List Bool} {pump : Pump} {flush : List Record} :
      s.subs[index]? = some pump → pump.ended = some true → pump.owns s.cancels = true →
      Sent codec (flushed s.funnel) false flush →
      Took codec config s (.drained index sends)
        { s with
          subs := s.subs.eraseIdx index, cancels := s.cancels.erase pump.subId, funnel := [],
          closed := true }
        (.drained pump.subId pump.generation true :: .ended pump.subId pump.generation :: flush)
  | queued {index : ℕ} {pump : Pump} {update : SubUpdate} :
      s.subs[index]? = some pump → pump.ended = none → pump.cancelled s.cancels = false →
      s.funnel.length < eventBuffer →
      Took codec config s (.update index update)
        { s with
          subs := s.subs.set index { pump with seq := pump.seq + (update.skipped + 1) },
          funnel := s.funnel ++ [⟨pump.generation, pump.numbered update⟩] }
        [.pulled pump.generation update, .queued pump.generation (pump.numbered update)]
  | overflowed {index : ℕ} {pump : Pump} {update : SubUpdate} :
      s.subs[index]? = some pump → pump.ended = none → pump.cancelled s.cancels = false →
      eventBuffer ≤ s.funnel.length →
      Took codec config s (.update index update)
        { s with subs := s.subs.set index { pump with seq := pump.seq + (update.skipped + 1) } }
        [.pulled pump.generation update]
  | finished {index : ℕ} {pump : Pump} :
      s.subs[index]? = some pump → pump.ended = none →
      Took codec config s (.finish index)
        { s with
          subs := s.subs.set index { pump with ended := some !pump.cancelled s.cancels } } []

variable (codec config) in
theorem took_onRequest (s : State) {bytes : Bytes} (id : UInt64) (answer : SessionAnswer)
    (sends : List Bool) :
    Took codec config s (.frame bytes answer sends) (s.onRequest codec id answer sends).1
      (s.onRequest codec id answer sends).2 := by
  have answered := plain_transmit codec (.reply id answer.call) trivial sends
  cases again : answer.startsSession && s.greeted with
  | true =>
      have greets : answer.startsSession = true ∧ s.greeted = true := by simpa using again
      simp only [State.onRequest, greets, State.stay]
      exact .reset answered
  | false =>
      simp only [State.onRequest, again, State.stay, Bool.false_eq_true, if_false]
      exact .plain answered

theorem took_onSubscribe (s : State) {bytes : Bytes} {id : UInt64} {topic : String}
    (decoded : codec.decode bytes = .ok (.subscribe id topic)) (answer : SessionAnswer)
    (sends : List Bool) :
    Took codec config s (.frame bytes answer sends) (s.onSubscribe codec config id answer sends).1
      (s.onSubscribe codec config id answer sends).2 := by
  have refused : ∀ err, Took codec config s (.frame bytes answer sends) s
      (sendReplyErr codec none id err sends) :=
    fun err => .plain (plain_transmit codec (.reply id (.error err)) trivial sends)
  unfold State.onSubscribe
  split
  · rename_i admitted
    split
    · rename_i opened
      have sending := sent_transmitAll codec
        (s.opening config (subKey id) answer.snapshots) sends
      unfold State.accept
      cases alive : (transmitAll codec
        (s.opening config (subKey id) answer.snapshots) sends).alive with
      | true =>
          rw [alive] at sending
          simp only [if_true, alive]
          exact .accepted decoded admitted opened sending
      | false =>
          rw [alive] at sending
          simp only [Bool.false_eq_true, if_false, alive]
          exact .interrupted decoded admitted opened sending
    · exact refused _
  · exact refused _

variable (codec config) in
theorem took_onFrame (s : State) (bytes : Bytes) (answer : SessionAnswer) (sends : List Bool) :
    Took codec config s (.frame bytes answer sends) (s.onFrame codec config bytes answer sends).1
      (s.onFrame codec config bytes answer sends).2 := by
  have nothing : Took codec config s (.frame bytes answer sends) s [] := .plain (by simp)
  unfold State.onFrame
  split
  · exact nothing
  · exact took_onRequest codec config s _ answer sends
  · rename_i decoded
    exact took_onSubscribe s decoded answer sends
  · rename_i sub _
    unfold State.onUnsubscribe
    split
    · rename_i found
      exact .unsubscribed found
    · exact nothing
  · exact nothing
  · exact .plain (plain_transmit codec .pong trivial sends)

variable (codec config) in
theorem took_onDrained (s : State) {index : ℕ} {pump : Pump} {exhausted : Bool}
    (found : s.subs[index]? = some pump) (ended : pump.ended = some exhausted)
    (sends : List Bool) :
    Took codec config s (.drained index sends)
      (s.onDrained codec index pump exhausted sends).1
      (s.onDrained codec index pump exhausted sends).2 := by
  unfold State.onDrained
  cases own : pump.owns s.cancels with
  | false =>
      simp only [Bool.false_eq_true, if_false]
      exact .foreign found ended own
  | true =>
      cases exhausted with
      | false =>
          simp only [Bool.false_eq_true, if_false, if_true]
          exact .pruned found ended own
      | true =>
          have flush := sent_transmitAll codec (flushed s.funnel) sends
          simp only [State.onExhausted, State.stay, if_true]
          cases alive : (transmitAll codec (flushed s.funnel) sends).alive with
          | false =>
              rw [alive] at flush
              simp only [Bool.false_eq_true, if_false, List.append_nil]
              exact .silenced found ended own flush
          | true =>
              rw [alive] at flush
              simp only [if_true, Bool.not_true]
              refine .lastWord found ended own flush ?_
              split
              · rename_i id parsed
                exact .inr ⟨id, _, parsed, sent_transmit codec _ _ _⟩
              · rename_i parsed
                exact .inl ⟨rfl, parsed⟩

theorem took_of_step {s after : State} {input : Input} {emitted : List Record}
    (stepped : step codec config s input = some (after, emitted)) :
    s.closed = false ∧ Took codec config s input after emitted := by
  unfold step at stepped
  split at stepped
  · simp at stepped
  · rename_i isOpen
    refine ⟨by simpa using isOpen, ?_⟩
    cases input with
    | closed =>
        simp only [Option.some.injEq, Prod.mk.injEq] at stepped
        obtain ⟨rfl, rfl⟩ := stepped
        exact .plain (by simp)
    | frame bytes answer sends =>
        simp only [Option.some.injEq] at stepped
        have took := took_onFrame codec config s bytes answer sends
        rwa [stepped] at took
    | event sends =>
        cases funnel : s.funnel with
        | nil => simp [funnel] at stepped
        | cons queued rest =>
            simp only [funnel, Option.some.injEq, State.onEvent, Prod.mk.injEq] at stepped
            obtain ⟨rfl, rfl⟩ := stepped
            exact .event funnel (sent_transmit codec _ _ _)
    | drained index sends =>
        simp only [Option.bind_eq_bind, Option.bind_eq_some_iff, Option.some.injEq] at stepped
        obtain ⟨pump, found, exhausted, ended, outcome⟩ := stepped
        have took := took_onDrained codec config s found ended sends
        rwa [outcome] at took
    | update index update =>
        simp only [Option.bind_eq_bind, Option.bind_eq_some_iff] at stepped
        obtain ⟨pump, found, outcome⟩ := stepped
        split at outcome
        · rename_i running
          simp only [Bool.and_eq_true, Option.isNone_iff_eq_none, Bool.not_eq_true'] at running
          simp only [Option.some.injEq, State.onUpdate] at outcome
          split at outcome
          · rename_i room
            simp only [Prod.mk.injEq] at outcome
            obtain ⟨rfl, rfl⟩ := outcome
            exact .queued found running.1 running.2 room
          · rename_i full
            simp only [Prod.mk.injEq] at outcome
            obtain ⟨rfl, rfl⟩ := outcome
            exact .overflowed found running.1 running.2 (Nat.le_of_not_lt full)
        · simp at outcome
    | finish index =>
        simp only [Option.bind_eq_bind, Option.bind_eq_some_iff] at stepped
        obtain ⟨pump, found, outcome⟩ := stepped
        split at outcome
        · rename_i running
          simp only [Option.some.injEq, State.onFinish, Prod.mk.injEq] at outcome
          obtain ⟨rfl, rfl⟩ := outcome
          exact .finished found (by simpa using running)
        · simp at outcome

end AimDb.Session.Server
