import AimDb.Embassy.TcpPool.Consumed

/-!
# Every run

In every interleaving each socket is in one place, and it is the slot of its own, a future or a
stream that returns it there.
-/

namespace AimDb.Embassy

open Places

variable {Dialer Waker : Type} {N : ℕ} {s after : EmbassyNet Dialer N Waker}
  {events log : List (Event Dialer N Waker)} {i : Fin N}

theorem arm_pending {j : Fin N} {accept : PendingAccept Dialer N Waker}
    (isPending : s.pending i = some accept) : (s.arm j).pending i = some accept := by
  unfold EmbassyNet.arm
  split
  · exact isPending
  next isNone =>
    have differs : i ≠ j := by
      rintro rfl
      rw [isPending] at isNone
      cases isNone
    exact (Function.update_of_ne differs ..).trans isPending

theorem arm_slots (s : EmbassyNet Dialer N Waker) (j : Fin N) : (s.arm j).slots = s.slots := by
  unfold EmbassyNet.arm
  split
  · rfl
  · rfl

theorem armAll_keeps (indices : List (Fin N)) (s : EmbassyNet Dialer N Waker) :
    (indices.foldl EmbassyNet.arm s).slots = s.slots ∧ ∀ i accept, s.pending i = some accept →
      (indices.foldl EmbassyNet.arm s).pending i = some accept := by
  induction indices generalizing s with
  | nil => exact ⟨rfl, fun _ _ isPending => isPending⟩
  | cons j rest inductionHypothesis =>
      obtain ⟨slots, pending⟩ := inductionHypothesis (s.arm j)
      exact ⟨slots.trans (arm_slots s j), fun i accept isPending =>
        pending i accept (arm_pending isPending)⟩

theorem Steady.armed {armed : EmbassyNet Dialer N Waker} (steady : Steady i armed after events)
    (slots : armed.slots = s.slots)
    (pending : ∀ accept, s.pending i = some accept → armed.pending i = some accept) :
    Steady i s after events where
  woken id waker isParked isEmpty :=
    steady.woken id waker (pending _ isParked) (by rw [slots, isEmpty])
  stored id stage isPending := steady.stored id stage (pending _ isPending)

variable [DecidableEq Dialer]

theorem Kept.looped_pollAccept (kept : Kept s none) (polled : Bool) (waker : Waker)
    (answer : Fin N → Option Bool) :
    ∃ armed : EmbassyNet Dialer N Waker, armed.slots = s.slots ∧
      (∀ i accept, s.pending i = some accept → armed.pending i = some accept) ∧
      Looped (List.finRange N) armed (s.pollAccept polled waker answer).1
        (s.pollAccept polled waker answer).2 := by
  cases polled with
  | true =>
      exact ⟨{ s with accept := some true }, rfl, fun _ _ isPending => isPending,
        (kept.setAccept _).looped waker answer _⟩
  | false =>
      obtain ⟨slots, pending⟩ := armAll_keeps (List.finRange N) s
      exact ⟨{ (List.finRange N).foldl EmbassyNet.arm s with accept := some true },
        slots, pending, ((kept.armAll _).setAccept _).looped waker answer _⟩

/-- A future of another dial, or a stream, has the socket of the dialer. -/
def HeldElsewhere (s : EmbassyNet Dialer N Waker) (id : ℕ) (dialer : Dialer) : Prop :=
  (∃ other connect, other ≠ id ∧ s.connects other = some connect ∧
      connect.socket = some (.dialer dialer)) ∨
    ∃ other stream, s.streams other = some stream ∧ stream.socket = .dialer dialer

omit [DecidableEq Dialer] in
theorem Kept.heldElsewhere {id : ℕ} {dialer : Dialer} (kept : Kept s none)
    (isConnect : s.connects id = some ⟨dialer, .resolving⟩)
    (isEmpty : (s.slots (.dialer dialer)).socket = none) : HeldElsewhere s id dialer := by
  obtain ⟨place, isHeld, -⟩ := kept.sole (.dialer dialer)
  cases place with
  | none => cases isHeld
  | some place =>
      cases place with
      | slot slot =>
          have homed := kept.slots slot _ isHeld
          rw [← homed] at isHeld
          rw [EmbassyNet.held, EmbassyNet.socketAt, isEmpty] at isHeld
          cases isHeld
      | connect other =>
          obtain ⟨connect, isOther, isSocket⟩ := Option.bind_eq_some_iff.mp isHeld
          refine .inl ⟨other, connect, ?_, isOther, isSocket⟩
          rintro rfl
          rw [isConnect] at isOther
          cases isOther
          cases isSocket
      | pending i =>
          obtain ⟨accept, isPending, isSocket⟩ := Option.bind_eq_some_iff.mp isHeld
          cases kept.pending i accept _ isPending isSocket
      | stream other =>
          obtain ⟨stream, isStream, isSocket⟩ := Option.map_eq_some_iff.mp isHeld
          exact .inr ⟨other, stream, isStream, isSocket⟩

theorem mem_finishConnect (s : EmbassyNet Dialer N Waker) (id : ℕ) (dialer : Dialer)
    (socket : TcpSocket Dialer N) (connected : Option Bool) :
    ∀ event ∈ (s.finishConnect id dialer socket connected).2,
      ¬ event.Answers ∨ ∃ stream, event = .connected id (.ok stream) := by
  intro event mem
  cases connected with
  | none => cases mem
  | some result =>
      cases result with
      | true => exact .inr ⟨s.fresh, List.mem_singleton.mp mem⟩
      | false => exact .inl (silent_release event mem)

theorem mem_pollConnect (s : EmbassyNet Dialer N Waker) (id : ℕ) (connect : Connect Dialer N)
    (resolved connected : Option Bool) :
    ∀ event ∈ (s.pollConnect id connect resolved connected).2,
      ¬ event.Answers ∨ ∃ result, event = .connected id result ∧ (result = .error .busy →
        connect.stage = .resolving ∧ (s.slots (.dialer connect.dialer)).socket = none) := by
  have finished : ∀ (taken : EmbassyNet Dialer N Waker) (dialer : Dialer)
      (socket : TcpSocket Dialer N),
      ∀ event ∈ (taken.finishConnect id dialer socket connected).2,
        ¬ event.Answers ∨ ∃ result, event = .connected id result ∧ (result = .error .busy →
          connect.stage = .resolving ∧ (s.slots (.dialer connect.dialer)).socket = none) := by
    intro taken dialer socket event mem
    rcases mem_finishConnect taken id dialer socket connected event mem with
      silent | ⟨stream, rfl⟩
    · exact .inl silent
    · exact .inr ⟨_, rfl, by rintro ⟨⟩⟩
  intro event mem
  obtain ⟨dialer, stage⟩ := connect
  cases stage with
  | resolving =>
      cases resolved with
      | none => cases mem
      | some found =>
          cases found with
          | false => exact .inr ⟨_, List.mem_singleton.mp mem, by rintro ⟨⟩⟩
          | true =>
              dsimp only [EmbassyNet.pollConnect, EmbassyNet.startConnect] at mem
              split at mem
              next isEmpty =>
                exact .inr ⟨_, List.mem_singleton.mp mem, fun _ => ⟨rfl, isEmpty⟩⟩
              next socket _ =>
                rcases List.mem_cons.mp mem with rfl | mem
                · exact .inl not_false
                · exact finished _ _ _ event mem
  | connecting guard => exact finished _ _ _ event mem
  | yielding => exact .inr ⟨_, List.mem_singleton.mp mem, by rintro ⟨⟩⟩

theorem mem_dropConnect (s : EmbassyNet Dialer N Waker) (id : ℕ) (connect : Connect Dialer N) :
    ∀ event ∈ (s.dropConnect id connect).2, ¬ event.Answers := by
  intro event mem
  obtain ⟨dialer, stage⟩ := connect
  cases stage with
  | resolving => cases mem
  | yielding => cases mem
  | connecting guard => exact silent_release event mem

/-- What the pool promises of a step. -/
structure Served (s : EmbassyNet Dialer N Waker) (after : EmbassyNet Dialer N Waker)
    (events : List (Event Dialer N Waker)) : Prop where
  steady : ∀ i, Steady i s after events
  one : ∀ i j first second, .accepted i first ∈ events →
    .accepted j second ∈ events → i = j
  busy : ∀ id, .connected id (.error .busy) ∈ events →
    ∃ connect, s.connects id = some connect ∧ HeldElsewhere s id connect.dialer

omit [DecidableEq Dialer] in
theorem served_of_steady (steady : ∀ i, Steady i s after events)
    (answers : ∀ event ∈ events, ¬ event.Answers ∨
      ∃ id result, event = .connected id result ∧ (result = .error .busy →
        ∃ connect, s.connects id = some connect ∧ HeldElsewhere s id connect.dialer)) :
    Served s after events where
  steady := steady
  one i j first second isFirst _ := by
    rcases answers _ isFirst with silent | ⟨id, result, impossible, -⟩
    · exact absurd trivial silent
    · cases impossible
  busy id mem := by
    rcases answers _ mem with silent | ⟨other, result, same, busy⟩
    · exact absurd trivial silent
    · cases same
      exact busy rfl

omit [DecidableEq Dialer] in
theorem served_silent (kept : Kept s none) (pending : after.pending = s.pending)
    (slots : after.slots = s.slots) : Served s after [] := by
  apply served_of_steady
  · intro i
    have untouched : Untouched i s after [] :=
      untouched_none pending slots fun _ => List.not_mem_nil
    exact untouched.steady kept
  · exact fun _ mem => absurd mem List.not_mem_nil

theorem Kept.served {action : Action Dialer N Waker} (kept : Kept s none)
    (stepped : Embassy.step s action = some (after, events)) : Served s after events := by
  cases action with
  | connect dialer =>
      cases stepped
      exact served_silent kept rfl rfl
  | pollConnect id resolved connected =>
      obtain ⟨connect, isConnect, outcome⟩ := Option.map_eq_some_iff.mp stepped
      have answers := mem_pollConnect s id connect resolved connected
      rw [outcome] at answers
      apply served_of_steady
      · intro i
        have untouched := kept.untouched_pollConnect (i := i) isConnect resolved connected
        rw [outcome] at untouched
        exact untouched.steady kept
      · intro event mem
        rcases answers event mem with silent | ⟨result, isAnswer, busy⟩
        · exact .inl silent
        · refine .inr ⟨id, result, isAnswer, fun isBusy => ⟨connect, isConnect, ?_⟩⟩
          obtain ⟨resolving, isEmpty⟩ := busy isBusy
          obtain ⟨dialer, stage⟩ := connect
          cases resolving
          exact kept.heldElsewhere isConnect isEmpty
  | dropConnect id =>
      obtain ⟨connect, isConnect, outcome⟩ := Option.map_eq_some_iff.mp stepped
      have answers := mem_dropConnect s id connect
      rw [outcome] at answers
      apply served_of_steady
      · intro i
        have untouched := kept.untouched_dropConnect (i := i) isConnect
        rw [outcome] at untouched
        exact untouched.steady kept
      · exact fun event mem => .inl (answers event mem)
  | accept =>
      rw [Embassy.step] at stepped
      split at stepped
      · cases stepped
      · cases stepped
        exact served_silent kept rfl rfl
  | pollAccept waker answer =>
      obtain ⟨polled, -, outcome⟩ := Option.map_eq_some_iff.mp stepped
      obtain ⟨armed, slots, pending, looped⟩ := kept.looped_pollAccept polled waker answer
      rw [outcome] at looped
      exact ⟨fun i => (looped.steady (List.nodup_finRange N) i).armed slots (pending i),
        looped.one, fun id mem => absurd mem (looped.dials id _)⟩
  | dropAccept =>
      obtain ⟨polled, -, outcome⟩ := Option.map_eq_some_iff.mp stepped
      cases outcome
      exact served_silent kept rfl rfl
  | dropStream id =>
      obtain ⟨stream, isStream, outcome⟩ := Option.map_eq_some_iff.mp stepped
      have silent : ∀ event ∈ (EmbassyNet.release
          { s with streams := Function.update s.streams id none } stream.recycler
          stream.socket).2, ¬ event.Answers := silent_release
      rw [outcome] at silent
      apply served_of_steady
      · intro i
        have steady := kept.steady_dropStream (i := i) isStream
        rw [outcome] at steady
        exact steady
      · exact fun event mem => .inl (silent event mem)

def EmbassyNet.home (s : EmbassyNet Dialer N Waker) : Place Dialer N → Option (SlotId Dialer N)
  | .slot slot => some slot
  | .connect id => (s.connects id).map fun connect => .dialer connect.dialer
  | .pending i => some (.listener i)
  | .stream id => (s.streams id).map EmbassyTcpStream.recycler

omit [DecidableEq Dialer] in
theorem Kept.homed (kept : Kept s none) {place : Place Dialer N} {socket : TcpSocket Dialer N}
    (isHeld : s.socketAt place = some socket) : s.home place = some socket := by
  cases place with
  | slot slot => exact congrArg some (kept.slots slot socket isHeld).symm
  | connect id =>
      obtain ⟨connect, isConnect, isSocket⟩ := Option.bind_eq_some_iff.mp isHeld
      rw [EmbassyNet.home, isConnect, kept.connects id connect socket isConnect isSocket]
      rfl
  | pending i =>
      obtain ⟨accept, isPending, isSocket⟩ := Option.bind_eq_some_iff.mp isHeld
      rw [EmbassyNet.home, kept.pending i accept socket isPending isSocket]
  | stream id =>
      obtain ⟨stream, isStream, rfl⟩ := Option.map_eq_some_iff.mp isHeld
      rw [EmbassyNet.home, isStream, kept.streams id stream isStream]
      rfl

structure Conserved (s : EmbassyNet Dialer N Waker) (log : List (Event Dialer N Waker)) :
    Prop where
  sole : Sole s.socketAt
  homed : ∀ place socket, s.socketAt place = some socket → s.home place = some socket
  unoccupied : Unoccupied log
  parked : ∀ i, Parked (s.slots (.listener i)) (s.pending i)

theorem kept_of_reachable (reached : Transition.Reachable step {} s log) :
    Kept s none ∧ Unoccupied log := by
  refine reached.invariant (fun s log => Kept s none ∧ Unoccupied log)
    ⟨kept_start, fun _ => List.not_mem_nil⟩
      fun {s log input after events} _ _ stepped before => ?_
  obtain ⟨kept, unoccupied⟩ := before.1.step stepped
  refine ⟨kept, fun slot mem => ?_⟩
  rcases List.mem_append.mp mem with mem | mem
  · exact before.2 slot mem
  · exact unoccupied slot mem

/-- The pool keeps its sockets in every run, and serves every step. -/
theorem conserved_of_reachable (reached : Transition.Reachable step {} s log) :
    Conserved s log ∧ ∀ action after events, step s action = some (after, events) →
      Served s after events := by
  obtain ⟨kept, unoccupied⟩ := kept_of_reachable reached
  exact ⟨⟨kept.sole.inside rfl fun _ => rfl, fun _ _ => kept.homed, unoccupied, kept.parked⟩,
    fun _ _ _ => kept.served⟩

/-- A dial is refused while another has the socket, and an accept waits for a stream. -/
theorem conserved_of_reachable_refused : ∃ (s : EmbassyNet Unit 1 ℕ) (log : _),
    Transition.Reachable step {} s log ∧
    (Conserved s log ∧ ∀ action after events, step s action = some (after, events) →
      Served s after events) ∧
    log.length = 7 ∧ (s.pending 0).isSome = true ∧ (s.connects 1).isSome = false := by
  obtain ⟨outcome, same, held⟩ := Option.any_eq_true .. |>.mp
    (show (Transition.replay step ({} : EmbassyNet Unit 1 ℕ)
      [.connect (), .pollConnect 0 (some true) none, .connect (), .pollConnect 1 (some true) none,
        .dropConnect 0, .accept, .pollAccept 7 (fun _ => some true), .accept,
        .pollAccept 8 (fun _ => none), .dropAccept, .dropStream 3]).any
      (fun outcome => decide (outcome.2.length = 7 ∧ (outcome.1.pending 0).isSome = true ∧
        (outcome.1.connects 1).isSome = false)) = true by decide)
  have reached := Transition.reachable_of_replay same
  exact ⟨outcome.1, outcome.2, reached, conserved_of_reachable reached, of_decide_eq_true held⟩

end AimDb.Embassy
