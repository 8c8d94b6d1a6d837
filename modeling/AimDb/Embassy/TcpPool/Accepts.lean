import AimDb.Embassy.TcpPool.Conserved

/-!
# Accepts

A poll of `accept` goes through the stored accepts.  The one that is ready is consumed, the others
wait on as they did.
-/

namespace AimDb.Embassy

open Places

variable {Dialer Waker : Type} {N : ℕ} {s : EmbassyNet Dialer N Waker}

theorem Kept.arm (kept : Kept s none) (i : Fin N) : Kept (s.arm i) none := by
  unfold EmbassyNet.arm
  cases isPending : s.pending i with
  | some accept => exact kept
  | none =>
      have later := kept.setFresh (Nat.le_succ s.fresh)
      have armed : Kept ({ s with fresh := s.fresh + 1 }.setPending i (some ⟨s.fresh, .armed⟩))
          ((s.pending i).bind PendingAccept.socket) := by
        apply later.setPending rfl
        · rintro _ _ ⟨⟩ ⟨⟩
        · rintro _ _ ⟨⟩
      rwa [isPending] at armed

theorem Kept.armAll (kept : Kept s none) (indices : List (Fin N)) :
    Kept (indices.foldl EmbassyNet.arm s) none := by
  induction indices generalizing s with
  | nil => exact kept
  | cons i rest inductionHypothesis => exact inductionHypothesis (kept.arm i)

variable [DecidableEq Dialer]

theorem Kept.finishAccept {i : Fin N} {id : ℕ} {socket : TcpSocket Dialer N} (kept : Kept s none)
    (isPending : s.pending i = some ⟨id, .listening socket⟩) (answer : Option Bool) :
    Kept (s.finishAccept i socket answer).1 none ∧
      Unoccupied (s.finishAccept i socket answer).2.1 := by
  have homed := kept.pending i _ socket isPending rfl
  subst homed
  have moved : Kept (s.setPending i none) ((s.pending i).bind PendingAccept.socket) := by
    apply kept.setPending rfl
    · rintro _ _ ⟨⟩
    · rintro _ _ ⟨⟩
  rw [isPending] at moved
  have moved : Kept (s.setPending i none) (some (.listener i)) := moved
  cases answer with
  | none => exact ⟨kept, fun _ => List.not_mem_nil⟩
  | some result =>
      cases result with
      | true => exact ⟨moved.stream rfl, fun _ mem => by cases List.mem_singleton.mp mem⟩
      | false =>
          refine ⟨moved.release.1, fun slot mem => ?_⟩
          rcases List.mem_append.mp mem with mem | mem
          · exact moved.unoccupied slot mem
          · cases List.mem_singleton.mp mem

section Stored

variable {i : Fin N} {id : ℕ} {stage : Accepting Dialer N Waker}

omit [DecidableEq Dialer] in
theorem Kept.rearm (kept : Kept s none) (isPending : s.pending i = some ⟨id, stage⟩)
    (idle : PendingAccept.socket ⟨id, stage⟩ = none) :
    Kept (s.setPending i (some ⟨id, .armed⟩)) none := by
  have armed : Kept (s.setPending i (some ⟨id, .armed⟩))
      ((s.pending i).bind PendingAccept.socket) := by
    apply kept.setPending rfl
    · rintro _ _ ⟨⟩ ⟨⟩
    · rintro _ _ ⟨⟩
  rwa [isPending, Option.bind_some, idle] at armed

theorem Kept.resume {value : TcpSocketSlot Dialer N Waker}
    {accept : PendingAccept Dialer N Waker}
    (kept : Kept ((s.setPending i (some ⟨id, .armed⟩)).setSlot
      (.listener i) value) accept.socket)
    (homed : ∀ socket, accept.socket = some socket → socket = .listener i)
    (parked : Parked value (some accept)) :
    Kept ((s.setSlot (.listener i) value).setPending i (some accept)) none := by
  have same : ((s.setPending i (some ⟨id, .armed⟩)).setSlot (.listener i) value).setPending i
      (some accept) = (s.setSlot (.listener i) value).setPending i (some accept) := by
    simp only [EmbassyNet.setPending, EmbassyNet.setSlot, Function.update_idem]
  have armed : (((s.setPending i (some ⟨id, .armed⟩)).setSlot
    (.listener i) value).pending i).bind
      PendingAccept.socket = none := by
    change ((Function.update s.pending i (some ⟨id, .armed⟩)) i).bind _ = _
    rw [Function.update_self]
    rfl
  rw [← same, ← armed]
  apply kept.setPending rfl
  · rintro _ socket ⟨⟩ isSocket
    exact homed socket isSocket
  · rw [EmbassyNet.setSlot_slots, Function.update_self]
    exact parked

theorem Kept.guard {socket : TcpSocket Dialer N} (kept : Kept s none)
    (isPending : s.pending i = some ⟨id, stage⟩)
    (idle : PendingAccept.socket ⟨id, stage⟩ = none)
    (isSocket : (s.slots (.listener i)).socket = some socket) :
    Kept ((s.take (.listener i)).setPending i (some ⟨id, .listening socket⟩)) none := by
  apply Kept.resume
  · apply (kept.rearm isPending idle).take isSocket
    rintro _ _ _ ⟨⟩ isParked
    rw [EmbassyNet.setPending_pending, Function.update_self] at isParked
    cases isParked
  · rintro _ ⟨⟩
    exact kept.slots _ _ isSocket
  · rintro _ _ ⟨⟩

theorem Kept.park (kept : Kept s none) (isPending : s.pending i = some ⟨id, stage⟩)
    (idle : PendingAccept.socket ⟨id, stage⟩ = none)
    (isEmpty : (s.slots (.listener i)).socket = none) (waker : Waker) :
    Kept ((s.setSlot (.listener i) ⟨none, some waker⟩).setPending i
      (some ⟨id, .parked waker⟩))
      none := by
  apply Kept.resume
  · have rearmed := kept.rearm isPending idle
    have written : Kept ((s.setPending i (some ⟨id, .armed⟩)).setSlot (.listener i)
        ⟨none, some waker⟩) (s.slots (.listener i)).socket := by
      apply rearmed.setSlot rfl
      · rintro _ ⟨⟩
      · rintro _ ⟨⟩ _ _ isParked
        rw [EmbassyNet.setPending_pending, Function.update_self] at isParked
        cases isParked
    rwa [isEmpty] at written
  · rintro _ ⟨⟩
  · rintro _ _ ⟨⟩ _
    rfl

end Stored

theorem Kept.pollPending (kept : Kept s none) (waker : Waker) (answer : Fin N → Option Bool)
    (i : Fin N) : Kept (s.pollPending waker answer i).1 none ∧
      Unoccupied (s.pollPending waker answer i).2.1 := by
  have started : ∀ {id stage}, s.pending i = some ⟨id, stage⟩ →
      PendingAccept.socket (⟨id, stage⟩ : PendingAccept Dialer N Waker) = none → ∀ {socket},
      (s.slots (.listener i)).socket = some socket →
      Kept (((s.take (.listener i)).setPending i (some ⟨id, .listening socket⟩)).finishAccept i
          socket (answer i)).1 none ∧
        Unoccupied (.aborted socket ::
          (((s.take (.listener i)).setPending i (some ⟨id, .listening socket⟩)).finishAccept i
            socket (answer i)).2.1) := by
    intro id stage isPending idle socket isSocket
    obtain ⟨finished, unoccupied⟩ := (kept.guard isPending idle isSocket).finishAccept
      (Function.update_self ..) (answer i)
    refine ⟨finished, fun slot mem => ?_⟩
    rcases List.mem_cons.mp mem with isAborted | mem
    · cases isAborted
    · exact unoccupied slot mem
  unfold EmbassyNet.pollPending
  split
  · exact ⟨kept, fun _ => List.not_mem_nil⟩
  next id guard isPending => exact kept.finishAccept isPending (answer i)
  next id stage waiting isPending =>
    have idle : PendingAccept.socket (⟨id, stage⟩ : PendingAccept Dialer N Waker) = none := by
      cases stage with
      | armed => rfl
      | parked waker => rfl
      | listening guard => exact absurd rfl (waiting guard)
    split
    next isEmpty => exact ⟨kept.park isPending idle isEmpty waker, fun _ => List.not_mem_nil⟩
    next socket isSocket => exact started isPending idle isSocket

theorem Kept.pollAll (kept : Kept s none) (waker : Waker) (answer : Fin N → Option Bool)
    (indices : List (Fin N)) : Kept (EmbassyNet.pollAll waker answer indices s).1 none ∧
      Unoccupied (EmbassyNet.pollAll waker answer indices s).2 := by
  induction indices generalizing s with
  | nil => exact ⟨kept, fun _ => List.not_mem_nil⟩
  | cons i rest inductionHypothesis =>
      obtain ⟨polled, unoccupied⟩ := kept.pollPending waker answer i
      rw [EmbassyNet.pollAll]
      split
      next after events returned =>
        rw [returned] at polled unoccupied
        exact ⟨polled.setAccept none, unoccupied⟩
      next after events waits =>
        rw [waits] at polled unoccupied
        obtain ⟨last, more⟩ := inductionHypothesis polled
        refine ⟨last, fun slot mem => ?_⟩
        rcases List.mem_append.mp mem with mem | mem
        · exact unoccupied slot mem
        · exact more slot mem

theorem Kept.pollAccept (kept : Kept s none) (polled : Bool) (waker : Waker)
    (answer : Fin N → Option Bool) : Kept (s.pollAccept polled waker answer).1 none ∧
      Unoccupied (s.pollAccept polled waker answer).2 := by
  apply Kept.pollAll
  cases polled with
  | true => exact kept.setAccept _
  | false => exact (kept.armAll _).setAccept _

theorem Kept.dropStream {id : ℕ} {stream : EmbassyTcpStream Dialer N} (kept : Kept s none)
    (isStream : s.streams id = some stream) :
    Kept (EmbassyNet.release { s with streams := Function.update s.streams id none }
        stream.recycler stream.socket).1 none ∧
      Unoccupied (EmbassyNet.release { s with streams := Function.update s.streams id none }
        stream.recycler stream.socket).2 := by
  have dropped : Kept { s with streams := Function.update s.streams id none }
      ((s.streams id).map EmbassyTcpStream.socket) := by
    apply kept.setStream rfl _ (Nat.le_refl _) (absurd rfl)
    rintro _ ⟨⟩
  rw [isStream, Option.map_some, kept.streams id stream isStream] at dropped
  rw [kept.streams id stream isStream]
  exact ⟨dropped.release.1, dropped.unoccupied⟩

theorem Kept.step {action : Action Dialer N Waker} {after : EmbassyNet Dialer N Waker}
    {events : List (Event Dialer N Waker)} (kept : Kept s none)
    (stepped : step s action = some (after, events)) : Kept after none ∧ Unoccupied events := by
  cases action with
  | connect dialer =>
      cases stepped
      have later := kept.setFresh (Nat.le_succ s.fresh)
      have made : Kept ({ s with fresh := s.fresh + 1 }.setConnect s.fresh
          (some ⟨dialer, .resolving⟩)) ((s.connects s.fresh).bind Connect.socket) := by
        apply later.setConnect rfl
        · rintro _ _ ⟨⟩ ⟨⟩
        · exact fun _ => Nat.lt_succ_self _
      rw [(kept.fresh s.fresh (Nat.le_refl _)).1] at made
      exact ⟨made, fun _ => List.not_mem_nil⟩
  | pollConnect id resolved connected =>
      obtain ⟨connect, isConnect, outcome⟩ := Option.map_eq_some_iff.mp stepped
      have polled := kept.pollConnect isConnect resolved connected
      rwa [outcome] at polled
  | dropConnect id =>
      obtain ⟨connect, isConnect, outcome⟩ := Option.map_eq_some_iff.mp stepped
      have dropped := kept.dropConnect isConnect
      rwa [outcome] at dropped
  | accept =>
      rw [Embassy.step] at stepped
      split at stepped
      · cases stepped
      · cases stepped
        exact ⟨kept.setAccept _, fun _ => List.not_mem_nil⟩
  | pollAccept waker answer =>
      obtain ⟨polled, -, outcome⟩ := Option.map_eq_some_iff.mp stepped
      have accepted := kept.pollAccept polled waker answer
      rwa [outcome] at accepted
  | dropAccept =>
      obtain ⟨polled, -, outcome⟩ := Option.map_eq_some_iff.mp stepped
      cases outcome
      exact ⟨kept.setAccept _, fun _ => List.not_mem_nil⟩
  | dropStream id =>
      obtain ⟨stream, isStream, outcome⟩ := Option.map_eq_some_iff.mp stepped
      have dropped := kept.dropStream isStream
      rwa [outcome] at dropped

end AimDb.Embassy
