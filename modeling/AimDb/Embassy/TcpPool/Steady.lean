import AimDb.Embassy.TcpPool.Accepts

/-!
# What a step leaves alone

An accept consumes the slot that completed and no other; a stored accept that waits for its socket
is woken when it returns; a dial is refused only while its socket is held elsewhere.
-/

namespace AimDb.Embassy

open Places

variable {Dialer Waker : Type} {N : ℕ} {s middle after : EmbassyNet Dialer N Waker}
  {events more : List (Event Dialer N Waker)} {i j : Fin N}

structure Steady (i : Fin N) (s after : EmbassyNet Dialer N Waker)
    (events : List (Event Dialer N Waker)) : Prop where
  woken : ∀ id waker, s.pending i = some ⟨id, .parked waker⟩ →
    (s.slots (.listener i)).socket = none → (after.slots (.listener i)).socket ≠ none →
      .woken waker ∈ events
  /-- It is consumed, or stays the same future, and its socket stays in `LISTEN`. -/
  stored : ∀ id stage, s.pending i = some ⟨id, stage⟩ →
    (∃ result, .accepted i result ∈ events) ∧ after.pending i = none ∨
      ∃ later, after.pending i = some ⟨id, later⟩ ∧ ∀ guard, stage = .listening guard →
        later = .listening guard ∧ .aborted guard ∉ events

/-- Nothing happens to a stored accept and its slot. -/
structure Untouched (i : Fin N) (s after : EmbassyNet Dialer N Waker)
    (events : List (Event Dialer N Waker)) : Prop where
  pending : after.pending i = s.pending i
  slot : after.slots (.listener i) = s.slots (.listener i)
  unaborted : .aborted (.listener i) ∉ events

theorem Untouched.rfl : Untouched i s s [] := ⟨by rfl, by rfl, List.not_mem_nil⟩

theorem Untouched.steady (untouched : Untouched i s after events) (kept : Kept s none) :
    Steady i s after events where
  woken id waker _ isEmpty filled := by
    rw [untouched.slot] at filled
    exact absurd isEmpty filled
  stored id stage isPending := by
    refine .inr ⟨stage, untouched.pending.trans isPending, ?_⟩
    rintro guard rfl
    have homed := kept.pending i _ guard isPending (by rfl)
    refine ⟨by rfl, ?_⟩
    rw [homed]
    exact untouched.unaborted

/-- What happens before does not matter to an accept that is not touched by it. -/
theorem Untouched.trans_steady (first : Untouched i s middle events)
    (second : Steady i middle after more) (kept : Kept s none) :
    Steady i s after (events ++ more) where
  woken id waker isParked isEmpty filled := by
    rw [← first.pending] at isParked
    rw [← first.slot] at isEmpty
    exact List.mem_append_right _ (second.woken id waker isParked isEmpty filled)
  stored id stage isPending := by
    have isThen := first.pending.trans isPending
    rcases second.stored id stage isThen with
      ⟨⟨result, mem⟩, gone⟩ | ⟨later, isLater, listens⟩
    · exact .inl ⟨⟨result, List.mem_append_right _ mem⟩, gone⟩
    · refine .inr ⟨later, isLater, ?_⟩
      rintro guard rfl
      obtain ⟨still, unaborted⟩ := listens guard (by rfl)
      refine ⟨still, fun mem => ?_⟩
      rcases List.mem_append.mp mem with mem | mem
      · rw [kept.pending i _ guard isPending (by rfl)] at mem
        exact first.unaborted mem
      · exact unaborted mem

theorem Steady.trans_untouched (first : Steady i s middle events)
    (second : Untouched i middle after more) (kept : Kept s none) :
    Steady i s after (events ++ more) where
  woken id waker isParked isEmpty filled := by
    rw [second.slot] at filled
    exact List.mem_append_left _ (first.woken id waker isParked isEmpty filled)
  stored id stage isPending := by
    rcases first.stored id stage isPending with
      ⟨⟨result, mem⟩, gone⟩ | ⟨later, isLater, listens⟩
    · exact .inl ⟨⟨result, List.mem_append_left _ mem⟩, second.pending.trans gone⟩
    · refine .inr ⟨later, second.pending.trans isLater, ?_⟩
      rintro guard rfl
      obtain ⟨still, unaborted⟩ := listens guard (by rfl)
      refine ⟨still, fun mem => ?_⟩
      rcases List.mem_append.mp mem with mem | mem
      · exact unaborted mem
      · rw [kept.pending i _ guard isPending (by rfl)] at mem
        exact second.unaborted mem

theorem Untouched.trans (first : Untouched i s middle events)
    (second : Untouched i middle after more) : Untouched i s after (events ++ more) where
  pending := second.pending.trans first.pending
  slot := second.slot.trans first.slot
  unaborted mem := (List.mem_append.mp mem).elim first.unaborted second.unaborted

variable [DecidableEq Dialer]

omit [DecidableEq Dialer] in
theorem untouched_none (pending : after.pending = s.pending) (slots : after.slots = s.slots)
    (unaborted : ∀ socket, .aborted socket ∉ events) : Untouched i s after events :=
  ⟨congrFun pending i, congrFun slots _, unaborted _⟩

theorem untouched_take (s : EmbassyNet Dialer N Waker) {slot : SlotId Dialer N}
    (differs : slot ≠ .listener i) : Untouched i s (s.take slot) [] where
  pending := by rfl
  slot := Function.update_of_ne (Ne.symm differs) ..
  unaborted := List.not_mem_nil

theorem mem_release {slot : SlotId Dialer N} {socket : TcpSocket Dialer N}
    {event : Event Dialer N Waker} (mem : event ∈ (s.release slot socket).2) :
    event = .aborted socket ∨ event = .occupied slot ∨ ∃ waker, event = .woken waker := by
  rcases List.mem_cons.mp mem with isAborted | mem
  · exact .inl isAborted
  · rw [EmbassyNet.put] at mem
    rcases List.mem_append.mp mem with mem | mem
    · split at mem
      · exact .inr (.inl (List.mem_singleton.mp mem))
      · cases mem
    · obtain ⟨waker, -, isWoken⟩ := List.mem_map.mp mem
      exact .inr (.inr ⟨waker, isWoken.symm⟩)

theorem untouched_release (s : EmbassyNet Dialer N Waker) {slot : SlotId Dialer N}
    (differs : slot ≠ .listener i) :
    Untouched i s (s.release slot slot).1 (s.release slot slot).2 where
  pending := by rfl
  slot := Function.update_of_ne (Ne.symm differs) ..
  unaborted mem := by
    rcases mem_release mem with isAborted | isOccupied | ⟨waker, isWoken⟩
    · cases isAborted
      exact differs (by rfl)
    · cases isOccupied
    · cases isWoken

section Dials

variable {id : ℕ} {dialer : Dialer}

omit [DecidableEq Dialer] in
theorem dialer_ne_listener (dialer : Dialer) :
    (.dialer dialer : SlotId Dialer N) ≠ .listener i := by
  rintro ⟨⟩

theorem untouched_finishConnect (connected : Option Bool) (s : EmbassyNet Dialer N Waker) :
    Untouched i s (s.finishConnect id dialer (.dialer dialer) connected).1
      (s.finishConnect id dialer (.dialer dialer) connected).2 := by
  cases connected with
  | none => exact .rfl
  | some result =>
      cases result with
      | true => exact ⟨by rfl, by rfl, fun mem => by cases List.mem_singleton.mp mem⟩
      | false =>
          have released :=
            untouched_release (i := i) (s.setConnect id (some ⟨dialer, .yielding⟩))
            (dialer_ne_listener dialer)
          exact ⟨released.pending, released.slot, released.unaborted⟩

theorem Kept.untouched_startConnect (kept : Kept s none) (connected : Option Bool) :
    Untouched i s (s.startConnect id dialer connected).1
      (s.startConnect id dialer connected).2 := by
  unfold EmbassyNet.startConnect
  cases isSocket : (s.slots (.dialer dialer)).socket with
  | none =>
      apply untouched_none (by rfl) (by rfl)
      intro socket mem
      cases List.mem_singleton.mp mem
  | some socket =>
      have homed := kept.slots _ _ isSocket
      subst homed
      have taken : Untouched i s
          ((s.take (.dialer dialer)).setConnect id
            (some ⟨dialer, .connecting (.dialer dialer)⟩))
          [.aborted (.dialer dialer)] := by
        have taken := untouched_take (i := i) s (dialer_ne_listener dialer)
        refine ⟨taken.pending, taken.slot, fun mem => ?_⟩
        cases List.mem_singleton.mp mem
      exact taken.trans (untouched_finishConnect connected _)

theorem Kept.untouched_pollConnect {connect : Connect Dialer N} (kept : Kept s none)
    (isConnect : s.connects id = some connect) (resolved connected : Option Bool) :
    Untouched i s (s.pollConnect id connect resolved connected).1
      (s.pollConnect id connect resolved connected).2 := by
  have failed : Untouched i s (s.setConnect id none) [.connected id (.error .io)] := by
    apply untouched_none (by rfl) (by rfl)
    intro socket mem
    cases List.mem_singleton.mp mem
  obtain ⟨dialer, stage⟩ := connect
  cases stage with
  | resolving =>
      cases resolved with
      | none => exact .rfl
      | some found =>
          cases found with
          | false => exact failed
          | true => exact kept.untouched_startConnect connected
  | connecting guard =>
      have homed := kept.connects id _ guard isConnect (by rfl)
      dsimp only at homed
      subst homed
      exact untouched_finishConnect connected s
  | yielding => exact failed

theorem Kept.untouched_dropConnect {connect : Connect Dialer N} (kept : Kept s none)
    (isConnect : s.connects id = some connect) :
    Untouched i s (s.dropConnect id connect).1 (s.dropConnect id connect).2 := by
  obtain ⟨dialer, stage⟩ := connect
  cases stage with
  | resolving => exact untouched_none (by rfl) (by rfl) fun _ => List.not_mem_nil
  | yielding => exact untouched_none (by rfl) (by rfl) fun _ => List.not_mem_nil
  | connecting guard =>
      have homed := kept.connects id _ guard isConnect (by rfl)
      dsimp only at homed
      subst homed
      have released := untouched_release (i := i) (s.setConnect id none)
        (dialer_ne_listener dialer)
      exact ⟨released.pending, released.slot, released.unaborted⟩

end Dials

/-- A stream returns its socket, and the stored accept of the slot is woken. -/
theorem Kept.steady_dropStream {id : ℕ} {stream : EmbassyTcpStream Dialer N} (kept : Kept s none)
    (isStream : s.streams id = some stream) :
    Steady i s (EmbassyNet.release { s with streams := Function.update s.streams id none }
        stream.recycler stream.socket).1
      (EmbassyNet.release { s with streams := Function.update s.streams id none }
        stream.recycler stream.socket).2 := by
  have homed := kept.streams id stream isStream
  by_cases isSlot : stream.recycler = .listener i
  · constructor
    · intro id waker isParked isEmpty _
      rw [homed, isSlot]
      have isWaker := kept.parked i id waker isParked isEmpty
      refine List.mem_cons_of_mem _ (List.mem_append_right _ ?_)
      dsimp only
      rw [isWaker]
      exact List.mem_singleton.mpr (by rfl)
    · intro other stage isPending
      refine .inr ⟨stage, isPending, ?_⟩
      rintro guard rfl
      have guarded := kept.pending i _ guard isPending (by rfl)
      have inGuard : s.held none (some (.pending i)) = some (.listener i) := by
        change (s.pending i).bind PendingAccept.socket = _
        rw [isPending, ← guarded]
        rfl
      have inStream : s.held none (some (.stream id)) = some (.listener i) := by
        change (s.streams id).map EmbassyTcpStream.socket = _
        rw [isStream, ← isSlot, ← homed]
        rfl
      cases kept.sole.unique inGuard inStream
  · rw [homed]
    have released :=
      untouched_release { s with streams := Function.update s.streams id none } isSlot
    exact Untouched.steady ⟨released.pending, released.slot, released.unaborted⟩ kept

end AimDb.Embassy
