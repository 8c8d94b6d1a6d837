import AimDb.Embassy.TcpPool.Steady
import Mathlib.Data.List.Nodup

/-!
# One accept is consumed

A poll of `accept` consumes the stored accept that is ready and leaves the others as they were.
-/

namespace AimDb.Embassy

open Places

variable {Dialer Waker : Type} {N : ℕ} {s middle after : EmbassyNet Dialer N Waker}
  {events more : List (Event Dialer N Waker)} {i j : Fin N} {returns : Bool}

structure Polled (i : Fin N) (s after : EmbassyNet Dialer N Waker)
    (events : List (Event Dialer N Waker)) (returns : Bool) : Prop where
  others : ∀ j, j ≠ i → Untouched j s after events
  own : Steady i s after events
  only : ∀ j result, .accepted j result ∈ events → j = i ∧ returns = true
  dials : ∀ id result, .connected id result ∉ events

theorem polled_none (kept : Kept s none) : Polled i s s [] false :=
  ⟨fun _ _ => .rfl, Untouched.rfl.steady kept, fun _ _ mem => absurd mem List.not_mem_nil,
    fun _ _ => List.not_mem_nil⟩

theorem steady_accepted {id : ℕ} {guard : TcpSocket Dialer N}
    {result : Except Session.Client.TransportError ℕ}
    (isPending : s.pending i = some ⟨id, .listening guard⟩) (gone : after.pending i = none)
    (mem : .accepted i result ∈ events) : Steady i s after events where
  woken _ _ isParked := by
    rw [isPending] at isParked
    cases isParked
  stored _ _ _ := .inl ⟨⟨result, mem⟩, gone⟩

def Event.Answers : Event Dialer N Waker → Prop
  | .connected _ _ => True
  | .accepted _ _ => True
  | _ => False

variable [DecidableEq Dialer]

theorem silent_release {slot : SlotId Dialer N} {socket : TcpSocket Dialer N} :
    ∀ event ∈ (s.release slot socket).2, ¬ event.Answers := by
  intro event mem
  rcases mem_release mem with rfl | rfl | ⟨waker, rfl⟩
  · exact id
  · exact id
  · exact id

theorem Kept.polled_finishAccept {id : ℕ} {socket : TcpSocket Dialer N} (kept : Kept s none)
    (isPending : s.pending i = some ⟨id, .listening socket⟩) (answer : Option Bool) :
    Polled i s (s.finishAccept i socket answer).1 (s.finishAccept i socket answer).2.1
      (s.finishAccept i socket answer).2.2 := by
  have homed := kept.pending i _ socket isPending rfl
  subst homed
  have gone : (s.setPending i none).pending i = none := Function.update_self ..
  have rest : ∀ j, j ≠ i → (s.setPending i none).pending j = s.pending j :=
    fun j differs => Function.update_of_ne differs ..
  cases answer with
  | none => exact polled_none kept
  | some result =>
      cases result with
      | true =>
          constructor
          · refine fun j differs => ⟨rest j differs, rfl, fun mem => ?_⟩
            cases List.mem_singleton.mp mem
          · exact steady_accepted isPending gone (List.mem_singleton.mpr rfl)
          · intro j accepted mem
            cases List.mem_singleton.mp mem
            exact ⟨rfl, rfl⟩
          · intro _ _ mem
            cases List.mem_singleton.mp mem
      | false =>
          constructor
          · intro j differs
            have other : (.listener i : SlotId Dialer N) ≠ .listener j :=
              fun same => differs (SlotId.listener.inj same).symm
            have released := untouched_release (s.setPending i none) other
            refine ⟨released.pending.trans (rest j differs), released.slot, fun mem => ?_⟩
            rcases List.mem_append.mp mem with mem | mem
            · exact released.unaborted mem
            · cases List.mem_singleton.mp mem
          · exact steady_accepted isPending gone
              (List.mem_append_right _ (List.mem_singleton.mpr rfl))
          · intro j accepted mem
            rcases List.mem_append.mp mem with mem | mem
            · exact absurd trivial (silent_release _ mem)
            · cases List.mem_singleton.mp mem
              exact ⟨rfl, rfl⟩
          · intro _ _ mem
            rcases List.mem_append.mp mem with mem | mem
            · exact silent_release _ mem trivial
            · cases List.mem_singleton.mp mem

theorem Kept.polled_guard {id : ℕ} {stage : Accepting Dialer N Waker}
    {socket : TcpSocket Dialer N} (kept : Kept s none)
    (isPending : s.pending i = some ⟨id, stage⟩)
    (idle : PendingAccept.socket ⟨id, stage⟩ = none)
    (isSocket : (s.slots (.listener i)).socket = some socket)
    (guarded : Polled i
      ((s.take (.listener i)).setPending i
        (some ⟨id, .listening socket⟩)) after events returns) :
    Polled i s after (.aborted socket :: events) returns := by
  have homed := kept.slots _ _ isSocket
  subst homed
  constructor
  · intro j differs
    have other : (.listener i : SlotId Dialer N) ≠ .listener j :=
      fun same => differs (SlotId.listener.inj same).symm
    have untouched := guarded.others j differs
    have taken := untouched_take s other
    refine ⟨untouched.pending.trans (Function.update_of_ne differs ..),
      untouched.slot.trans taken.slot, fun mem => ?_⟩
    rcases List.mem_cons.mp mem with isAborted | mem
    · cases isAborted
      exact differs rfl
    · exact untouched.unaborted mem
  · constructor
    · intro _ _ _ isEmpty
      rw [isSocket] at isEmpty
      cases isEmpty
    · intro other otherStage isOther
      rw [isPending] at isOther
      cases isOther
      rcases guarded.own.stored id _ (Function.update_self ..) with
        ⟨⟨result, mem⟩, gone⟩ | ⟨later, isLater, -⟩
      · exact .inl ⟨⟨result, List.mem_cons_of_mem _ mem⟩, gone⟩
      · refine .inr ⟨later, isLater, ?_⟩
        rintro guard rfl
        cases idle
  · intro j result mem
    rcases List.mem_cons.mp mem with impossible | mem
    · cases impossible
    · exact guarded.only j result mem
  · intro other result mem
    rcases List.mem_cons.mp mem with impossible | mem
    · cases impossible
    · exact guarded.dials other result mem

theorem polled_park {id : ℕ} {stage : Accepting Dialer N Waker}
    (isPending : s.pending i = some ⟨id, stage⟩)
    (idle : PendingAccept.socket ⟨id, stage⟩ = none) (waker : Waker) :
    Polled i s ((s.setSlot (.listener i) ⟨none, some waker⟩).setPending i
      (some ⟨id, .parked waker⟩)) [] false := by
  constructor
  · intro j differs
    have other : (.listener j : SlotId Dialer N) ≠ .listener i :=
      fun same => differs (SlotId.listener.inj same)
    exact ⟨Function.update_of_ne differs .., Function.update_of_ne other .., List.not_mem_nil⟩
  · constructor
    · intro _ _ _ _ filled
      refine absurd ?_ filled
      change (Function.update s.slots (.listener i) _ (.listener i)).socket = none
      rw [Function.update_self]
    · intro other otherStage isOther
      rw [isPending] at isOther
      cases isOther
      refine .inr ⟨.parked waker, Function.update_self .., ?_⟩
      rintro guard rfl
      cases idle
  · exact fun _ _ mem => absurd mem List.not_mem_nil
  · exact fun _ _ => List.not_mem_nil

theorem Kept.polled (kept : Kept s none) (waker : Waker) (answer : Fin N → Option Bool)
    (i : Fin N) : Polled i s (s.pollPending waker answer i).1 (s.pollPending waker answer i).2.1
      (s.pollPending waker answer i).2.2 := by
  unfold EmbassyNet.pollPending
  split
  · exact polled_none kept
  next id guard isPending => exact kept.polled_finishAccept isPending (answer i)
  next id stage waiting isPending =>
    have idle : PendingAccept.socket (⟨id, stage⟩ : PendingAccept Dialer N Waker) = none := by
      cases stage with
      | armed => rfl
      | parked waker => rfl
      | listening guard => exact absurd rfl (waiting guard)
    split
    next isEmpty => exact polled_park isPending idle waker
    next socket isSocket =>
      have guarded := kept.guard isPending idle isSocket
      exact kept.polled_guard isPending idle isSocket
        (guarded.polled_finishAccept (Function.update_self ..) (answer i))

/-- What the loop of `accept` does. -/
structure Looped (indices : List (Fin N)) (s after : EmbassyNet Dialer N Waker)
    (events : List (Event Dialer N Waker)) : Prop where
  absent : ∀ i, i ∉ indices → Untouched i s after events
  steady : indices.Nodup → ∀ i, Steady i s after events
  one : ∀ i j first second, .accepted i first ∈ events →
    .accepted j second ∈ events → i = j
  dials : ∀ id result, .connected id result ∉ events

omit [DecidableEq Dialer] in
theorem Polled.returned {rest : List (Fin N)} (polled : Polled i s after events true)
    (kept : Kept s none) : Looped (i :: rest) s { after with accept := none } events where
  absent j absent := by
    have untouched := polled.others j (List.ne_of_not_mem_cons absent)
    exact ⟨untouched.pending, untouched.slot, untouched.unaborted⟩
  steady _ j := by
    by_cases same : j = i
    · subst same
      exact ⟨polled.own.woken, polled.own.stored⟩
    · have steady := (polled.others j same).steady kept
      exact ⟨steady.woken, steady.stored⟩
  one j k first second isFirst isSecond :=
    (polled.only j first isFirst).1.trans (polled.only k second isSecond).1.symm
  dials := polled.dials

omit [DecidableEq Dialer] in
theorem Polled.waits {rest : List (Fin N)} (polled : Polled i s middle events false)
    (kept : Kept s none) (looped : Looped rest middle after more) :
    Looped (i :: rest) s after (events ++ more) where
  absent j absent :=
    (polled.others j (List.ne_of_not_mem_cons absent)).trans
      (looped.absent j (List.not_mem_of_not_mem_cons absent))
  steady nodup j := by
    by_cases same : j = i
    · subst same
      exact polled.own.trans_untouched (looped.absent j (List.nodup_cons.mp nodup).1) kept
    · exact (polled.others j same).trans_steady (looped.steady (List.nodup_cons.mp nodup).2 j) kept
  one j k first second isFirst isSecond := by
    have later : ∀ {j result}, .accepted j result ∈ events ++ more →
        .accepted j result ∈ more := by
      intro j result mem
      rcases List.mem_append.mp mem with mem | mem
      · cases (polled.only j result mem).2
      · exact mem
    exact looped.one j k first second (later isFirst) (later isSecond)
  dials id result mem := by
    rcases List.mem_append.mp mem with mem | mem
    · exact polled.dials id result mem
    · exact looped.dials id result mem

theorem Kept.looped (kept : Kept s none) (waker : Waker) (answer : Fin N → Option Bool)
    (indices : List (Fin N)) : Looped indices s (EmbassyNet.pollAll waker answer indices s).1
      (EmbassyNet.pollAll waker answer indices s).2 := by
  induction indices generalizing s with
  | nil =>
      exact ⟨fun _ _ => .rfl, fun _ _ => Untouched.rfl.steady kept,
        fun _ _ _ _ mem => absurd mem List.not_mem_nil, fun _ _ => List.not_mem_nil⟩
  | cons i rest inductionHypothesis =>
      have polled := kept.polled waker answer i
      have keeps := (kept.pollPending waker answer i).1
      rw [EmbassyNet.pollAll]
      split
      next after events returned =>
        rw [returned] at polled
        exact polled.returned kept
      next after events waits =>
        rw [waits] at polled keeps
        exact polled.waits kept (inductionHypothesis keeps)

end AimDb.Embassy
